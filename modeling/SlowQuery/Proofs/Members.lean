import SlowQuery.Proofs.Agreement
import SlowQuery.Proofs.Numerals
import SlowQuery.Proofs.Searches

namespace SlowQuery.Payload

open Text

/-- A scalar in the text of which neither a scan nor a search finds anything. -/
structure Inert (s : Scalar) : Prop where
  literal : Literal s
  keeps : ∀ {opener closer}, IsPair opener closer → Keeps opener closer .outside .outside s.render
  noColon : ':' ∉ s.render

/-- Objects and arrays of inert scalars, with names for keys. -/
inductive Simple : Value → Prop
  | object {ms : List (Text × Value)} (hk : ∀ m ∈ ms, IsName m.1) (hv : ∀ m ∈ ms, Simple m.2) :
      Simple (.object ms)
  | array {vs : List Value} (hv : ∀ v ∈ vs, Simple v) : Simple (.array vs)
  | scalar {s : Scalar} (h : Inert s) : Simple (.scalar s)

namespace Value

def isDocument : Value → Bool
  | .scalar _ => false
  | _ => true

mutual

/-- The members of a document and of those in it, in the order of the text. -/
def fields : Value → List (Text × Value)
  | .object ms => memberFields ms
  | .array vs => itemFields vs
  | .elided => []
  | .scalar _ => []

def memberFields : List (Text × Value) → List (Text × Value)
  | [] => []
  | (k, v) :: ms => (k, v) :: (fields v ++ memberFields ms)

def itemFields : List Value → List (Text × Value)
  | [] => []
  | v :: vs => fields v ++ itemFields vs

end

/-- The first document that a member of the name holds, however deep it stands. -/
def first? (name : Text) (v : Value) : Option Value :=
  (v.fields.find? fun m => m.1 = name && m.2.isDocument).map (·.2)

def hasKeyEnding (name : Text) (v : Value) : Bool := v.fields.any fun m => endsWith name m.1

theorem isDocument_mapScalars (f : Scalar → Scalar) (v : Value) :
    (v.mapScalars f).isDocument = v.isDocument := by
  cases v <;> rfl

mutual

theorem fields_mapScalars (f : Scalar → Scalar) : ∀ v : Value,
    (v.mapScalars f).fields = v.fields.map fun m => (m.1, m.2.mapScalars f)
  | .object ms => memberFields_mapMembers f ms
  | .array vs => itemFields_mapItems f vs
  | .elided | .scalar _ => rfl

theorem memberFields_mapMembers (f : Scalar → Scalar) : ∀ ms : List (Text × Value),
    memberFields (mapMembers f ms) = (memberFields ms).map fun m => (m.1, m.2.mapScalars f)
  | [] => rfl
  | (k, v) :: ms => by
      rw [mapMembers, memberFields, memberFields, fields_mapScalars f v,
        memberFields_mapMembers f ms, List.map_cons, List.map_append]

theorem itemFields_mapItems (f : Scalar → Scalar) : ∀ vs : List Value,
    itemFields (mapItems f vs) = (itemFields vs).map fun m => (m.1, m.2.mapScalars f)
  | [] => rfl
  | v :: vs => by
      rw [mapItems, itemFields, itemFields, fields_mapScalars f v, itemFields_mapItems f vs,
        List.map_append]

end

theorem first?_mapScalars (f : Scalar → Scalar) (name : Text) (v : Value) :
    (v.mapScalars f).first? name = (v.first? name).map (mapScalars f) := by
  rw [first?, fields_mapScalars, List.find?_map, Option.map_map, first?, Option.map_map]
  simp only [Function.comp_def, isDocument_mapScalars]

end Value

/-- The own member of the name, if there is one, is a document, and none is found before it. -/
structure Foremost (n : Text) (ms : List (Text × Value)) : Prop where
  document : ∀ v, ms.lookup n = some v → v.isDocument = true
  shallow : ∀ m ∈ ms.takeWhile (·.1 ≠ n), m.2.first? n = none

section

variable {opener closer c : Char} {k t : Text} {s : Scalar} {v : Value}
  {ms : List (Text × Value)} {vs : List Value} {n : Text}

theorem inert_number (h : isNumber t = true) : Inert (.number t) where
  literal := literal_number h
  keeps hp := keeps_clean hp fun c hc hm => by
    have hne := isNumeral_ne ((numerals_number h).2 c hc) (d := c)
    simp only [marks, List.mem_cons, List.not_mem_nil, or_false] at hm
    rcases hm with rfl | rfl | rfl | rfl | rfl <;> exact hne (by decide) rfl
  noColon hc := isNumeral_ne ((numerals_number h).2 _ hc) (by decide) rfl

theorem needsQuotes_name (h : isNameChar c = true) : needsQuotes c = false := by
  have hblank : isBlank c = false := by
    rw [Bool.eq_false_iff]
    intro hb
    rw [isNameChar_of_blank hb] at h
    cases h
  have hne : ∀ d, isNameChar d = false → c ≠ d := by
    rintro d hd rfl
    rw [hd] at h
    cases h
  simp [needsQuotes, hblank, hne ':' (by decide), hne ',' (by decide), hne '{' (by decide),
    hne '}' (by decide), hne '[' (by decide), hne ']' (by decide), hne '"' (by decide),
    hne '\'' (by decide), hne '\\' (by decide)]

theorem keyText_name (h : IsName k) : KeyText k k :=
  .bare (isBareKey_of_safe fun c hc => needsQuotes_name (h.chars c hc))

theorem Simple.legible (h : Simple v) : Legible v := by
  induction h with
  | object hk _ ih => exact .object (fun m hm => keyText_name (hk m hm)) ih
  | array _ ih => exact .array ih
  | scalar h => exact .scalar h.literal

theorem keeps_name (hp : IsPair opener closer) (h : IsName k) :
    Keeps opener closer .outside .outside k :=
  keeps_clean hp fun c hc hm => by
    have hq := needsQuotes_name (h.chars c hc)
    simp only [marks, List.mem_cons, List.not_mem_nil, or_false] at hm
    rcases hm with rfl | rfl | rfl | rfl | rfl <;> exact absurd hq (by decide)

theorem inert_bool (b : Bool) : Inert (.bool b) where
  literal := literal_bool b
  keeps hp := keeps_name hp (by cases b <;> decide)
  noColon := colon_not_mem (by cases b <;> decide)

section

variable (hp : IsPair opener closer)

include hp

theorem keeps_renderItems (h : ∀ v ∈ vs, Keeps opener closer .outside .outside v.render) :
    Keeps opener closer .outside .outside (Value.renderItems vs) := by
  induction vs with
  | nil => exact keeps_nil .outside
  | cons v vs ih =>
      obtain ⟨hv, hvs⟩ := List.forall_mem_cons.mp h
      cases vs with
      | nil => exact hv
      | cons w vs =>
          have hcomma : Keeps opener closer .outside .outside [',', ' '] :=
            keeps_clean hp (by simp [marks])
          exact hv.append (hcomma.append (ih hvs))

theorem keeps_renderMembers (hks : ∀ m ∈ ms, IsName m.1)
    (hvs : ∀ m ∈ ms, Keeps opener closer .outside .outside m.2.render) :
    Keeps opener closer .outside .outside (Value.renderMembers ms) := by
  induction ms with
  | nil => exact keeps_nil .outside
  | cons m ms ih =>
      obtain ⟨hk, hks⟩ := List.forall_mem_cons.mp hks
      obtain ⟨hv, hvs⟩ := List.forall_mem_cons.mp hvs
      have hcolon : Keeps opener closer .outside .outside [':', ' '] := keeps_clean hp (by simp [marks])
      have hmember := (keeps_name hp hk).append (hcolon.append hv)
      cases ms with
      | nil => exact hmember
      | cons x ms =>
          have hcomma : Keeps opener closer .outside .outside [',', ' '] :=
            keeps_clean hp (by simp [marks])
          simpa [Value.renderMembers] using hmember.append (hcomma.append (ih hks hvs))

theorem Simple.keeps (h : Simple v) : Keeps opener closer .outside .outside v.render := by
  induction h with
  | object hk _ ih => exact (keeps_renderMembers hp hk ih).nested hp .braces
  | array _ ih => exact (keeps_renderItems hp ih).nested hp .brackets
  | scalar h => exact h.keeps hp

end

theorem Simple.balanced? (h : Simple v) (t : Text) :
    balanced? (v.render ++ t) = if v.isDocument then some (v.render, t) else none := by
  cases h with
  | object hk hv =>
      have hkeeps := keeps_renderMembers .braces hk fun m hm => (hv m hm).keeps .braces
      exact closeFrom_keeps .braces hkeeps t
  | array hv =>
      have hkeeps := keeps_renderItems .brackets fun v hm => (hv v hm).keeps .brackets
      exact closeFrom_keeps .brackets hkeeps t
  | scalar h =>
      obtain ⟨c, u, hu, -, hc⟩ := h.literal.head
      rw [Value.render, hu]
      exact balanced?_eq_none hc (u ++ t)

theorem Simple.head (h : Simple v) : ∃ c u, v.render = c :: u ∧ isBlank c = false :=
  h.legible.written.head

theorem first?_cons (n k : Text) (v : Value) (ms : List (Text × Value)) :
    (Value.object ((k, v) :: ms)).first? n =
      if k = n && v.isDocument then some v else (v.first? n).or ((Value.object ms).first? n) := by
  simp only [Value.first?, Value.fields, Value.memberFields, List.find?_cons, List.find?_append]
  cases decide (k = n) && v.isDocument with
  | true => rfl
  | false =>
      rw [if_neg (by decide)]
      cases v.fields.find? fun m => m.1 = n && m.2.isDocument <;> rfl

theorem first?_head (hv : v.isDocument = true) (ms : List (Text × Value)) :
    (Value.object ((n, v) :: ms)).first? n = some v := by
  rw [first?_cons, hv, decide_eq_true rfl, Bool.and_self, if_pos rfl]

theorem hasKeyEnding_cons (n k : Text) (v : Value) (ms : List (Text × Value)) :
    (Value.object ((k, v) :: ms)).hasKeyEnding n =
      (endsWith n k || (v.hasKeyEnding n || (Value.object ms).hasKeyEnding n)) := by
  simp only [Value.hasKeyEnding, Value.fields, Value.memberFields, List.any_cons, List.any_append]

theorem Foremost.tail (h : Foremost n ((k, v) :: ms)) (hk : k ≠ n) :
    v.first? n = none ∧ Foremost n ms := by
  have hshallow := h.shallow
  rw [List.takeWhile_cons, if_pos (decide_eq_true hk)] at hshallow
  obtain ⟨hv, hms⟩ := List.forall_mem_cons.mp hshallow
  refine ⟨hv, fun x hx => h.document x ?_, hms⟩
  rw [List.lookup_cons, beq_eq_false_iff_ne.mpr hk.symm]
  exact hx

theorem Foremost.first?_eq (h : Foremost n ms) :
    (Value.object ms).first? n = (Value.object ms).field? n := by
  induction ms with
  | nil => rfl
  | cons m ms ih =>
      obtain ⟨k, v⟩ := m
      rw [Value.field?]
      by_cases hk : k = n
      · subst hk
        rw [List.lookup_cons_self, first?_head (h.document v List.lookup_cons_self)]
      · -- A member in front of the own one holds none of the name, so the search passes it whole.
        obtain ⟨hv, hms⟩ := h.tail hk
        rw [List.lookup_cons, beq_eq_false_iff_ne.mpr (Ne.symm hk), first?_cons,
          decide_eq_false hk, Bool.false_and, if_neg (by decide), hv, Option.none_or, ih hms,
          Value.field?]

theorem Simple.nil : Simple (.object []) := .object (by simp) (by simp)

theorem Simple.cons (hk : IsName k) (hv : Simple v) (h : Simple (.object ms)) :
    Simple (.object ((k, v) :: ms)) := by
  cases h with
  | object hks hvs =>
      exact .object (List.forall_mem_cons.mpr ⟨hk, hks⟩) (List.forall_mem_cons.mpr ⟨hv, hvs⟩)

theorem mem_itemFields {m : Text × Value} : m ∈ Value.itemFields vs ↔ ∃ v ∈ vs, m ∈ v.fields := by
  induction vs with
  | nil => simp [Value.itemFields]
  | cons v vs ih => simp [Value.itemFields, ih]

theorem mem_memberFields {m : Text × Value} :
    m ∈ Value.memberFields ms ↔ ∃ x ∈ ms, m = x ∨ m ∈ x.2.fields := by
  induction ms with
  | nil => simp [Value.memberFields]
  | cons x ms ih => simp [Value.memberFields, ih, or_assoc]

theorem Simple.fields (h : Simple v) : ∀ m ∈ v.fields, Simple m.2 := by
  induction h with
  | scalar => simp [Value.fields]
  | array _ ih =>
      intro m hm
      obtain ⟨v, hv, hm⟩ := mem_itemFields.mp hm
      exact ih v hv m hm
  | object _ hv ih =>
      intro m hm
      obtain ⟨x, hx, rfl | hm⟩ := mem_memberFields.mp hm
      · exact hv m hx
      · exact ih x hx m hm

theorem Simple.first? (h : Simple v) {x : Value} (hx : v.first? n = some x) : Simple x := by
  obtain ⟨m, hm, rfl⟩ := Option.map_eq_some_iff.mp hx
  exact h.fields m (List.mem_of_find?_eq_some hm)

end

end SlowQuery.Payload

namespace SlowQuery.Record

open Text Payload

/-- A search for the key `n` that, at a member, finds what `g` tells or goes on in its value. -/
structure Visits {β : Type} (n : Text) (f : Option Char → Text → Option β)
    (g : Text × Value → Option β) : Prop where
  passes : Passes (marker n) f
  found : ∀ {k v p} t, IsName k → Simple v → p.any isNameChar = false →
    f p (k ++ ':' :: ' ' :: (v.render ++ t)) = (g (k, v)).or (f (some ' ') (v.render ++ t))

def Walks {β : Type} (f : Option Char → Text → Option β) (g : Text × Value → Option β) (v : Value) :
    Prop :=
  ∀ p e t, p.any isNameChar = false → isDelimiter e = true →
    f p (v.render ++ e :: t) = (v.fields.findSome? g).or (f (some e) t)

variable {β : Type} {n k t : Text} {f : Option Char → Text → Option β} {g : Text × Value → Option β}
variable {p : Option Char} {e : Char} {v : Value} {ms : List (Text × Value)} {vs : List Value}

theorem Visits.scalar (h : Visits n f g) (hn : IsName n) {s : Scalar} (hs : Inert s) :
    Walks f g (.scalar s) := by
  intro p e t _ he
  have hclear : Clear (marker n) s.render (e :: t) := by
    have hm : e ∉ marker n := textEnd_not_mem_marker hn (isTextEnd_of_delimiter he)
    refine clear_of_not_infix hm fun hi => hs.noColon ?_
    exact hi.subset (by simp [marker])
  rw [Value.render, h.passes.append hclear]
  exact h.passes.cons hn (isNameChar_of_delimiter he) _ t

theorem Visits.items (h : Visits n f g) (hn : IsName n) (hvs : ∀ v ∈ vs, Walks f g v)
    (hp : p.any isNameChar = false) (t : Text) :
    f p (Value.renderItems vs ++ ']' :: t) =
      ((Value.itemFields vs).findSome? g).or (f (some ']') t) := by
  induction vs generalizing p with
  | nil => exact h.passes.cons hn (by decide) p t
  | cons v vs ih =>
      obtain ⟨hv, hvs⟩ := List.forall_mem_cons.mp hvs
      rw [Value.itemFields, List.findSome?_append, Option.or_assoc]
      cases vs with
      | nil => exact hv p ']' t hp rfl
      | cons w vs =>
          have hrest := ih hvs (p := some ' ') rfl
          have hcomma := hv p ',' (' ' :: (Value.renderItems (w :: vs) ++ ']' :: t)) hp rfl
          rw [h.passes.cons hn (by decide), hrest] at hcomma
          simpa [Value.renderItems] using hcomma

theorem findSome?_member (m : Text × Value) : (m :: ms).findSome? g = (g m).or (ms.findSome? g) := by
  rw [List.findSome?_cons]
  cases g m <;> rfl

theorem Visits.members (h : Visits n f g) (hn : IsName n) (hks : ∀ m ∈ ms, IsName m.1)
    (hms : ∀ m ∈ ms, Simple m.2) (hvs : ∀ m ∈ ms, Walks f g m.2) (hp : p.any isNameChar = false)
    (t : Text) :
    f p (Value.renderMembers ms ++ '}' :: t) =
      ((Value.memberFields ms).findSome? g).or (f (some '}') t) := by
  induction ms generalizing p with
  | nil => exact h.passes.cons hn (by decide) p t
  | cons m ms ih =>
      obtain ⟨hk, hks⟩ := List.forall_mem_cons.mp hks
      obtain ⟨hm, hms⟩ := List.forall_mem_cons.mp hms
      obtain ⟨hv, hvs⟩ := List.forall_mem_cons.mp hvs
      rw [Value.memberFields, findSome?_member, List.findSome?_append, Option.or_assoc,
        Option.or_assoc]
      cases ms with
      | nil =>
          have hfound := h.found ('}' :: t) hk hm hp
          rw [hv (some ' ') '}' t rfl rfl] at hfound
          simpa [Value.renderMembers, Value.memberFields] using hfound
      | cons x ms =>
          have hrest := ih hks hms hvs (p := some ' ') rfl
          have hfound := h.found (',' :: ' ' :: (Value.renderMembers (x :: ms) ++ '}' :: t)) hk hm hp
          rw [hv (some ' ') ',' _ rfl rfl, h.passes.cons hn (by decide), hrest] at hfound
          simpa [Value.renderMembers] using hfound

theorem Visits.walks (h : Visits n f g) (hn : IsName n) (hv : Simple v) : Walks f g v := by
  induction hv with
  | scalar hs => exact h.scalar hn hs
  | @array vs _ ih =>
      intro p e t _ he
      have hshape : (Value.array vs).render ++ e :: t =
          '[' :: (Value.renderItems vs ++ ']' :: e :: t) := by simp [Value.render]
      rw [hshape, h.passes.cons hn (by decide), h.items hn ih rfl,
        h.passes.cons hn (isNameChar_of_delimiter he), Value.fields]
  | @object ms hk hv ih =>
      intro p e t _ he
      have hshape : (Value.object ms).render ++ e :: t =
          '{' :: (Value.renderMembers ms ++ '}' :: e :: t) := by simp [Value.render]
      rw [hshape, h.passes.cons hn (by decide), h.members hn hk hv ih rfl,
        h.passes.cons hn (isNameChar_of_delimiter he), Value.fields]

theorem Visits.object (h : Visits n f g) (hn : IsName n) (hv : Simple (.object ms))
    (hend : ∀ p, f p [] = none) (p : Option Char) :
    f p (Value.object ms).render = (Value.object ms).fields.findSome? g := by
  cases hv with
  | object hk hv =>
      have hwalks : ∀ m ∈ ms, Walks f g m.2 := fun m hm => h.walks hn (hv m hm)
      rw [Value.render, List.cons_append, h.passes.cons hn (by decide),
        h.members hn hk hv hwalks rfl, hend, Option.or_none, Value.fields]

theorem passes_key {α : Type} {f : Option Char → Text → α} (hf : Passes (marker n) f)
    (hn : IsName n) (hk : IsName k) (p : Option Char) (t : Text) :
    (∃ x, k = x ++ n ∧ f p (k ++ ':' :: ' ' :: t) = f (lastOf p x) (marker n ++ t)) ∨
      ¬n <:+ k ∧ f p (k ++ ':' :: ' ' :: t) = f (some ' ') t := by
  have hcolon := colon_not_mem hk
  by_cases hs : n <:+ k
  · obtain ⟨x, rfl⟩ := hs
    have hx : ':' ∉ x := fun hc => hcolon (List.mem_append_left n hc)
    have hclear := clear_before_key hn (t := ' ' :: t) hx
    have hfound := hf.append hclear p
    exact .inl ⟨x, rfl, by simpa [marker] using hfound⟩
  · have hclear := clear_key hn (t := ' ' :: t) hcolon fun h => hs h.1
    have hfound := hf.append hclear p
    rw [lastOf_concat, hf.cons hn (by decide)] at hfound
    exact .inr ⟨hs, by simpa using hfound⟩

theorem visits_documentAfter (hn : IsName n) :
    Visits n (documentAfterFrom (marker n) 0) fun m =>
      if m.1 = n && m.2.isDocument then some m.2.render else none where
  passes := passes_documentAfter _
  found := by
    intro k v p t hk hv hp
    obtain ⟨c, u, hu, hc⟩ := hv.head
    have hdrop : dropBlank (v.render ++ t) = v.render ++ t := by
      rw [hu]
      exact dropBlank_cons hc (u ++ t)
    rcases passes_key (passes_documentAfter _) hn hk p (v.render ++ t) with
      ⟨x, rfl, hf⟩ | ⟨hs, hf⟩
    · rw [hf, documentAfter_found, hdrop, hv.balanced?]
      rcases List.eq_nil_or_concat x with rfl | ⟨x, d, rfl⟩
      · have hlast : (lastOf p []).any isNameChar = false := hp
        rw [hlast]
        cases v.isDocument <;> simp
      · -- The key that is looked for is glued to what stands before it.
        rw [List.concat_eq_append] at hk ⊢
        have hd := hk.chars d (by simp)
        have hne : x ++ [d] ++ n ≠ n := by
          intro he
          have hlength := congrArg List.length he
          simp only [List.length_append, List.length_singleton] at hlength
          omega
        rw [lastOf_concat, Option.any_some, hd, if_pos rfl]
        simp only [hne, decide_false, Bool.false_and, Bool.false_eq_true, if_false, Option.map_none]
    · have hne : k ≠ n := fun he => hs (he ▸ List.suffix_refl k)
      rw [hf]
      simp [hne]

theorem findSome?_document (n : Text) (v : Value) :
    (v.fields.findSome? fun m => if m.1 = n && m.2.isDocument then some m.2.render else none) =
      (v.first? n).map Value.render := by
  rw [Value.first?, Option.map_map, List.find?_eq_findSome?_guard, List.map_findSome?]
  refine congrArg (List.findSome? · _) (funext fun m => ?_)
  simp only [Function.comp_apply, Option.guard]
  split <;> rfl

/-- Cut out of the text of a document is the first document that a member of the name holds. -/
theorem documentAfter?_render (hn : IsName n) (hv : Simple (.object ms)) :
    documentAfter? (marker n) (Value.object ms).render =
      ((Value.object ms).first? n).map Value.render := by
  rw [documentAfter?, (visits_documentAfter hn).object hn hv (fun _ => rfl), findSome?_document]

theorem documentAfterFrom_render (hn : IsName n) (hv : Simple v) (hp : p.any isNameChar = false)
    (he : isDelimiter e = true) (t : Text) :
    documentAfterFrom (marker n) 0 p (v.render ++ e :: t) =
      ((v.first? n).map Value.render).or (documentAfterFrom (marker n) 0 (some e) t) := by
  rw [(visits_documentAfter hn).walks hn hv p e t hp he, findSome?_document]

theorem visits_contains (hn : IsName n) :
    Visits n (fun _ t => (after? (marker n) t).map fun _ => ()) fun m =>
      if endsWith n m.1 then some () else none where
  passes := by
    intro p c t h
    exact congrArg (Option.map _) (passes_after (marker n) p c t h)
  found := by
    intro k v p t hk _ _
    have hne : marker n ≠ [] := by simp [marker]
    rcases passes_key (passes_after (marker n)) hn hk p (v.render ++ t) with
      ⟨x, rfl, hf⟩ | ⟨hs, hf⟩
    · have hends : endsWith n (x ++ n) = true := List.isSuffixOf_iff_suffix.mpr ⟨x, rfl⟩
      rw [hf, after_found hne, hends]
      rfl
    · have hends : endsWith n k = false := by
        rw [Bool.eq_false_iff]
        exact fun h => hs (List.isSuffixOf_iff_suffix.mp h)
      rw [hf, hends]
      rfl

theorem contains_render (hn : IsName n) (hv : Simple (.object ms)) :
    contains (marker n) (Value.object ms).render = (Value.object ms).hasKeyEnding n := by
  have hfound := (visits_contains hn).object hn hv (fun _ => by simp [after?, marker]) none
  have hsome := congrArg Option.isSome hfound
  rw [Option.isSome_map] at hsome
  rw [contains, Value.hasKeyEnding, hsome, Bool.eq_iff_iff, List.findSome?_isSome_iff, List.any_eq_true]
  simp

end SlowQuery.Record
