import SlowQuery.Proofs.Lookups

namespace SlowQuery.Record

open Text Payload

variable {a d n ns payload body body' r t u x : Text}

theorem splitAt?_append {sep : Char} {l : Text} (h : sep ∉ l) (t : Text) :
    splitAt? sep (l ++ sep :: t) = some (l, t) := by
  induction l with
  | nil => simp [splitAt?]
  | cons c l ih =>
      rw [List.mem_cons, not_or] at h
      simp [splitAt?, Ne.symm h.1, ih h.2]

theorem splitAt?_sound {sep : Char} {l : Text} (h : splitAt? sep t = some (l, r)) :
    t = l ++ sep :: r := by
  induction t generalizing l with
  | nil => cases h
  | cons c t ih =>
      rw [splitAt?] at h
      split at h
      next hc =>
        obtain ⟨rfl, rfl⟩ := Prod.mk.inj (Option.some.inj h)
        rw [hc]
        rfl
      next =>
        obtain ⟨⟨l', r'⟩, hl, he⟩ := Option.map_eq_some_iff.mp h
        obtain ⟨rfl, rfl⟩ := Prod.mk.inj he
        rw [ih hl]
        rfl

theorem unwrapCommand?_sound {name : Text} (h : unwrapCommand? t = some (name, d)) :
    CommandLike ((after? "command: ".toList t).getD t) ∧ d <:+ t := by
  have hinner : (after? "command: ".toList t).getD t <:+ t := by
    cases hafter : after? "command: ".toList t with
    | none => exact List.suffix_refl t
    | some u =>
        obtain ⟨l, hl⟩ := after?_sound (by decide) hafter
        exact ⟨l ++ "command: ".toList, by rw [hl, List.append_assoc]; rfl⟩
  rw [unwrapCommand?] at h
  generalize (after? "command: ".toList t).getD t = u at h hinner
  obtain ⟨⟨verb, rest⟩, hs, h⟩ := Option.bind_eq_some_iff.mp h
  obtain ⟨b, hb, hrest⟩ := exists_dropBlank rest
  have hu : u = verb ++ ' ' :: rest := splitAt?_sound hs
  dsimp only at h
  split at h
  next hcond =>
    obtain ⟨-, rfl⟩ := Prod.mk.inj (Option.some.inj h)
    simp only [Bool.and_eq_true, decide_eq_true_eq, List.all_eq_true] at hcond
    obtain ⟨⟨⟨hne, hall⟩, hopen⟩, -⟩ := hcond
    obtain ⟨y, hy⟩ := startsWith_iff.mp hopen
    have hsuffix : dropBlank rest <:+ u := ⟨verb ++ ' ' :: b, by
      rw [hu, List.append_assoc, List.cons_append, ← hrest]⟩
    rw [← hy] at hrest
    rw [hrest] at hu
    exact ⟨⟨verb, b, y, hne, hall, hb, hu⟩, hsuffix.trans hinner⟩
  next => cases h

theorem unwrapCommand?_eq_none (h : ¬CommandLike ((after? "command: ".toList t).getD t)) :
    unwrapCommand? t = none := by
  cases hx : unwrapCommand? t with
  | none => rfl
  | some x => exact absurd (unwrapCommand?_sound hx).1 h

theorem unwrapCommand?_of_found (h : after? "command: ".toList t = some u) (hu : ¬CommandLike u) :
    unwrapCommand? t = none :=
  unwrapCommand?_eq_none (by rwa [h])

theorem unwrapCommand?_eq_some {name : Text}
    (h : (after? "command: ".toList t).getD t = name ++ ' ' :: u)
    (hname : name ≠ [] ∧ name.all isVerbChar = true) (hopen : startsWith ['{'] u = true)
    (hclose : endsWith ['}'] u = true) : unwrapCommand? t = some (name, u) := by
  have hspace : ' ' ∉ name := fun hs => absurd (List.all_eq_true.mp hname.2 _ hs) (by decide)
  have hdrop : dropBlank u = u := by
    obtain ⟨y, rfl⟩ := startsWith_iff.mp hopen
    exact dropBlank_cons (by decide) y
  rw [unwrapCommand?, h, splitAt?_append hspace]
  simp only [Option.bind_eq_bind, Option.bind_some, hdrop, hopen, hclose, hname.1, hname.2, ne_eq,
    not_false_eq_true, decide_true, Bool.and_self, if_true]

/-- An object that is closed at its end and nowhere before. -/
structure IsObject (d : Text) : Prop where
  opens : startsWith ['{'] d = true
  closed : closing? d 0 = some (byteLength d)

namespace Verb

theorem ofName?_name (verb : Verb) : ofName? verb.name = some verb := by
  cases verb <;> decide

theorem name_of_ofName? {verb : Verb} (h : ofName? t = some verb) : verb.name = t := by
  rw [ofName?] at h
  have hname := List.find?_some h
  exact of_decide_eq_true hname

theorem name_chars (verb : Verb) : verb.name ≠ [] ∧ verb.name.all isVerbChar = true := by
  cases verb <;> decide

theorem name_ne_command (verb : Verb) : verb.name ≠ "command".toList := by
  cases verb <;> decide

theorem not_mem_name {c : Char} (hc : isVerbChar c = false) (verb : Verb) : c ∉ verb.name := by
  intro h
  rw [List.all_eq_true.mp verb.name_chars.2 c h] at hc
  cases hc

end Verb

section

variable (hd : IsObject d)

include hd

theorem IsObject.cons : ∃ u, d = '{' :: u ∧ balanced? d = some (d, []) := by
  obtain ⟨u, hu⟩ := startsWith_iff.mp hd.opens
  exact ⟨u, hu.symm, balanced?_of_closing hd.closed⟩

theorem IsObject.balanced? (t : Text) : balanced? (dropBlank (d ++ t)) = some (d, t) := by
  obtain ⟨u, rfl, hb⟩ := hd.cons
  have hdrop : dropBlank ('{' :: u ++ t) = '{' :: u ++ t := dropBlank_cons (by decide) (u ++ t)
  rw [hdrop, balanced?_append hb]
  rfl

theorem IsObject.endsWith : endsWith ['}'] d = true := by
  obtain ⟨u, rfl, hb⟩ := hd.cons
  obtain ⟨-, y, hy⟩ := closeFrom_sound hb
  exact List.isSuffixOf_iff_suffix.mpr ⟨y, hy.symm⟩

theorem IsObject.leadingPayload (hu : '{' ∉ u) (t : Text) :
    leadingPayload (u ++ (d ++ t)) = u ++ d := by
  obtain ⟨d, rfl, hb⟩ := hd.cons
  exact leadingPayload_append hu hb t

theorem IsObject.unwrapCommand? (verb : Verb)
    (h : (after? "command: ".toList payload).getD payload = verb.name ++ ' ' :: d) :
    unwrapCommand? payload = some (verb.name, d) :=
  unwrapCommand?_eq_some h verb.name_chars hd.opens hd.endsWith

end

namespace Query

def of? (verb : Verb) (payload body scan : Text) : Option Query :=
  (filterOf? verb payload body scan).map fun part => ⟨verb, part.1, part.2⟩

theorem bind_filterOf? (verb : Verb) (payload body scan : Text) :
    ((filterOf? verb payload body scan).bind fun part => some ⟨verb, part.1, part.2⟩) =
      of? verb payload body scan := by
  rw [of?]
  cases filterOf? verb payload body scan <;> rfl

def command? (operation payload : Text) : Option (Text × Text) :=
  if operation = "command".toList then unwrapCommand? payload else some (operation, payload)

theorem extract?_eq (operation ns body scan : Text) :
    extract? operation ns body scan =
      if isExcluded ns then none
      else (command? operation (leadingPayload body)).bind fun c =>
        (Verb.ofName? c.1).bind fun verb => of? verb c.2 body scan := by
  simp only [← bind_filterOf?]
  rw [extract?]
  split
  · rfl
  · rw [command?]
    split <;> rfl

theorem extract?_name (verb : Verb) (ns body scan : Text) :
    extract? verb.name ns body scan =
      if isExcluded ns then none else of? verb (leadingPayload body) body scan := by
  rw [extract?_eq, command?, if_neg verb.name_ne_command, Option.bind_some, verb.ofName?_name,
    Option.bind_some]

theorem extract?_command (verb : Verb)
    (h : unwrapCommand? (leadingPayload body) = some (verb.name, payload)) (ns scan : Text) :
    extract? "command".toList ns body scan =
      if isExcluded ns then none else of? verb payload body scan := by
  rw [extract?_eq, command?, if_pos rfl, h, Option.bind_some, verb.ofName?_name, Option.bind_some]

theorem extract?_eq_none (h : unwrapCommand? (leadingPayload body) = none) (ns scan : Text) :
    extract? "command".toList ns body scan = none := by
  rw [extract?_eq, command?, if_pos rfl, h, Option.bind_none, ite_self]

theorem of?_congr {verb : Verb}
    (h : verb = .getMore ∨ verb = .getmore →
      documentAfter? "originatingCommand: ".toList body =
        documentAfter? "originatingCommand: ".toList body')
    (payload scan : Text) : of? verb payload body scan = of? verb payload body' scan := by
  have hcontinued : verb = .getMore ∨ verb = .getmore →
      continuedFilter? body scan = continuedFilter? body' scan := fun hv => by
    rw [continuedFilter?, continuedFilter?, h hv]
  rw [of?, of?]
  cases verb with
  | getMore => rw [filterOf?, filterOf?, hcontinued (.inl rfl)]
  | getmore => rw [filterOf?, filterOf?, hcontinued (.inr rfl)]
  | count | distinct | delete | find | remove | update | aggregate | findAndModify => rfl

section

variable {α : Type} {f : Option Char → Text → α} (hn : IsName n) (hf : Passes (marker n) f)

include hn hf

theorem search_name (verb : Verb) (p : Option Char) (t : Text) :
    f p (verb.name ++ ' ' :: t) = f (some ' ') t := by
  have hclear := clear_word hn (verb.not_mem_name (c := ':') (by decide)) t
  have hpass := hf.append hclear p
  rw [lastOf_concat] at hpass
  simpa using hpass

end

theorem after?_name (verb : Verb) (t : Text) :
    after? "command: ".toList (verb.name ++ ' ' :: t) = after? "command: ".toList t :=
  search_name (n := "command".toList) (by decide) (passes_after _) verb none t

theorem documentAfter?_name (hn : IsName n) (hd : IsObject d) (verb : Verb) (t : Text) :
    documentAfter? (marker n) (verb.name ++ ' ' :: (d ++ t)) =
      documentAfter? (marker n) (d ++ t) := by
  have hf := passes_documentAfter (marker n)
  obtain ⟨u, rfl, -⟩ := hd.cons
  rw [documentAfter?, documentAfter?, search_name hn hf, List.cons_append,
    hf.cons hn (by decide), hf.cons hn (by decide) none]

theorem leadingPayload_name (hd : IsObject d) (verb : Verb) (t : Text) :
    leadingPayload (verb.name ++ ' ' :: (d ++ t)) = verb.name ++ ' ' :: d := by
  have hbrace : '{' ∉ verb.name ++ [' '] := by
    rw [List.mem_append, not_or]
    exact ⟨verb.not_mem_name (by decide), by decide⟩
  simpa using hd.leadingPayload hbrace t

theorem unwrapCommand?_wrapped (hd : IsObject d) (hc : after? "command: ".toList d = none)
    (verb : Verb) (t : Text) :
    unwrapCommand? (leadingPayload (verb.name ++ ' ' :: (d ++ t))) = some (verb.name, d) := by
  rw [leadingPayload_name hd]
  exact hd.unwrapCommand? verb (by rw [after?_name, hc]; rfl)

/-- The record of a wrapped operation is that of the operation. If the marker of a command stands in
its document, what follows that marker is taken for the command, and the record is lost. -/
theorem extract?_wrapped (verb : Verb) (hd : IsObject d)
    (hplain : ∀ u, after? "command: ".toList d = some u → ¬CommandLike u) (ns t scan : Text) :
    extract? "command".toList ns (verb.name ++ ' ' :: (d ++ t)) scan =
      if contains "command: ".toList d then none else extract? verb.name ns (d ++ t) scan := by
  rw [contains]
  cases hm : after? "command: ".toList d with
  | some u =>
      have hafter := after?_name verb d
      rw [hm] at hafter
      refine extract?_eq_none ?_ ns scan
      rw [leadingPayload_name hd]
      exact unwrapCommand?_of_found hafter (hplain u hm)
  | none =>
      have hunwrap := unwrapCommand?_wrapped hd hm verb t
      have hdirect : leadingPayload (d ++ t) = d := hd.leadingPayload (u := []) (by decide) t
      have horigin : documentAfter? "originatingCommand: ".toList (verb.name ++ ' ' :: (d ++ t)) =
          documentAfter? "originatingCommand: ".toList (d ++ t) :=
        documentAfter?_name (n := "originatingCommand".toList) (by decide) hd verb t
      rw [extract?_command verb hunwrap, extract?_name, hdirect, of?_congr fun _ => horigin]
      rfl

theorem extract?_wrapped_find :
    let d := "\x7b find: 'c', filter: \x7b a: 1 \x7d \x7d".toList
    let t := " planSummary: COLLSCAN".toList
    IsObject d ∧ (∀ u, after? "command: ".toList d = some u → ¬CommandLike u) ∧
      extract? "command".toList "db.c".toList ("find ".toList ++ (d ++ t)) [] =
        extract? "find".toList "db.c".toList (d ++ t) [] := by
  intro d t
  have hd : IsObject d := ⟨by decide, by decide⟩
  have hnone : after? "command: ".toList d = none := by decide
  have hplain : ∀ u, after? "command: ".toList d = some u → ¬CommandLike u := by
    rw [hnone]
    exact fun _ h => nomatch h
  have h := extract?_wrapped .find hd hplain "db.c".toList t []
  have hmarker : contains "command: ".toList d = false := congrArg Option.isSome hnone
  rw [hmarker, if_neg Bool.false_ne_true] at h
  exact ⟨hd, hplain, h⟩

/-- A filter over a field of the name `command` hides the query from its own record. -/
theorem wrapped_query_lost :
    let d := "\x7bfind: 1, filter: \x7bcommand: 1\x7d\x7d".toList
    IsObject d ∧
      (extract? "find".toList "db.c".toList d []).map (fun q => (q.verb, q.filter, q.stages)) =
        some (.find, "\x7bcommand: 1\x7d".toList, []) ∧
      extract? "command".toList "db.c".toList ("find ".toList ++ d) [] = none := by
  refine ⟨⟨by decide, by decide⟩, by decide, ?_⟩
  exact Option.isNone_iff_eq_none.mp (by decide)

theorem clear_string (hn : IsName n) (ha : ¬marker n <:+: a) :
    Clear (marker n) ('"' :: (a ++ ['"'])) t := by
  have hquote : '"' ∉ marker n := not_mem_marker hn (by decide) (by decide) (by decide)
  have hopen : Clear (marker n) ['"'] (a ++ ['"'] ++ t) := clear_of_no_name hn (by simp; decide)
  have hclose : Clear (marker n) ['"'] t := clear_of_no_name hn (by simp; decide)
  have hinner : Clear (marker n) a (['"'] ++ t) := clear_of_not_infix hquote ha
  exact Clear.append (u := ['"']) hopen (hinner.append hclose)

/-- The body of a record that names the application before the command. -/
def tagged (a body : Text) : Text := '"' :: (a ++ '"' :: ' ' :: ("command: ".toList ++ body))

section

variable {α : Type} {f : Option Char → Text → α} (hn : IsName n) (hf : Passes (marker n) f)
  (ha : ¬marker n <:+: a)

include hn hf ha

theorem search_tagged (p : Option Char) (body : Text) :
    f p (tagged a body) = f (some ' ') ("command: ".toList ++ body) := by
  have hquoted := hf.append (clear_string (t := ' ' :: ("command: ".toList ++ body)) hn ha) p
  rw [← List.cons_append, lastOf_concat, hf.cons hn (by decide)] at hquoted
  rw [← hquoted]
  simp [tagged]

end

theorem leadingPayload_tagged (ha : '{' ∉ a) (hd : IsObject d) (verb : Verb) (t : Text) :
    leadingPayload (tagged a (verb.name ++ ' ' :: (d ++ t))) =
      tagged a (verb.name ++ ' ' :: d) := by
  have hname : '{' ∉ verb.name := verb.not_mem_name (by decide)
  have hbrace : '{' ∉ tagged a (verb.name ++ [' ']) := by simp [tagged, ha, hname]
  simpa [tagged] using hd.leadingPayload hbrace t

theorem after?_quote (t : Text) :
    after? "command: ".toList ('"' :: t) = after? "command: ".toList t :=
  (passes_after _).cons (n := "command".toList) (by decide) (by decide) none t

theorem after?_tagged (ha : contains "command: ".toList a = false) (body : Text) :
    after? "command: ".toList (tagged a body) = some body := by
  have hfound : after? "command: ".toList (tagged a body) =
      after? "command: ".toList ("command: ".toList ++ body) :=
    search_tagged (n := "command".toList) (by decide) (passes_after _)
      (not_infix_of_contains (by decide) ha) none body
  rw [hfound, after_found (by decide)]

theorem after?_tagged_of_found (ha : after? "command: ".toList a = some u) (body : Text) :
    after? "command: ".toList (tagged a body) =
      some (u ++ '"' :: ' ' :: ("command: ".toList ++ body)) := by
  rw [tagged, after?_quote]
  exact after?_append (by decide) ha _

theorem not_commandLike_quote (hu : '{' ∉ u) (t : Text) : ¬CommandLike (u ++ '"' :: t) := by
  rintro ⟨v, b, x, -, hv, hb, h⟩
  have hmem : '"' ∉ v ++ ' ' :: (b ++ ['{']) := by
    have hquote : '"' ∉ v := fun hq => absurd (hv _ hq) (by decide)
    simp [hquote, hb.not_mem (c := '"') (by decide)]
  have hprefix : v ++ ' ' :: (b ++ ['{']) <+: u ++ '"' :: t := ⟨x, by rw [h]; simp⟩
  exact hu ((prefix_of_not_mem hmem hprefix).subset (by simp))

theorem documentAfter?_tagged (hn : IsName n) (ha : ¬marker n <:+: a)
    (hmarker : ∀ t, Clear (marker n) "command: ".toList t) (verb : Verb) (t : Text) :
    documentAfter? (marker n) (tagged a (verb.name ++ ' ' :: t)) =
      documentAfter? (marker n) (verb.name ++ ' ' :: t) := by
  have hf := passes_documentAfter (marker n)
  rw [documentAfter?, search_tagged hn hf ha, hf.append (hmarker _), documentAfter?,
    search_name hn hf, search_name hn hf]

theorem extract?_tagged_of_command (hx : '{' ∉ x ∧ ':' ∉ x) (verb : Verb) (hd : IsObject d)
    (z body ns scan : Text) :
    let body := tagged (x ++ ("command: ".toList ++ (verb.name ++ ' ' :: (d ++ z)))) body
    extract? "command".toList ns body scan =
      if isExcluded ns then none else of? verb d body scan := by
  intro body
  let command := "command: ".toList ++ (verb.name ++ ' ' :: d)
  have hname : '{' ∉ verb.name := verb.not_mem_name (by decide)
  have hbrace : '{' ∉ '"' :: x ++ ("command: ".toList ++ (verb.name ++ [' '])) := by
    simp [hx.1, hname]
  have hpayload : leadingPayload body = '"' :: (x ++ command) := by
    simpa [body, command, tagged] using hd.leadingPayload hbrace _
  have hclear : Clear "command: ".toList x command :=
    clear_before_key (n := "command".toList) (by decide) hx.2
  have hafter : after? "command: ".toList (x ++ command) = after? "command: ".toList command :=
    (passes_after _).append hclear none
  refine extract?_command verb ?_ ns scan
  rw [hpayload]
  refine hd.unwrapCommand? verb ?_
  rw [after?_quote, hafter, after_found (by decide), Option.getD_some]

theorem extract?_tagged_of_no_brace (verb : Verb) (hd : IsObject d)
    (hc : after? "command: ".toList d = none) (ha : '{' ∉ a)
    (horigin : verb = .getMore ∨ verb = .getmore →
      contains "originatingCommand: ".toList a = false) (ns t scan : Text) :
    let wrapped := verb.name ++ ' ' :: (d ++ t)
    extract? "command".toList ns (tagged a wrapped) scan =
      if contains "command: ".toList a then none
      else extract? "command".toList ns wrapped scan := by
  intro wrapped
  have hpayload := leadingPayload_tagged ha hd verb t
  cases hm : contains "command: ".toList a with
  | true =>
      -- Behind the marker the quote comes before any brace, so no command begins there.
      obtain ⟨u, hu⟩ := Option.isSome_iff_exists.mp hm
      have hbrace : '{' ∉ u := by
        obtain ⟨l, rfl⟩ := after?_sound (by decide) hu
        exact fun h => ha (by simp [h])
      have hfound := after?_tagged_of_found hu (verb.name ++ ' ' :: d)
      rw [← hpayload] at hfound
      exact extract?_eq_none (unwrapCommand?_of_found hfound (not_commandLike_quote hbrace _)) ns scan
  | false =>
      have hunwrap : unwrapCommand? (leadingPayload (tagged a wrapped)) = some (verb.name, d) := by
        rw [hpayload]
        exact hd.unwrapCommand? verb (by rw [after?_tagged hm, Option.getD_some])
      have hsame : verb = .getMore ∨ verb = .getmore →
          documentAfter? "originatingCommand: ".toList (tagged a wrapped) =
            documentAfter? "originatingCommand: ".toList wrapped := fun hv =>
        documentAfter?_tagged (n := "originatingCommand".toList) (by decide)
          (not_infix_of_contains (by decide) (horigin hv)) (by simp [marker, Clear]) verb (d ++ t)
      rw [extract?_command verb hunwrap, extract?_command verb (unwrapCommand?_wrapped hd hc verb t),
        of?_congr hsame]
      rfl

theorem extract?_tagged_of_object {y : Text} (hx : '{' ∉ x) (hy : IsObject y)
    (hxy : contains "command: ".toList (x ++ y) = false) (z body ns scan : Text) :
    extract? "command".toList ns (tagged (x ++ (y ++ z)) body) scan = none := by
  have hbrace : '{' ∉ '"' :: x := by simp [hx]
  have hpayload : leadingPayload (tagged (x ++ (y ++ z)) body) = '"' :: (x ++ y) := by
    simpa [tagged] using hy.leadingPayload hbrace _
  have hnone : after? "command: ".toList (x ++ y) = none := by simpa [contains] using hxy
  refine extract?_eq_none (unwrapCommand?_eq_none ?_) ns scan
  rw [hpayload, after?_quote, hnone]
  exact fun h => absurd h.first (by decide)

/-- The name of the application changes nothing if no brace and none of the markers that are looked
for stands in it. A marker of a command in it hides the command, and so does an object. A command in
it takes the place of the one in the record. -/
theorem extract?_tagged (verb : Verb) (hd : IsObject d) (hc : contains "command: ".toList d = false)
    (a ns t scan : Text) :
    let wrapped := verb.name ++ ' ' :: (d ++ t)
    let extracted (body : Text) := extract? "command".toList ns body scan
    ('{' ∉ a →
      (verb = .getMore ∨ verb = .getmore → contains "originatingCommand: ".toList a = false) →
        extracted (tagged a wrapped) =
          if contains "command: ".toList a then none else extracted wrapped) ∧
      (∀ x y z, a = x ++ (y ++ z) → '{' ∉ x → IsObject y →
        contains "command: ".toList (x ++ y) = false → extracted (tagged a wrapped) = none) ∧
      ∀ x y z (other : Verb), a = x ++ ("command: ".toList ++ (other.name ++ ' ' :: (y ++ z))) →
        '{' ∉ x ∧ ':' ∉ x → IsObject y → extracted (tagged a wrapped) =
          if isExcluded ns then none else of? other y (tagged a wrapped) scan := by
  intro wrapped extracted
  have hnone : after? "command: ".toList d = none := by simpa [contains] using hc
  refine ⟨?_, ?_, ?_⟩
  · intro ha horigin
    exact extract?_tagged_of_no_brace verb hd hnone ha horigin ns t scan
  · rintro x y z rfl hx hy hxy
    exact extract?_tagged_of_object hx hy hxy z wrapped ns scan
  · rintro x y z other rfl hx hy
    exact extract?_tagged_of_command hx other hy z wrapped ns scan

theorem extract?_tagged_shell :
    let d := "\x7b find: 'c', filter: \x7b a: 1 \x7d \x7d".toList
    let wrapped := "find ".toList ++ (d ++ [])
    let extracted (body : Text) := extract? "command".toList "db.c".toList body []
    IsObject d ∧ contains "command: ".toList d = false ∧
      extracted (tagged "MongoDB Shell".toList wrapped) = extracted wrapped ∧
      extracted (tagged "app \x7bb\x7d".toList wrapped) = none ∧
      (extracted (tagged "command: count \x7bquery: \x7bb: 1\x7d\x7d".toList wrapped)).map
        (fun q => (q.verb, q.filter, q.stages)) = some (.count, "\x7bb: 1\x7d".toList, []) := by
  intro d wrapped extracted
  have hd : IsObject d := ⟨by decide, by decide⟩
  have hc : contains "command: ".toList d = false := by decide
  have hshell := (extract?_tagged .find hd hc "MongoDB Shell".toList "db.c".toList [] []).1
    (by decide) (by decide)
  have hmarker : contains "command: ".toList "MongoDB Shell".toList = false := by decide
  rw [hmarker, if_neg Bool.false_ne_true] at hshell
  have happ := (extract?_tagged .find hd hc "app \x7bb\x7d".toList "db.c".toList [] []).2.1
    "app ".toList "\x7bb\x7d".toList [] rfl (by decide) ⟨by decide, by decide⟩ (by decide)
  have hcount := (extract?_tagged .find hd hc
    "command: count \x7bquery: \x7bb: 1\x7d\x7d".toList "db.c".toList [] []).2.2
    [] "\x7bquery: \x7bb: 1\x7d\x7d".toList [] .count rfl (by decide) ⟨by decide, by decide⟩
  exact ⟨hd, hc, hshell, happ, (congrArg (Option.map _) hcount).trans (by decide)⟩

/-- A name with braces hides the query of a record in which nothing else stands out. -/
theorem tagged_query_lost :
    let d := "\x7bfilter: \x7ba: 1\x7d\x7d".toList
    let wrapped := "find ".toList ++ d
    Content "\x7bx\x7d".toList ∧ IsObject d ∧ contains "command: ".toList d = false ∧
      (extract? "command".toList "db.c".toList wrapped []).map
        (fun q => (q.verb, q.filter, q.stages)) = some (.find, "\x7ba: 1\x7d".toList, []) ∧
      extract? "command".toList "db.c".toList (tagged "\x7bx\x7d".toList wrapped) [] = none := by
  refine ⟨by decide, ⟨by decide, by decide⟩, by decide, by decide, ?_⟩
  exact Option.isNone_iff_eq_none.mp (by decide)

end Query

end SlowQuery.Record
