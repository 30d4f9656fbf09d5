import SlowQuery.Proofs.Lines
import SlowQuery.Proofs.Unwrapping

namespace SlowQuery.Record

open Text Payload Shape

variable {p p' : Part} {v v' : Value} {c u w w' r t : Text} {ms ms' : List (Text × Value)}

/-- A name of a collection in which a search finds nothing. -/
structure IsCollection (c : Text) : Prop where
  content : Content c
  unmarked : Unmarked c
  noFilter : ¬Offers "filter".toList none c

def findDocument (collection filter : Text) : Text :=
  "\x7b find: ".toList ++ '"' :: (collection ++ '"' :: (", filter: ".toList ++ (filter ++ [' ', '}'])))

theorem string_append (a t : Text) : '"' :: a ++ ['"'] ++ t = '"' :: (a ++ '"' :: t) := by simp

theorem clear_frame {n : Text} (hn : n ∈ ["sort".toList, "command".toList]) (t : Text) :
    Clear (marker n) "\x7b find: ".toList t ∧ Clear (marker n) ", filter: ".toList t := by
  simp only [List.mem_cons, List.not_mem_nil, or_false] at hn
  rcases hn with rfl | rfl <;> simp [marker, Clear]

section

variable {α : Type} {n : Text} {f : Option Char → Text → α} {R : α → α → Prop}

theorem agree_findDocument (h : Compares n f R) (hn : IsName n)
    (hm : n ∈ ["sort".toList, "command".toList]) (hstop : Agree f R [] []) (hc : IsCollection c)
    (hr : Retold (.value v) (.value v') w w') :
    Agree f R (findDocument c w) (findDocument c w') := by
  have hfilter := h.retold hn hr [] [' '] '}' [] [] .outside blank_nil blank_space rfl (.nil _)
    hstop
  have hinner := Agree.pass h.passes (clear_frame hm _).2 (clear_frame hm _).2 hfilter
  have hstring := Agree.string hn h hc.unmarked hc.unmarked hinner
  rw [string_append, string_append] at hstring
  exact hstring.pass h.passes (clear_frame hm _).1 (clear_frame hm _).1

end

theorem sort_retold (hc : IsCollection c) (hr : Retold (.value v) (.value v') w w') :
    (documentAfter? "sort: ".toList (findDocument c w)).map signature? =
      (documentAfter? "sort: ".toList (findDocument c w')).map signature? :=
  agree_findDocument compares_sort (by decide) (by simp) (fun _ => rfl) hc hr none

theorem command_retold (hc : IsCollection c) (hr : Retold (.value v) (.value v') w w') :
    NoCommands (after? "command: ".toList ("find ".toList ++ findDocument c w))
      (after? "command: ".toList ("find ".toList ++ findDocument c w')) := by
  have hstop : Agree (fun _ => after? (marker "command".toList)) NoCommands [] [] :=
    fun _ => .inl ⟨rfl, rfl⟩
  have h := agree_findDocument compares_command (by decide) (by simp) hstop hc hr
  have hclear : ∀ t, Clear (marker "command".toList) "find ".toList t := by simp [marker, Clear]
  exact h.pass compares_command.passes (hclear _) (hclear _) none

theorem object_head (hr : Retold (.value (.object ms)) p w w') : ∃ t, w = '{' :: t := by
  generalize hv : Part.value (.object ms) = q at hr
  cases hr <;> first | exact ⟨_, rfl⟩ | cases hv

theorem Retold.balanced?_right (hr : Retold (.value (.object ms)) (.value (.object ms')) w w')
    (h : balanced? w = some (w, [])) : balanced? w' = some (w', []) := by
  obtain ⟨t, ht⟩ := object_head hr
  obtain ⟨t', ht'⟩ := object_head hr.symm
  have hbal : balanced? w = closeFrom '{' '}' .outside 0 w := by rw [ht]; rfl
  have hbal' : balanced? w' = closeFrom '{' '}' .outside 0 w' := by rw [ht']; rfl
  rw [hbal] at h
  cases hd : depthRun '{' '}' .outside 0 w with
  | some n =>
      rw [closeFrom_eq_none_iff.mpr ⟨n, hd⟩] at h
      cases h
  | none =>
      obtain ⟨l, r, l', r', hw, hw', hrr, hcut⟩ := hr.alike.closed hd
      obtain ⟨hl, hl'⟩ := hcut [] []
      rw [List.append_nil, h, List.append_nil] at hl
      rw [List.append_nil, List.append_nil] at hl'
      have hnil := hrr.mp (Prod.mk.inj (Option.some.inj hl)).2.symm
      rw [hbal', hl', hw', hnil, List.append_nil]

theorem depthRun_document (hr : Retold (.value (.object ms)) p w w')
    (h : balanced? w = some (w, [])) : depthRun '{' '}' .outside 1 w = some 1 := by
  obtain ⟨t, rfl⟩ := object_head hr
  have h : closeFrom '{' '}' .outside 0 ('{' :: t) = some ('{' :: t, []) := h
  have hopen : closes '{' '}' .outside 0 '{' = false := by decide
  rw [closeFrom_cons, hopen, if_neg (by decide)] at h
  obtain ⟨⟨l, r⟩, hl, he⟩ := Option.map_eq_some_iff.mp h
  obtain ⟨hlt, rfl⟩ := Prod.mk.inj he
  obtain rfl := (List.cons.inj hlt).2
  have hopen : closes '{' '}' .outside 1 '{' = false := by decide
  rw [depthRun, hopen, if_neg (by decide)]
  exact depthRun_of_closed (Nat.le_refl 1) hl

theorem balanced?_findDocument (hc : IsCollection c)
    (hr : Retold (.value (.object ms)) p w w') (h : balanced? w = some (w, [])) (t : Text) :
    balanced? (findDocument c w ++ t) = some (findDocument c w, t) := by
  let behind := ", filter: ".toList ++ (w ++ [' '])
  let inner := "\x7b find: ".toList ++ '"' :: (c ++ '"' :: behind)
  have hsplit : ∀ x y t : Text, x ++ '"' :: (c ++ '"' :: (y ++ (w ++ [' ', '}']))) ++ t =
      x ++ '"' :: (c ++ '"' :: (y ++ (w ++ [' ']))) ++ '}' :: t := by simp
  have hdoc : ∀ t, findDocument c w ++ t = inner ++ '}' :: t := hsplit _ _
  have hframe : depthRun '{' '}' .outside 0 "\x7b find: ".toList = some 1 ∧
      scanRun .outside "\x7b find: ".toList = .outside := ⟨rfl, rfl⟩
  have hkey : depthRun '{' '}' .outside 1 ", filter: ".toList = some 1 ∧
      scanRun .outside ", filter: ".toList = .outside := ⟨rfl, rfl⟩
  have hdepth : depthRun '{' '}' .outside 0 inner = some 1 := by
    rw [depthRun_append hframe.1, hframe.2, depthRun_content hc.content, depthRun_append hkey.1,
      hkey.2, depthRun_append (depthRun_document hr h), hr.alike.scanRun_eq.1]
    rfl
  have hscan : scanRun .outside inner = .outside := by
    rw [scanRun_append, hframe.2, scanRun_string hc.content, scanRun_append, hkey.2,
      scanRun_append, hr.alike.scanRun_eq.1]
    rfl
  have hclose := closeFrom_of_open hdepth ('}' :: t)
  rw [hscan, closeFrom_cons] at hclose
  rw [← List.append_nil (findDocument c w), hdoc, List.append_assoc]
  exact hclose

theorem leadingPayload_find (hc : IsCollection c)
    (hr : Retold (.value (.object ms)) p w w') (h : balanced? w = some (w, [])) (t : Text) :
    leadingPayload ("find ".toList ++ (findDocument c w ++ t)) = "find ".toList ++ findDocument c w := by
  have hcut := balanced?_findDocument hc hr h []
  rw [List.append_nil] at hcut
  exact leadingPayload_append (by decide) hcut t

theorem filter_findDocument (hc : IsCollection c)
    (hr : Retold (.value (.object ms)) p w w') (h : balanced? w = some (w, [])) :
    documentAfter? "filter: ".toList (findDocument c w) = some w := by
  have hpass := passes_documentAfter (marker "filter".toList)
  have hframe : ∀ t, Clear (marker "filter".toList) "\x7b find: ".toList t := by
    simp [marker, Clear]
  have hcomma : ∀ t, Clear (marker "filter".toList) ", ".toList t := by simp [marker, Clear]
  have hstring : ∀ p t, documentAfterFrom (marker "filter".toList) 0 p
      ('"' :: (c ++ ['"']) ++ t) = documentAfterFrom (marker "filter".toList) 0 (some '"') t := by
    intro p t
    rw [List.cons_append, List.append_assoc, hpass.cons (by decide) (by decide)]
    exact documentAfterFrom_pass (by decide) rfl (fun ho => hc.noFilter ho.first) t
  obtain ⟨t, ht⟩ := object_head hr
  have hbal : balanced? (w ++ [' ', '}']) = some (w, [' ', '}']) := by
    rw [ht] at h ⊢
    exact closeFrom_append h [' ', '}']
  have hdrop : dropBlank (w ++ [' ', '}']) = w ++ [' ', '}'] := by
    rw [ht]
    exact dropBlank_cons (by decide) _
  have hsplit : ∀ x y m : Text, x ++ '"' :: (c ++ '"' :: (y ++ m ++ (w ++ [' ', '}']))) =
      x ++ ('"' :: (c ++ ['"']) ++ (y ++ (m ++ (w ++ [' ', '}'])))) := by simp
  have hdoc : findDocument c w = "\x7b find: ".toList ++ ('"' :: (c ++ ['"']) ++ (", ".toList ++
      (marker "filter".toList ++ (w ++ [' ', '}'])))) := hsplit _ ", ".toList _
  have hlast : ∀ p, (lastOf p ", ".toList).any isNameChar = false := fun _ => rfl
  change documentAfterFrom (marker "filter".toList) 0 none (findDocument c w) = some w
  rw [hdoc, hpass.append (hframe _), hstring, hpass.append (hcomma _), documentAfter_found, hlast,
    if_neg (by decide), hdrop, hbal, Option.map_some, Option.some_or]

theorem findFilter?_findDocument (hc : IsCollection c) (hr : Retold (.value (.object ms)) p w w')
    (h : balanced? w = some (w, [])) :
    findFilter? (findDocument c w) =
      match (documentAfter? "sort: ".toList (findDocument c w)).map signature? with
      | none => some (w, [])
      | some none => none
      | some (some signature) => some (w, ", sort: ".toList ++ signature) := by
  rw [findFilter?, filter_findDocument hc hr h]
  cases documentAfter? "sort: ".toList (findDocument c w) with
  | none => rfl
  | some sort =>
      simp only [Option.map_some, signature?, Option.getD_some]
      cases sortSignature sort <;> rfl

def Query.shape? (q : Query) : Option (Text × Text) :=
  (canonicalize q.filter).toOption.map fun shape => (q.verb.name, shape ++ q.stages)

theorem endsWith_findDocument (c w : Text) : endsWith ['}'] (findDocument c w) = true := by
  have hsplit : ∀ x y : Text, x ++ '"' :: (c ++ '"' :: (y ++ (w ++ [' ', '}']))) =
      (x ++ '"' :: (c ++ '"' :: (y ++ (w ++ [' '])))) ++ ['}'] := by simp
  exact List.isSuffixOf_iff_suffix.mpr ⟨_, (hsplit _ _).symm⟩

theorem extract?_retold (hc : IsCollection c)
    (hr : Retold (.value (.object ms)) (.value (.object ms')) w w') (h : balanced? w = some (w, []))
    (ns rest scan : Text) :
    (Query.extract? "command".toList ns ("find ".toList ++ (findDocument c w ++ rest)) scan).bind
        Query.shape? =
      (Query.extract? "command".toList ns ("find ".toList ++ (findDocument c w' ++ rest)) scan).bind
        Query.shape? := by
  have h' := hr.balanced?_right h
  have hpayload := leadingPayload_find hc hr h rest
  have hpayload' := leadingPayload_find hc hr.symm h' rest
  rcases command_retold hc hr with ⟨hn, hn'⟩ | ⟨t, t', ht, ht', hlike, hlike'⟩
  · have hunwrap : ∀ w, after? "command: ".toList ("find ".toList ++ findDocument c w) = none →
        unwrapCommand? ("find ".toList ++ findDocument c w) =
          some (Verb.find.name, findDocument c w) := fun w h =>
      unwrapCommand?_eq_some (by rw [h]; rfl) Verb.find.name_chars rfl (endsWith_findDocument c w)
    rw [Query.extract?_command .find (by rw [hpayload]; exact hunwrap w hn),
      Query.extract?_command .find (by rw [hpayload']; exact hunwrap w' hn')]
    by_cases hx : isExcluded ns
    · rw [if_pos hx, if_pos hx]
    · rw [if_neg hx, if_neg hx]
      simp only [Query.of?, filterOf?, findFilter?_findDocument hc hr h,
        findFilter?_findDocument hc hr.symm h', sort_retold hc hr]
      cases (documentAfter? "sort: ".toList (findDocument c w')).map signature? with
      | none => exact congrArg (Option.map _) (canonicalize_retold hr)
      | some o =>
          cases o with
          | none => rfl
          | some signature => exact congrArg (Option.map _) (canonicalize_retold hr)
  · rw [Query.extract?_eq_none (by rw [hpayload]; exact unwrapCommand?_of_found ht hlike),
      Query.extract?_eq_none (by rw [hpayload']; exact unwrapCommand?_of_found ht' hlike')]

/-- What a record of a find command says, apart from its filter. -/
structure FindRecord where
  timestamp : Text
  severity : Text
  component : Text
  context : Text
  ns : Text
  collection : Text
  plan : Text
  digits : Text

namespace FindRecord

def body (r : FindRecord) (filter : Text) : Text :=
  "find ".toList ++ (findDocument r.collection filter ++ (" planSummary: ".toList ++ r.plan))

def parts (r : FindRecord) (filter : Text) : Parts where
  timestamp := r.timestamp
  severity := r.severity
  component := r.component
  context := r.context
  operation := "command".toList
  ns := r.ns
  tag := "command:".toList
  body := r.body filter
  digits := r.digits

def line (r : FindRecord) (filter : Text) : Text := (r.parts filter).text

structure WellFormed (r : FindRecord) : Prop where
  timestamp : Solid r.timestamp
  severity : Solid r.severity
  component : IsWordRun r.component
  context : r.context ≠ [] ∧ ∀ c ∈ r.context, isContextChar c = true
  ns : Solid r.ns
  digits : ∀ c ∈ r.digits, c.isDigit = true

variable {r : FindRecord}

theorem WellFormed.parts (h : r.WellFormed) (filter : Text) : (r.parts filter).WellFormed where
  timestamp := h.timestamp
  severity := h.severity
  component := h.component
  context := h.context
  operation := of_decide_eq_true rfl
  ns := h.ns
  tag := of_decide_eq_true rfl
  digits := h.digits

theorem WellFormed.read?_line (h : r.WellFormed) (filter : Text) :
    Line.read? (r.line filter) = (duration? r.digits).bind fun millis =>
      if '\n' ∈ r.body filter then none
      else some ⟨r.timestamp, r.component, "command".toList, r.ns, r.body filter, millis⟩ :=
  Parts.read?_text (h.parts filter)

theorem mem_newline_body (h : Retold p p' w w') : '\n' ∈ r.body w ↔ '\n' ∈ r.body w' := by
  have hmem : ∀ x y z u : Text,
      '\n' ∈ x ++ ((y ++ '"' :: (r.collection ++ '"' :: (z ++ (w ++ [' ', '}'])))) ++ u) ↔
        '\n' ∈ x ++ ((y ++ '"' :: (r.collection ++ '"' :: (z ++ (w' ++ [' ', '}'])))) ++ u) := by
    simp only [List.mem_append, List.mem_cons, h.alike.mem_newline_iff, implies_true]
  exact hmem _ _ _ _

end FindRecord

end SlowQuery.Record
