import SlowQuery.Advice
import SlowQuery.Proofs.Canonical
import SlowQuery.Proofs.Joining
import SlowQuery.Proofs.Members

namespace SlowQuery.Payload

open Text

variable {v : Value} {ms : List (Text × Value)}

/-- Objects and arrays of numbers, with names for keys. -/
inductive Numeric : Value → Prop
  | object {ms : List (Text × Value)} (hk : ∀ m ∈ ms, IsName m.1) (hv : ∀ m ∈ ms, Numeric m.2) :
      Numeric (.object ms)
  | array {vs : List Value} (hv : ∀ v ∈ vs, Numeric v) : Numeric (.array vs)
  | number {raw : Text} (h : Inert (.number raw)) : Numeric (.scalar (.number raw))

theorem Numeric.simple (h : Numeric v) : Simple v := by
  induction h with
  | object hk _ ih => exact .object hk ih
  | array _ ih => exact .array ih
  | number h => exact .scalar h

theorem inert_clean {s : Scalar} (h : Literal s) (hmarks : s.render.all (!marks.contains ·) = true)
    (hcolon : ':' ∉ s.render) : Inert s :=
  ⟨h, fun hp => keeps_clean hp (by simpa using hmarks), hcolon⟩

theorem inert_one : Inert (.number ['1']) := inert_number (by decide)

theorem inert_dots : Inert (.bare "...".toList) := inert_clean literal_dots rfl (by decide)

theorem inert_redacted : Inert Scalar.redacted.asRead :=
  inert_clean literal_redacted rfl (by decide)

theorem simple_elided : Simple Value.elided.asRead :=
  .array (List.forall_mem_singleton.mpr (.scalar inert_dots))

theorem simple_asRead_object (hk : ∀ m ∈ ms, IsName m.1) (hv : ∀ m ∈ ms, Simple m.2.asRead) :
    Simple (Value.object ms).asRead := by
  rw [Value.asRead, Value.membersAsRead_eq]
  refine .object (fun x hx => ?_) fun x hx => ?_
  · obtain ⟨m, hm, rfl⟩ := List.mem_map.mp hx
    exact hk m hm
  · obtain ⟨m, hm, rfl⟩ := List.mem_map.mp hx
    exact hv m hm

theorem Simple.parse_render (h : Simple v) : parse v.render = .ok v :=
  Payload.parse_render (.inl h.legible)

theorem balanced?_object (h : Simple (.object ms)) (t : Text) :
    balanced? ((Value.object ms).render ++ t) = some ((Value.object ms).render, t) := by
  rw [h.balanced?]
  exact if_pos rfl

theorem documentAfterFrom_object {p : Option Char} (hp : p.any isNameChar = false)
    (h : Simple (.object ms)) (k : Text) :
    documentAfterFrom (marker k) 0 p (marker k ++ (Value.object ms).render) =
      some (Value.object ms).render := by
  have hcut := balanced?_object h []
  obtain ⟨c, u, hu, hc⟩ := h.head
  rw [List.append_nil] at hcut
  refine documentAfterFrom_here hp (x := []) ?_
  rw [hu] at hcut ⊢
  rw [dropBlank_cons hc, hcut]

end SlowQuery.Payload

namespace SlowQuery.Shape

open Text Payload Record

variable {v : Value} {ms : List (Text × Value)}

theorem simple_normalizeUnder (hv : Numeric v) (h : Simple (normalizeValues v).asRead) (k : Text) :
    Simple (normalizeUnder k v).asRead := by
  rw [normalizeUnder]
  split
  · exact .scalar inert_redacted
  · split
    · cases hv with
      | array => exact simple_elided
      | object | number => exact h
    · exact h

theorem mem_normalized {m : Text × Value}
    (h : m ∈ (kept ms).map fun m => (m.1, normalizeUnder m.1 m.2)) :
    ∃ x ∈ ms, m = (x.1, normalizeUnder x.1 x.2) := by
  obtain ⟨x, hx, rfl⟩ := List.mem_map.mp h
  exact ⟨x, (List.mem_filter.mp hx).1, rfl⟩

theorem simple_normalizeValues (h : Numeric v) : Simple (normalizeValues v).asRead := by
  induction h with
  | number => exact .scalar inert_one
  | @array vs hv ih =>
      rw [normalizeValues_array, Value.asRead, Value.itemsAsRead_eq, List.map_map]
      refine .array fun x hx => ?_
      obtain ⟨v, hmem, rfl⟩ := List.mem_map.mp hx
      exact ih v hmem
  | @object ms hk hv ih =>
      rw [normalizeValues_object]
      refine simple_asRead_object (fun m hm => ?_) fun m hm => ?_
      · obtain ⟨x, hx, rfl⟩ := mem_normalized hm
        exact hk x hx
      · obtain ⟨x, hx, rfl⟩ := mem_normalized hm
        exact simple_normalizeUnder (hv x hx) (ih x hx) x.1

theorem simple_reorder (hk : ∀ m ∈ ms, IsName m.1) (hv : ∀ m ∈ ms, Simple m.2.asRead) :
    Simple (Value.object (reorder ms)).asRead := by
  have hmem : ∀ m ∈ reorder ms, m ∈ ms := fun m hm => mem_of_lookup (mem_reorder.mp hm).2
  exact simple_asRead_object (fun m hm => hk m (hmem m hm)) fun m hm => hv m (hmem m hm)

theorem inert_foldUnit {raw : Text} (h : Inert (.number raw)) : Inert (foldUnit (.number raw)) := by
  rw [foldUnit]
  split
  · exact inert_one
  · split
    · exact inert_number (by decide)
    · exact h

theorem simple_foldUnit (h : Numeric v) : Simple (v.mapScalars foldUnit) := by
  induction h with
  | number h => exact .scalar (inert_foldUnit h)
  | array _ ih =>
      rw [Value.mapScalars, mapItems_eq]
      refine .array fun x hx => ?_
      obtain ⟨v, hv, rfl⟩ := List.mem_map.mp hx
      exact ih v hv
  | object hk _ ih =>
      rw [Value.mapScalars, mapMembers_eq]
      refine .object (fun x hx => ?_) fun x hx => ?_
      · obtain ⟨m, hm, rfl⟩ := List.mem_map.mp hx
        exact hk m hm
      · obtain ⟨m, hm, rfl⟩ := List.mem_map.mp hx
        exact ih m hm

theorem stageText_render (h : Simple v) : stageText v.render = (v.mapScalars foldUnit).render := by
  rw [stageText, h.parse_render]

end SlowQuery.Shape

namespace SlowQuery.Advice

open Text Payload Record Shape

def names (ms : List (Text × Value)) : List Text := ms.map (·.1)

def fieldNames (ms : List (Text × Value)) : List Text := (names ms).filter (!startsWith ['$'] ·)

variable {v : Value} {ms fs gs ss : List (Text × Value)} {t : Text}

theorem fieldNames_map (f : Text × Value → Value) (ms : List (Text × Value)) :
    fieldNames (ms.map fun m => (m.1, f m)) = fieldNames ms := by
  rw [fieldNames, fieldNames, names, names, List.map_map]
  rfl

theorem fieldNames_of_named (h : ∀ m ∈ ms, namesField m.1 = true) : fieldNames ms = names ms := by
  rw [fieldNames, List.filter_eq_self]
  intro k hk
  obtain ⟨m, hm, rfl⟩ := List.mem_map.mp hk
  exact (Bool.and_eq_true_iff.mp (h m hm)).1

theorem trimBy_none {p : Char → Bool} (h : ∀ c ∈ t, p c = false) : trimBy p t = t := by
  have hkeep : ∀ u : Text, (∀ c ∈ u, p c = false) → u.dropWhile p = u := by
    intro u hu
    cases u with
    | nil => rfl
    | cons c u => rw [List.dropWhile_cons, hu c List.mem_cons_self, if_neg Bool.false_ne_true]
  rw [trimBy, trimEndBy, hkeep t h, hkeep t.reverse fun c hc => h c (List.mem_reverse.mp hc),
    List.reverse_reverse]

theorem topNames_object (h : Simple (.object ms)) : topNames (.object ms) = fieldNames ms := by
  have hnames : ∀ m ∈ ms, IsName m.1 := by
    cases h with
    | object hk => exact hk
  rw [topNames, fieldNames, names]
  conv_rhs => rw [← List.map_id ((ms.map (·.1)).filter _)]
  apply List.map_congr_left
  intro k hk
  obtain ⟨m, hm, rfl⟩ := List.mem_map.mp (List.mem_filter.mp hk).1
  refine trimBy_none fun c hc => ?_
  rw [Bool.eq_false_iff]
  intro hquote
  have hname := (hnames m hm).chars c hc
  simp only [isKeyQuote, Bool.or_eq_true, decide_eq_true_eq] at hquote
  rcases hquote with rfl | rfl <;> exact absurd hname (by decide)

theorem namesIn_render (h : Simple v) : namesIn v.render = topNames v := by
  rw [namesIn, h.parse_render]

def sortNames (rest : Text) : List Text :=
  ((documentAfter? "sort: ".toList rest).map namesIn).getD []

theorem fieldsOf_append (h : Simple (.object ms)) (rest : Text) :
    fieldsOf ((Value.object ms).render ++ rest) =
      (topNames (.object ms) ++ sortNames rest).eraseDups := by
  have hnames := namesIn_render h
  rw [fieldsOf, balanced?_object h]
  dsimp only
  rw [hnames, sortNames]
  cases documentAfter? "sort: ".toList rest <;> rfl

theorem sortNames_of_found {rest : Text} (h : Simple v)
    (hfound : documentAfter? (marker "sort".toList) rest = some v.render) :
    sortNames rest = topNames v := by
  have hnames := namesIn_render h
  rw [sortNames, show "sort: ".toList = marker "sort".toList from rfl, hfound]
  exact hnames

theorem sortNames_sort (h : Simple (.object ss)) :
    sortNames (", sort: ".toList ++ (Value.object ss).render) = topNames (.object ss) := by
  have hclear : Clear (marker "sort".toList) [',', ' ']
      (marker "sort".toList ++ (Value.object ss).render) := clear_of_not_mem (by decide)
  have hpass := (passes_documentAfter (marker "sort".toList)).append hclear none
  exact sortNames_of_found h (hpass.trans (documentAfterFrom_object rfl h _))

theorem documentAfter?_group (hg : Simple (.object gs)) (hs : Simple (.object ss)) :
    documentAfter? (marker "sort".toList) (", group: ".toList ++ (Value.object gs).render ++
        ", sort: ".toList ++ (Value.object ss).render) =
      some (((Value.object gs).first? "sort".toList).getD (.object ss)).render := by
  have hn : IsName "sort".toList := by decide
  let sort := marker "sort".toList ++ (Value.object ss).render
  have hclear : Clear (marker "sort".toList) ", group: ".toList
      ((Value.object gs).render ++ ',' :: ' ' :: sort) := clear_of_not_mem (by decide)
  have hpass := passes_documentAfter (marker "sort".toList)
  have hbehind : documentAfterFrom (marker "sort".toList) 0 (some ',') (' ' :: sort) =
      some (Value.object ss).render :=
    (hpass.cons hn (by decide) _ _).trans (documentAfterFrom_object (by decide) hs _)
  calc documentAfter? (marker "sort".toList) (", group: ".toList ++ (Value.object gs).render ++
        ", sort: ".toList ++ (Value.object ss).render)
      = documentAfterFrom (marker "sort".toList) 0 none
          (", group: ".toList ++ ((Value.object gs).render ++ ',' :: ' ' :: sort)) := by
        rw [documentAfter?, List.append_assoc, List.append_assoc]
        rfl
    _ = documentAfterFrom (marker "sort".toList) 0 (some ' ')
          ((Value.object gs).render ++ ',' :: ' ' :: sort) := hpass.append hclear none
    _ = (((Value.object gs).first? "sort".toList).map Value.render).or
          (some (Value.object ss).render) := by
        rw [documentAfterFrom_render hn hg (by decide) (by decide), hbehind]
    _ = some (((Value.object gs).first? "sort".toList).getD (.object ss)).render := by
        cases (Value.object gs).first? "sort".toList <;> rfl

theorem sortNames_group (hg : Simple (.object gs)) (hs : Simple (.object ss)) :
    sortNames (", group: ".toList ++ (Value.object gs).render ++ ", sort: ".toList ++
        (Value.object ss).render) =
      topNames (((Value.object gs).first? "sort".toList).getD (.object ss)) := by
  refine sortNames_of_found ?_ (documentAfter?_group hg hs)
  cases hfirst : (Value.object gs).first? "sort".toList with
  | none => exact hs
  | some v => exact hg.first? hfirst

theorem canonicalize_numeric (h : Numeric (.object fs)) :
    ∃ ms, canonicalize (Value.object fs).render = .ok (Value.object ms).render ∧
      Simple (.object ms) ∧ ∀ m ∈ ms, namesField m.1 = true := by
  let ns := (kept fs).map fun m => (m.1, normalizeUnder m.1 m.2)
  have hnormal : reorderFields (normalizeValues (.object fs)) = .object (reorder ns) := by
    rw [normalizeValues_object, reorderFields_object]
  have hread : (Value.object (reorder ns)).asRead =
      .object ((reorder ns).map fun m => (m.1, m.2.asRead)) := by
    rw [Value.asRead, Value.membersAsRead_eq]
  have hsimple : Simple (Value.object (reorder ns)).asRead := by
    cases h with
    | object hk hv =>
        refine simple_reorder (fun m hm => ?_) fun m hm => ?_
        · obtain ⟨x, hx, rfl⟩ := mem_normalized hm
          exact hk x hx
        · obtain ⟨x, hx, rfl⟩ := mem_normalized hm
          exact simple_normalizeUnder (hv x hx) (simple_normalizeValues (hv x hx)) x.1
  refine ⟨(reorder ns).map fun m => (m.1, m.2.asRead), ?_, hread ▸ hsimple, fun m hm => ?_⟩
  · refine canonicalize_eq_ok.mpr ⟨.object fs, h.simple.parse_render, ?_⟩
    rw [hnormal, ← Value.render_asRead, hread]
  · obtain ⟨x, hx, rfl⟩ := List.mem_map.mp hm
    exact (mem_reorder.mp hx).1

theorem sortSignature_numeric (h : Numeric (.object ss)) :
    ∃ ms, sortSignature (Value.object ss).render = .ok (Value.object ms).render ∧
      Simple (.object ms) ∧ fieldNames ms = fieldNames (kept ss) := by
  let ns := (kept ss).map fun m => (m.1, normalizeUnder m.1 m.2)
  have hread : (normalizeValues (.object ss)).asRead =
      .object (ns.map fun m => (m.1, m.2.asRead)) := by
    rw [normalizeValues_object, Value.asRead, Value.membersAsRead_eq]
  have hsimple := simple_normalizeValues h
  refine ⟨ns.map fun m => (m.1, m.2.asRead), ?_, hread ▸ hsimple, ?_⟩
  · refine sortSignature_eq_ok.mpr ⟨.object ss, h.simple.parse_render, ?_⟩
    rw [← hread, Value.render_asRead]
  · rw [fieldNames_map, fieldNames_map]

theorem stageText_numeric (h : Numeric (.object ss)) :
    ∃ ms, stageText (Value.object ss).render = (Value.object ms).render ∧ Simple (.object ms) ∧
      fieldNames ms = fieldNames ss ∧
      (Value.object ms).first? "sort".toList =
        ((Value.object ss).first? "sort".toList).map (Value.mapScalars foldUnit) := by
  have hfold : (Value.object ss).mapScalars foldUnit =
      .object (ss.map fun m => (m.1, m.2.mapScalars foldUnit)) := by
    rw [Value.mapScalars, mapMembers_eq]
  refine ⟨ss.map fun m => (m.1, m.2.mapScalars foldUnit), ?_, ?_, ?_, ?_⟩
  · rw [stageText_render h.simple, hfold]
  · exact hfold ▸ simple_foldUnit h
  · exact fieldNames_map _ ss
  · rw [← hfold, Value.first?_mapScalars]

/-- Found in the text of a shape are the fields of its filter, then those of its sort. A grouping
in between adds none if it holds no document under the name by which the sort is looked for. -/
theorem fieldsOf_shape (hf : Numeric (.object fs)) (hg : Numeric (.object gs))
    (hs : Numeric (.object ss)) :
    ∃ shape ms signature,
      canonicalize (Value.object fs).render = .ok shape ∧ parse shape = .ok (.object ms) ∧
      sortSignature (Value.object ss).render = .ok signature ∧
      fieldsOf shape = (names ms).eraseDups ∧
      fieldsOf (shape ++ ", sort: ".toList ++ signature) =
        (names ms ++ fieldNames (kept ss)).eraseDups ∧
      ((Value.object gs).first? "sort".toList = none →
        fieldsOf (shape ++ ", group: ".toList ++ stageText (Value.object gs).render ++
            ", sort: ".toList ++ stageText (Value.object ss).render) =
          (names ms ++ fieldNames ss).eraseDups) := by
  obtain ⟨ms, hshape, hms, hnamed⟩ := canonicalize_numeric hf
  obtain ⟨sorted, hsignature, hsorted, hsort⟩ := sortSignature_numeric hs
  have hnames : topNames (.object ms) = names ms :=
    (topNames_object hms).trans (fieldNames_of_named hnamed)
  refine ⟨(Value.object ms).render, ms, (Value.object sorted).render, hshape, hms.parse_render,
    hsignature, ?_, ?_, fun hnone => ?_⟩
  · have hfields := fieldsOf_append hms []
    rw [List.append_nil, hnames] at hfields
    exact hfields.trans (congrArg List.eraseDups (List.append_nil _))
  · rw [List.append_assoc, fieldsOf_append hms, sortNames_sort hsorted, hnames,
      topNames_object hsorted, hsort]
  · obtain ⟨grouped, hgroup, hgrouped, -, hfirst⟩ := stageText_numeric hg
    obtain ⟨staged, hstage, hstaged, hfields, -⟩ := stageText_numeric hs
    have hbehind := sortNames_group hgrouped hstaged
    rw [hfirst, hnone, Option.map_none, Option.getD_none, topNames_object hstaged,
      hfields] at hbehind
    simp only [List.append_assoc] at hbehind ⊢
    rw [hgroup, hstage, fieldsOf_append hms, hbehind, hnames]

theorem fieldsOf_shape_resort :
    let one := Value.scalar (.number ['1'])
    let fs := [("b".toList, one), ("$expr".toList, one), ("a".toList, one)]
    let gs := [("_id".toList, one), ("resort".toList, .object [("x".toList, one)])]
    let ss := [("c".toList, one), ("a".toList, one)]
    Numeric (.object fs) ∧ Numeric (.object gs) ∧ Numeric (.object ss) ∧
      (Value.object gs).first? "sort".toList = none ∧
      ∃ shape ms, canonicalize (Value.object fs).render = .ok shape ∧
        parse shape = .ok (.object ms) ∧
        fieldsOf (shape ++ ", group: ".toList ++ stageText (Value.object gs).render ++
            ", sort: ".toList ++ stageText (Value.object ss).render) =
          (names ms ++ ["c".toList, "a".toList]).eraseDups := by
  intro one fs gs ss
  have hone : Numeric one := .number inert_one
  have hf : Numeric (.object fs) := .object (by decide) (by simp [fs, hone])
  have hg : Numeric (.object gs) := by
    refine .object (by decide) (List.forall_mem_cons.mpr ⟨hone, List.forall_mem_singleton.mpr ?_⟩)
    exact .object (by decide) (by simp [hone])
  have hs : Numeric (.object ss) := .object (by decide) (by simp [ss, hone])
  have hnone : (Value.object gs).first? "sort".toList = none := rfl
  obtain ⟨shape, ms, -, hshape, hms, -, -, -, hfields⟩ := fieldsOf_shape hf hg hs
  exact ⟨hf, hg, hs, hnone, shape, ms, hshape, hms, hfields hnone⟩

/-- A name for routing is not kept in the shape of a sort, and a grouping by the name `sort` hides
the sort behind it. -/
theorem names_of_sort_lost :
    let one := Value.scalar (.number ['1'])
    let fs := [("a".toList, one)]
    let gs := [("sort".toList, Value.object [("x".toList, one)])]
    let ss := [("shardVersion".toList, one), ("b".toList, one)]
    let shape := (Value.object fs).render
    let signature := (Value.object [("b".toList, one)]).render
    Numeric (.object fs) ∧ Numeric (.object gs) ∧ Numeric (.object ss) ∧
      canonicalize (Value.object fs).render = .ok shape ∧ parse shape = .ok (.object fs) ∧
      sortSignature (Value.object ss).render = .ok signature ∧
      (names fs ++ fieldNames ss).eraseDups =
        ["a".toList, "shardVersion".toList, "b".toList] ∧
      fieldsOf (shape ++ ", sort: ".toList ++ signature) = ["a".toList, "b".toList] ∧
      fieldsOf (shape ++ ", group: ".toList ++ stageText (Value.object gs).render ++
          ", sort: ".toList ++ stageText (Value.object ss).render) =
        ["a".toList, "x".toList] := by
  intro one fs gs ss shape signature
  have hone : Numeric one := .number inert_one
  have hf : Numeric (.object fs) := .object (by decide) (by simp [fs, hone])
  have hg : Numeric (.object gs) :=
    .object (by decide) (List.forall_mem_singleton.mpr (.object (by decide) (by simp [hone])))
  have hs : Numeric (.object ss) := .object (by decide) (by simp [ss, hone])
  have hb : Simple (.object [("b".toList, one)]) := .cons (by decide) hone.simple .nil
  refine ⟨hf, hg, hs, ?_, hf.simple.parse_render, ?_, rfl, ?_, ?_⟩
  · refine canonicalize_eq_ok.mpr ⟨.object fs, hf.simple.parse_render, ?_⟩
    have hsorted : reorder [("a".toList, .scalar .placeholder)] =
        [("a".toList, .scalar .placeholder)] := List.mergeSort_singleton _
    have hnormal : normalizeValues (.object fs) = .object [("a".toList, .scalar .placeholder)] :=
      rfl
    rw [hnormal, reorderFields_object, hsorted]
    rfl
  · exact sortSignature_eq_ok.mpr ⟨.object ss, hs.simple.parse_render, rfl⟩
  · rw [List.append_assoc, fieldsOf_append hf.simple, sortNames_sort hb]
    rfl
  · have hgroup := sortNames_group (simple_foldUnit hg) (simple_foldUnit hs)
    simp only [List.append_assoc] at hgroup ⊢
    rw [stageText_render hg.simple, stageText_render hs.simple, fieldsOf_append hf.simple]
    exact congrArg (fun found => (["a".toList] ++ found).eraseDups) hgroup

end SlowQuery.Advice
