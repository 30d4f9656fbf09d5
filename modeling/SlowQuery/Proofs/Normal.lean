import SlowQuery.Proofs.Rendering
import SlowQuery.Shape.Passes

namespace SlowQuery.Shape

open Text Payload

def normalizeScalar (s : Scalar) : Scalar := placeholdHandle (placeholdLiteral (redactScalar s))

def normalizeUnder (k : Text) (v : Value) : Value :=
  if isRegexKey k then .scalar .redacted
  else if isEnumerationKey k then (elideOperand? v).getD (normalizeValues v)
  else normalizeValues v

def kept (ms : List (Text × Value)) : List (Text × Value) := ms.filter fun m => !isRoutingKey m.1

theorem truncateMembers_eq (ms : List (Text × Value)) :
    truncateMembers ms = ms.map fun m =>
      (m.1, (if isEnumerationKey m.1 then elideOperand? m.2 else none).getD
        (truncateEnumerations m.2)) := by
  induction ms with
  | nil => rfl
  | cons m ms ih => rw [truncateMembers, ih, List.map_cons]

theorem truncateItems_eq (vs : List Value) : truncateItems vs = vs.map truncateEnumerations := by
  induction vs with
  | nil => rfl
  | cons v vs ih => rw [truncateItems, ih, List.map_cons]

theorem redactMembers_eq (ms : List (Text × Value)) :
    redactMembers ms = ms.map fun m =>
      (m.1, if isRegexKey m.1 then .scalar .redacted else redactRegexes m.2) := by
  induction ms with
  | nil => rfl
  | cons m ms ih => rw [redactMembers, ih, List.map_cons]

theorem redactItems_eq (vs : List Value) : redactItems vs = vs.map redactRegexes := by
  induction vs with
  | nil => rfl
  | cons v vs ih => rw [redactItems, ih, List.map_cons]

theorem mapMembers_eq (f : Scalar → Scalar) (ms : List (Text × Value)) :
    Value.mapMembers f ms = ms.map fun m => (m.1, m.2.mapScalars f) := by
  induction ms with
  | nil => rfl
  | cons m ms ih => rw [Value.mapMembers, ih, List.map_cons]

theorem mapItems_eq (f : Scalar → Scalar) (vs : List Value) :
    Value.mapItems f vs = vs.map (Value.mapScalars f) := by
  induction vs with
  | nil => rfl
  | cons v vs ih => rw [Value.mapItems, ih, List.map_cons]

theorem stripMembers_eq (ms : List (Text × Value)) :
    stripMembers ms = (kept ms).map fun m => (m.1, stripRouting m.2) := by
  induction ms with
  | nil => rfl
  | cons m ms ih =>
      cases hk : isRoutingKey m.1 <;> simp [stripMembers, kept, hk, ih]

theorem stripItems_eq (vs : List Value) : stripItems vs = vs.map stripRouting := by
  induction vs with
  | nil => rfl
  | cons v vs ih => rw [stripItems, ih, List.map_cons]

theorem kept_map {f : Text × Value → Text × Value} (hf : ∀ m, (f m).1 = m.1)
    (ms : List (Text × Value)) : kept (ms.map f) = (kept ms).map f := by
  rw [kept, kept, List.filter_map]
  simp only [Function.comp_def, hf]

@[simp] theorem normalizeValues_scalar (s : Scalar) :
    normalizeValues (.scalar s) = .scalar (normalizeScalar s) := rfl

@[simp] theorem normalizeValues_array (vs : List Value) :
    normalizeValues (.array vs) = .array (vs.map normalizeValues) := by
  simp only [normalizeValues, replaceHandles, replaceLiterals, truncateEnumerations, redactRegexes,
    stripRouting, Value.mapScalars, truncateItems_eq, redactItems_eq, mapItems_eq, stripItems_eq,
    List.map_map, Value.array.injEq]
  rfl

@[simp] theorem normalizeValues_object (ms : List (Text × Value)) :
    normalizeValues (.object ms) =
      .object ((kept ms).map fun m => (m.1, normalizeUnder m.1 m.2)) := by
  simp only [normalizeValues, replaceHandles, replaceLiterals, truncateEnumerations, redactRegexes,
    stripRouting, Value.mapScalars, truncateMembers_eq, redactMembers_eq, mapMembers_eq,
    stripMembers_eq, List.map_map, Value.object.injEq]
  rw [kept_map, List.map_map]
  · apply List.map_congr_left
    intro m _
    simp only [Function.comp_apply, Prod.mk.injEq, true_and, normalizeUnder, normalizeValues]
    split
    · rfl
    · split
      next => cases m.2 <;> rfl
      next => rfl
  · intro m
    rfl

theorem normalizeScalar_ofWord (w : Text) :
    normalizeScalar (.ofWord w) = .placeholder ∨ normalizeScalar (.ofWord w) = .ofWord w := by
  rcases ofWord_cases w with ⟨b, -, h⟩ | h | h | h | h <;> rw [h]
  · exact .inl rfl
  · exact .inl rfl
  · exact .inl rfl
  · exact .inl rfl
  · exact .inr rfl

/-- Read from its own text and normalized again, the value comes back. -/
structure Normal (v : Value) : Prop where
  legible : Legible v.asRead
  fixed : normalizeValues v.asRead = v

structure NormalUnder (k : Text) (v : Value) : Prop where
  legible : Legible v.asRead
  fixed : normalizeUnder k v.asRead = v

theorem normal_placeholder : Normal (.scalar .placeholder) := ⟨.scalar literal_one, rfl⟩

theorem Normal.array {vs : List Value} (h : ∀ v ∈ vs, Normal v) : Normal (.array vs) := by
  constructor
  · rw [Value.asRead, Value.itemsAsRead_eq]
    refine .array fun x hx => ?_
    obtain ⟨v, hv, rfl⟩ := List.mem_map.mp hx
    exact (h v hv).legible
  · rw [Value.asRead, Value.itemsAsRead_eq, normalizeValues_array, List.map_map]
    have hmap : vs.map (normalizeValues ∘ Value.asRead) = vs.map id :=
      List.map_congr_left fun v hv => (h v hv).fixed
    rw [hmap, List.map_id]

structure NormalMember (m : Text × Value) : Prop where
  key : KeyText m.1 m.1
  kept : isRoutingKey m.1 = false
  value : NormalUnder m.1 m.2

theorem kept_eq_self {ms : List (Text × Value)} (h : ∀ m ∈ ms, isRoutingKey m.1 = false) :
    kept ms = ms := by
  apply List.filter_eq_self.mpr
  intro m hm
  simp [h m hm]

theorem Normal.object {ms : List (Text × Value)} (h : ∀ m ∈ ms, NormalMember m) :
    Normal (.object ms) := by
  constructor
  · rw [Value.asRead, Value.membersAsRead_eq]
    refine .object ?_ ?_
    · intro x hx
      obtain ⟨m, hm, rfl⟩ := List.mem_map.mp hx
      exact (h m hm).key
    · intro x hx
      obtain ⟨m, hm, rfl⟩ := List.mem_map.mp hx
      exact (h m hm).value.legible
  · rw [Value.asRead, Value.membersAsRead_eq, normalizeValues_object, kept_map (by simp),
      kept_eq_self fun m hm => (h m hm).kept, List.map_map]
    have hmap : ms.map ((fun m => (m.1, normalizeUnder m.1 m.2)) ∘ fun m => (m.1, m.2.asRead)) =
        ms.map id :=
      List.map_congr_left fun m hm => Prod.ext rfl (h m hm).value.fixed
    rw [hmap, List.map_id]

theorem normalUnder_normalizeUnder {v : Value} (hv : Legible v) (h : Normal (normalizeValues v))
    (k : Text) : NormalUnder k (normalizeUnder k v) := by
  cases hr : isRegexKey k with
  | true =>
      rw [normalizeUnder, if_pos hr]
      exact ⟨.scalar literal_redacted, by rw [normalizeUnder, if_pos hr]⟩
  | false =>
      cases he : isEnumerationKey k with
      | false =>
          simp only [normalizeUnder, hr, he, Bool.false_eq_true, if_false]
          exact ⟨h.legible, by simpa [normalizeUnder, hr, he] using h.fixed⟩
      | true =>
          rw [normalizeUnder, if_neg (Bool.eq_false_iff.mp hr), if_pos he]
          cases hv with
          | array hv =>
              refine ⟨.array fun x hx => ?_, ?_⟩
              · rw [List.mem_singleton.mp hx]
                exact .scalar literal_dots
              · rw [normalizeUnder, if_neg (Bool.eq_false_iff.mp hr), if_pos he]
                rfl
          | object | scalar =>
              refine ⟨h.legible, ?_⟩
              rw [normalizeUnder, if_neg (Bool.eq_false_iff.mp hr), if_pos he]
              exact h.fixed

theorem normalMember_of_kept {ms : List (Text × Value)}
    (h : ∀ m ∈ ms, KeyText m.1 m.1 ∧ NormalUnder m.1 (normalizeUnder m.1 m.2)) :
    ∀ m ∈ (kept ms).map fun m => (m.1, normalizeUnder m.1 m.2), NormalMember m := by
  intro x hx
  obtain ⟨m, hmem, rfl⟩ := List.mem_map.mp hx
  obtain ⟨hm, hroute⟩ := List.mem_filter.mp hmem
  exact ⟨(h m hm).1, by simpa using hroute, (h m hm).2⟩

theorem normal_normalizeValues {v : Value} (hv : Legible v) : Normal (normalizeValues v) := by
  induction hv with
  | scalar h =>
      cases h with
      | str => exact normal_placeholder
      | regex hp hf => exact ⟨.scalar (.regex (by decide) hf), rfl⟩
      | @word w h =>
          rw [normalizeValues_scalar]
          rcases normalizeScalar_ofWord w with hw | hw
          · rw [hw]
            exact normal_placeholder
          · rw [hw]
            constructor
            · rw [Value.asRead, asRead_ofWord]
              exact .scalar (.word h)
            · rw [Value.asRead, asRead_ofWord, normalizeValues_scalar, hw]
  | @array vs hv ih =>
      rw [normalizeValues_array]
      refine .array fun x hx => ?_
      obtain ⟨v, hmem, rfl⟩ := List.mem_map.mp hx
      exact ih v hmem
  | @object ms hk hv ih =>
      rw [normalizeValues_object]
      exact .object (normalMember_of_kept fun m hm =>
        ⟨hk m hm, normalUnder_normalizeUnder (hv m hm) (ih m hm) m.1⟩)

theorem normalMember_of_legible {ms : List (Text × Value)} (hv : Legible (.object ms)) :
    ∀ m ∈ (kept ms).map fun m => (m.1, normalizeUnder m.1 m.2), NormalMember m := by
  cases hv with
  | object hk hv =>
      exact normalMember_of_kept fun m hm => ⟨hk m hm,
        normalUnder_normalizeUnder (hv m hm) (normal_normalizeValues (hv m hm)) m.1⟩

theorem Normal.read {v : Value} (h : Normal v) : parse v.render = .ok v.asRead := by
  rw [← Value.render_asRead v]
  exact parse_render (.inl h.legible)

/-- The text of a normalized value is read, and normalizing what was read changes nothing. -/
theorem read_normalizeValues {v : Value} (hv : Readable v) :
    parse (normalizeValues v).render = .ok (normalizeValues v).asRead ∧
      normalizeValues (normalizeValues v).asRead = normalizeValues v := by
  rcases hv with hv | ⟨d, w, hw, rfl⟩
  · have h := normal_normalizeValues hv
    exact ⟨h.read, h.fixed⟩
  · rw [normalizeValues_scalar]
    rcases normalizeScalar_ofWord w with hs | hs
    · rw [hs]
      exact ⟨normal_placeholder.read, normal_placeholder.fixed⟩
    · rw [hs, Value.asRead, asRead_ofWord]
      exact ⟨parse_render (.inr ⟨d, w, hw, rfl⟩), by rw [normalizeValues_scalar, hs]⟩

end SlowQuery.Shape
