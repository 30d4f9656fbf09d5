import SlowQuery.Proofs.Canonical

namespace SlowQuery.Shape

open Text Payload

def isLiteral : Scalar → Bool
  | .str _ | .number _ | .bool _ | .date _ | .handle _ => true
  | _ => false

mutual

inductive Similar : Value → Value → Prop
  | literal {a b : Scalar} (ha : isLiteral a = true) (hb : isLiteral b = true) :
      Similar (.scalar a) (.scalar b)
  | regex (p q flags : Text) : Similar (.scalar (.regex p flags)) (.scalar (.regex q flags))
  | bare (w : Text) : Similar (.scalar (.bare w)) (.scalar (.bare w))
  | array {vs ws : List Value} (h : SimilarItems vs ws) : Similar (.array vs) (.array ws)
  | object {ms ns : List (Text × Value)} (h : SimilarMembers (kept ms) (kept ns)) :
      Similar (.object ms) (.object ns)

inductive SimilarItems : List Value → List Value → Prop
  | nil : SimilarItems [] []
  | cons {v w : Value} {vs ws : List Value} (h : Similar v w) (hs : SimilarItems vs ws) :
      SimilarItems (v :: vs) (w :: ws)

inductive SimilarMembers : List (Text × Value) → List (Text × Value) → Prop
  | nil : SimilarMembers [] []
  | cons {k : Text} {v w : Value} {ms ns : List (Text × Value)} (h : SimilarUnder k v w)
      (hs : SimilarMembers ms ns) : SimilarMembers ((k, v) :: ms) ((k, w) :: ns)

/-- Similarity of two operands of the same key. -/
inductive SimilarUnder : Text → Value → Value → Prop
  | pattern {k : Text} (hk : isRegexKey k = true) (v w : Value) : SimilarUnder k v w
  | enumeration {k : Text} (hk : isEnumerationKey k = true) (vs ws : List Value) :
      SimilarUnder k (.array vs) (.array ws)
  | value {k : Text} {v w : Value} (h : Similar v w) : SimilarUnder k v w

end

/-- No leaf stands for a forgotten detail, as in all that is read. -/
inductive Concrete : Value → Prop
  | object {ms : List (Text × Value)} (h : ∀ m ∈ ms, Concrete m.2) : Concrete (.object ms)
  | array {vs : List Value} (h : ∀ v ∈ vs, Concrete v) : Concrete (.array vs)
  | scalar {s : Scalar} (hr : s ≠ .redacted) (hp : s ≠ .placeholder) : Concrete (.scalar s)

theorem concrete_ofWord (w : Text) : Concrete (.scalar (.ofWord w)) := by
  rcases ofWord_cases w with ⟨b, -, h⟩ | h | h | h | h <;> rw [h] <;> exact .scalar nofun nofun

theorem concrete_of_legible {v : Value} (h : Legible v) : Concrete v := by
  induction h with
  | object _ _ ih => exact .object ih
  | array _ ih => exact .array ih
  | scalar h =>
      cases h with
      | str | regex => exact .scalar nofun nofun
      | word => exact concrete_ofWord _

theorem concrete_of_readable {v : Value} (h : Readable v) : Concrete v := by
  rcases h with h | ⟨d, w, -, rfl⟩
  · exact concrete_of_legible h
  · exact concrete_ofWord w

theorem normalizeScalar_literal {s : Scalar} (h : isLiteral s = true) :
    normalizeScalar s = .placeholder := by
  cases s with
  | str | number | bool | date | handle => rfl
  | regex | redacted | bare | placeholder => cases h

theorem Concrete.scalar_cases {s : Scalar} (hs : Concrete (.scalar s)) :
    isLiteral s = true ∨ (∃ p flags, s = .regex p flags) ∨ ∃ w, s = .bare w := by
  cases hs with
  | scalar hr hp =>
      cases s with
      | str | number | bool | date | handle => exact .inl rfl
      | regex p flags => exact .inr (.inl ⟨p, flags, rfl⟩)
      | bare w => exact .inr (.inr ⟨w, rfl⟩)
      | redacted => exact absurd rfl hr
      | placeholder => exact absurd rfl hp

theorem similar_scalar_iff {a b : Scalar} (ha : Concrete (.scalar a)) (hb : Concrete (.scalar b)) :
    normalizeScalar a = normalizeScalar b ↔ Similar (.scalar a) (.scalar b) := by
  constructor
  · intro h
    rcases ha.scalar_cases with hla | ⟨p, flags, rfl⟩ | ⟨w, rfl⟩ <;>
      rcases hb.scalar_cases with hlb | ⟨q, flags', rfl⟩ | ⟨w', rfl⟩
    · exact .literal hla hlb
    · rw [normalizeScalar_literal hla] at h
      cases h
    · rw [normalizeScalar_literal hla] at h
      cases h
    · rw [normalizeScalar_literal hlb] at h
      cases h
    · cases h
      exact .regex p q flags
    · cases h
    · rw [normalizeScalar_literal hlb] at h
      cases h
    · cases h
    · cases h
      exact .bare w
  · intro h
    cases h with
    | literal ha hb => rw [normalizeScalar_literal ha, normalizeScalar_literal hb]
    | regex => rfl
    | bare => rfl

theorem normalizeUnder_pattern {k : Text} (hk : isRegexKey k = true) (v : Value) :
    normalizeUnder k v = .scalar .redacted := by
  rw [normalizeUnder, if_pos hk]

theorem normalizeUnder_array {k : Text} (hr : isRegexKey k = false) (he : isEnumerationKey k = true)
    (vs : List Value) : normalizeUnder k (.array vs) = .elided := by
  rw [normalizeUnder, hr, he]
  rfl

theorem normalizeUnder_value {k : Text} {v : Value} (hr : isRegexKey k = false)
    (h : isEnumerationKey k = true → elideOperand? v = none) :
    normalizeUnder k v = normalizeValues v := by
  rw [normalizeUnder, hr]
  cases he : isEnumerationKey k with
  | false => rfl
  | true => rw [h he]; rfl

theorem similarUnder_value_iff {k : Text} {v w : Value} (hr : isRegexKey k = false)
    (h : isEnumerationKey k = true → elideOperand? v = none ∨ elideOperand? w = none) :
    SimilarUnder k v w ↔ Similar v w := by
  refine ⟨fun hs => ?_, .value⟩
  cases hs with
  | value h => exact h
  | pattern hk =>
      rw [hr] at hk
      cases hk
  | enumeration hk => rcases h hk with h | h <;> cases h

theorem similarUnder_iff {v w : Value} (hv : Concrete v) (hw : Concrete w)
    (h : normalizeValues v = normalizeValues w ↔ Similar v w) (k : Text) :
    normalizeUnder k v = normalizeUnder k w ↔ SimilarUnder k v w := by
  cases hr : isRegexKey k with
  | true =>
      simp only [normalizeUnder_pattern hr, true_iff]
      exact .pattern hr v w
  | false =>
      cases he : isEnumerationKey k with
      | false =>
          have hk {b : Prop} : isEnumerationKey k = true → b := by simp [he]
          rw [similarUnder_value_iff hr hk, normalizeUnder_value hr hk, normalizeUnder_value hr hk, h]
      | true =>
          cases hv with
          | array =>
              cases hw with
              | array =>
                  simp only [normalizeUnder_array hr he, true_iff]
                  exact .enumeration he _ _
              | object | scalar =>
                  rw [similarUnder_value_iff hr fun _ => .inr rfl, ← h, normalizeUnder_array hr he,
                    normalizeUnder_value hr fun _ => rfl]
                  simp
          | object | scalar =>
              cases hw with
              | array =>
                  rw [similarUnder_value_iff hr fun _ => .inl rfl, ← h, normalizeUnder_array hr he,
                    normalizeUnder_value hr fun _ => rfl]
                  simp
              | object | scalar =>
                  rw [similarUnder_value_iff hr fun _ => .inl rfl, normalizeUnder_value hr fun _ => rfl,
                    normalizeUnder_value hr fun _ => rfl, h]

theorem similarItems_iff {vs ws : List Value}
    (h : ∀ v ∈ vs, ∀ w ∈ ws, normalizeValues v = normalizeValues w ↔ Similar v w) :
    vs.map normalizeValues = ws.map normalizeValues ↔ SimilarItems vs ws := by
  induction vs generalizing ws with
  | nil =>
      cases ws with
      | nil => exact ⟨fun _ => .nil, fun _ => rfl⟩
      | cons w ws => exact ⟨nofun, nofun⟩
  | cons v vs ih =>
      cases ws with
      | nil => exact ⟨nofun, nofun⟩
      | cons w ws =>
          have hhead := h v List.mem_cons_self w List.mem_cons_self
          have htail : _ ↔ SimilarItems vs ws := ih fun x hx y hy =>
            h x (List.mem_cons_of_mem v hx) y (List.mem_cons_of_mem w hy)
          rw [List.map_cons, List.map_cons, List.cons.injEq, hhead, htail]
          refine ⟨fun ⟨h, hs⟩ => .cons h hs, fun hs => ?_⟩
          cases hs with
          | cons h hs => exact ⟨h, hs⟩

theorem similarMembers_iff {ms ns : List (Text × Value)}
    (h : ∀ m ∈ ms, ∀ n ∈ ns, normalizeUnder m.1 m.2 = normalizeUnder m.1 n.2 ↔
      SimilarUnder m.1 m.2 n.2) :
    (ms.map fun m => (m.1, normalizeUnder m.1 m.2)) =
      (ns.map fun n => (n.1, normalizeUnder n.1 n.2)) ↔ SimilarMembers ms ns := by
  induction ms generalizing ns with
  | nil =>
      cases ns with
      | nil => exact ⟨fun _ => .nil, fun _ => rfl⟩
      | cons n ns => exact ⟨nofun, nofun⟩
  | cons m ms ih =>
      cases ns with
      | nil => exact ⟨nofun, nofun⟩
      | cons n ns =>
          obtain ⟨k, v⟩ := m
          obtain ⟨l, w⟩ := n
          have hhead := h _ List.mem_cons_self _ List.mem_cons_self
          have htail : _ ↔ SimilarMembers ms ns := ih fun x hx y hy =>
            h x (List.mem_cons_of_mem _ hx) y (List.mem_cons_of_mem _ hy)
          rw [List.map_cons, List.map_cons, List.cons.injEq, htail, Prod.mk.injEq]
          constructor
          · rintro ⟨⟨rfl, h⟩, hs⟩
            exact .cons (hhead.mp h) hs
          · intro hs
            cases hs with
            | cons h hs => exact ⟨⟨rfl, hhead.mpr h⟩, hs⟩

theorem normalizeValues_eq_iff {v w : Value} (hv : Concrete v) (hw : Concrete w) :
    normalizeValues v = normalizeValues w ↔ Similar v w := by
  induction hv generalizing w with
  | @scalar s hr hp =>
      cases hw with
      | scalar hr' hp' =>
          rw [normalizeValues_scalar, normalizeValues_scalar, Value.scalar.injEq]
          exact similar_scalar_iff (.scalar hr hp) (.scalar hr' hp')
      | object | array =>
          refine ⟨?_, nofun⟩
          simp
  | @array vs hv ih =>
      cases hw with
      | @array ws hw =>
          rw [normalizeValues_array, normalizeValues_array, Value.array.injEq,
            similarItems_iff fun v hm w hn => ih v hm (hw w hn)]
          refine ⟨.array, fun h => ?_⟩
          cases h with
          | array h => exact h
      | object | scalar =>
          refine ⟨?_, nofun⟩
          simp
  | @object ms hv ih =>
      cases hw with
      | @object ns hw =>
          rw [normalizeValues_object, normalizeValues_object, Value.object.injEq]
          have hk : ∀ m ∈ kept ms, ∀ n ∈ kept ns, normalizeUnder m.1 m.2 = normalizeUnder m.1 n.2 ↔
              SimilarUnder m.1 m.2 n.2 := by
            intro m hm n hn
            have hm := List.mem_of_mem_filter hm
            have hn := List.mem_of_mem_filter hn
            exact similarUnder_iff (hv m hm) (hw n hn) (ih m hm (hw n hn)) m.1
          rw [similarMembers_iff hk]
          refine ⟨.object, fun h => ?_⟩
          cases h with
          | object h => exact h
      | array | scalar =>
          refine ⟨?_, nofun⟩
          simp

/-- The named fields of the top level, of which the first of each name counts, agree. -/
def SimilarFields (ms ns : List (Text × Value)) : Prop :=
  ∀ k, namesField k = true → isRoutingKey k = false →
    Option.Rel Similar (ms.lookup k) (ns.lookup k)

theorem normalizeUnder_field {k : Text} (hk : namesField k = true) (v : Value) :
    normalizeUnder k v = normalizeValues v := by
  have hne : ∀ t, startsWith ['$'] t = true → k ≠ t := by
    rintro t ht rfl
    rw [(namesField_iff.mp hk).1] at ht
    cases ht
  apply normalizeUnder_value
  · exact decide_eq_false (hne _ rfl)
  · intro he
    rcases (Bool.or_eq_true _ _).mp he with he | he
    · exact absurd (of_decide_eq_true he) (hne _ rfl)
    · exact absurd (of_decide_eq_true he) (hne _ rfl)

theorem lookup_map_values (f : Text → Value → Value) (ms : List (Text × Value)) (k : Text) :
    (ms.map fun m => (m.1, f m.1 m.2)).lookup k = (ms.lookup k).map (f k) := by
  induction ms with
  | nil => rfl
  | cons m ms ih =>
      rw [List.map_cons]
      by_cases hk : k = m.1
      · rw [lookup_cons_of_eq (m := m) hk, lookup_cons_of_eq (m := (m.1, f m.1 m.2)) hk, hk]
        rfl
      · rw [lookup_cons_of_ne (m := m) hk, lookup_cons_of_ne (m := (m.1, f m.1 m.2)) hk, ih]

theorem lookup_kept {k : Text} (hk : isRoutingKey k = true) (ms : List (Text × Value)) :
    (kept ms).lookup k = none :=
  lookup_filter_of_not (p := fun k => !isRoutingKey k) (by rw [hk]; rfl) ms

theorem optionRel_iff {f : Value → Value} {R : Value → Value → Prop} {a b : Option Value}
    (h : ∀ x ∈ a, ∀ y ∈ b, f x = f y ↔ R x y) : a.map f = b.map f ↔ Option.Rel R a b := by
  cases a <;> cases b
  · exact ⟨fun _ => .none, fun _ => rfl⟩
  · exact ⟨nofun, nofun⟩
  · exact ⟨nofun, nofun⟩
  next x y =>
    rw [Option.map_some, Option.map_some, Option.some.injEq, h x rfl y rfl]
    refine ⟨.some, fun h => ?_⟩
    cases h with
    | some h => exact h

theorem reorderFields_object_eq_iff {ms ns : List (Text × Value)} (hm : Concrete (.object ms))
    (hn : Concrete (.object ns)) :
    reorderFields (normalizeValues (.object ms)) = reorderFields (normalizeValues (.object ns)) ↔
      SimilarFields ms ns := by
  rw [normalizeValues_object, normalizeValues_object, reorderFields_object, reorderFields_object,
    Value.object.injEq, reorder_eq_iff]
  cases hm with
  | object hm =>
      cases hn with
      | object hn =>
          refine forall_congr' fun k => forall_congr' fun hk => ?_
          rw [lookup_map_values, lookup_map_values, funext (normalizeUnder_field hk)]
          cases hr : isRoutingKey k with
          | true => simp [lookup_kept hr]
          | false =>
              have hkept : (!isRoutingKey k) = true := by rw [hr]; rfl
              simp only [kept, lookup_filter (p := fun k => !isRoutingKey k) hkept, true_implies]
              exact optionRel_iff fun v hv w hw =>
                normalizeValues_eq_iff (hm _ (mem_of_lookup hv)) (hn _ (mem_of_lookup hw))

theorem render_eq_iff {f : Value → Value} {v w : Value}
    (hv : parse v.render = .ok v.asRead ∧ f v.asRead = v)
    (hw : parse w.render = .ok w.asRead ∧ f w.asRead = w) : v.render = w.render ↔ v = w := by
  refine ⟨fun h => ?_, congrArg Value.render⟩
  obtain ⟨hread, hfixed⟩ := hv
  obtain ⟨hread', hfixed'⟩ := hw
  rw [h, hread'] at hread
  rw [← hfixed, ← hfixed', Except.ok.inj hread]

theorem reorderFields_ne_object {v : Value} (h : ∀ ms, v ≠ .object ms)
    (ns : List (Text × Value)) : reorderFields (normalizeValues v) ≠ .object ns := by
  cases v with
  | object ms => exact absurd rfl (h ms)
  | array | elided | scalar => exact nofun

theorem reorderFields_eq_iff {v w : Value} (hv : Concrete v) (hw : Concrete w) :
    reorderFields (normalizeValues v) = reorderFields (normalizeValues w) ↔
      ((∀ ms, v ≠ .object ms) ∧ (∀ ns, w ≠ .object ns) ∧ Similar v w) ∨
        ∃ ms ns, v = .object ms ∧ w = .object ns ∧ SimilarFields ms ns := by
  by_cases hvo : ∃ ms, v = .object ms
  · obtain ⟨ms, rfl⟩ := hvo
    by_cases hwo : ∃ ns, w = .object ns
    · obtain ⟨ns, rfl⟩ := hwo
      rw [reorderFields_object_eq_iff hv hw]
      simp
    · rw [not_exists] at hwo
      have hne := (reorderFields_ne_object hwo (reorder ((kept ms).map fun m =>
        (m.1, normalizeUnder m.1 m.2)))).symm
      rw [normalizeValues_object, reorderFields_object]
      simp [hne, hwo]
  · rw [not_exists] at hvo
    by_cases hwo : ∃ ns, w = .object ns
    · obtain ⟨ns, rfl⟩ := hwo
      simp [reorderFields_ne_object hvo, hvo]
    · rw [not_exists] at hwo
      rw [reorderFields_normalizeValues hvo, reorderFields_normalizeValues hwo,
        normalizeValues_eq_iff hv hw]
      simp [hvo, hwo]

/-- Filters have the same shape just if they are similar; the first form keeps the order of the
fields of the top level and the operators among them, the second does not. -/
theorem shape_eq_iff {s t : Text} {v w : Value} (hv : parse s = .ok v) (hw : parse t = .ok w) :
    (sortSignature s = sortSignature t ↔ Similar v w) ∧
    (canonicalize s = canonicalize t ↔
      ((∀ ms, v ≠ .object ms) ∧ (∀ ns, w ≠ .object ns) ∧ Similar v w) ∨
        ∃ ms ns, v = .object ms ∧ w = .object ns ∧ SimilarFields ms ns) := by
  have hv' := readable_of_parse hv
  have hw' := readable_of_parse hw
  have hc := concrete_of_readable hv'
  have hc' := concrete_of_readable hw'
  constructor
  · rw [sortSignature, sortSignature, hv, hw]
    simp only [Except.map, Except.ok.injEq]
    rw [render_eq_iff (read_normalizeValues hv') (read_normalizeValues hw'),
      normalizeValues_eq_iff hc hc']
  · rw [canonicalize, canonicalize, hv, hw]
    simp only [Except.map, Except.ok.injEq]
    rw [render_eq_iff (f := fun v => reorderFields (normalizeValues v)) (read_reorderFields hv')
      (read_reorderFields hw'), reorderFields_eq_iff hc hc']

theorem shape_eq_of_swapped :
    canonicalize "\x7ba: 1, b: 'x'\x7d".toList = canonicalize "\x7bb: 2, a: 3\x7d".toList := by
  have hs : "\x7ba: 1, b: 'x'\x7d".toList =
      ['{', 'a', ':', ' ', '1', ',', ' ', 'b', ':', ' ', '\'', 'x', '\'', '}'] := rfl
  have ht : "\x7bb: 2, a: 3\x7d".toList =
      ['{', 'b', ':', ' ', '2', ',', ' ', 'a', ':', ' ', '3', '}'] := rfl
  have hv : parse "\x7ba: 1, b: 'x'\x7d".toList = .ok (.object [(['a'], .scalar (.number ['1'])),
      (['b'], .scalar (.str ['\'', 'x', '\'']))]) := by
    rw [hs]
    rfl
  have hw : parse "\x7bb: 2, a: 3\x7d".toList = .ok (.object [(['b'], .scalar (.number ['2'])),
      (['a'], .scalar (.number ['3']))]) := by
    rw [ht]
    rfl
  refine (shape_eq_iff hv hw).2.mpr (.inr ⟨_, _, rfl, rfl, ?_⟩)
  intro k _ _
  by_cases ha : k = ['a']
  · rw [ha]
    exact .some (.literal rfl rfl)
  · by_cases hb : k = ['b']
    · rw [hb]
      exact .some (.literal rfl rfl)
    · simp only [lookup_cons_of_ne (m := (_, _)) ha, lookup_cons_of_ne (m := (_, _)) hb]
      exact .none

end SlowQuery.Shape
