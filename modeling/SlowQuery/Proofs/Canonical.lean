import SlowQuery.Proofs.ByteOrder
import SlowQuery.Proofs.Normal
import Mathlib.Data.List.Sort

namespace SlowQuery.Shape

open Text Payload

def Ascending (ms : List (Text × Value)) : Prop := ms.Pairwise fun a b => a.1 < b.1

def reorder (ms : List (Text × Value)) : List (Text × Value) :=
  (firstOfEach [] (ms.filter (namesField ·.1))).mergeSort fun a b => atMost a.1 b.1

@[simp] theorem reorderFields_object (ms : List (Text × Value)) :
    reorderFields (.object ms) = .object (reorder ms) := rfl

theorem lookup_cons_of_eq {m : Text × Value} {k : Text} (h : k = m.1) (ms : List (Text × Value)) :
    (m :: ms).lookup k = some m.2 := by
  rw [h]
  exact List.lookup_cons_self

theorem lookup_cons_of_ne {m : Text × Value} {k : Text} (h : k ≠ m.1) (ms : List (Text × Value)) :
    (m :: ms).lookup k = ms.lookup k := by
  rw [List.lookup_cons, beq_eq_false_iff_ne.mpr h]

theorem mem_firstOfEach {seen : List Text} {ms : List (Text × Value)} {m : Text × Value} :
    m ∈ firstOfEach seen ms ↔ m.1 ∉ seen ∧ ms.lookup m.1 = some m.2 := by
  induction ms generalizing seen with
  | nil => simp [firstOfEach]
  | cons n ms ih =>
      rw [firstOfEach]
      by_cases hk : n.1 ∈ seen
      · rw [if_pos (List.contains_iff_mem.mpr hk), ih]
        by_cases hm : m.1 = n.1
        · rw [hm]
          simp only [hk, not_true_eq_false, false_and]
        · rw [lookup_cons_of_ne hm]
      · rw [if_neg (by simpa using hk), List.mem_cons, ih, List.mem_cons, not_or]
        by_cases hm : m.1 = n.1
        · rw [lookup_cons_of_eq hm]
          simp only [hm, not_true_eq_false, false_and, or_false, hk, not_false_eq_true, true_and,
            Prod.ext_iff, Option.some.injEq]
          exact eq_comm
        · rw [lookup_cons_of_ne hm]
          simp only [Prod.ext_iff, hm, false_and, false_or, not_false_eq_true, true_and]

theorem firstOfEach_distinct (seen : List Text) (ms : List (Text × Value)) :
    (firstOfEach seen ms).Pairwise fun a b => a.1 ≠ b.1 := by
  induction ms generalizing seen with
  | nil => exact .nil
  | cons n ms ih =>
      obtain ⟨k, v⟩ := n
      rw [firstOfEach]
      split
      · exact ih seen
      · refine .cons ?_ (ih _)
        intro m hm hk
        exact (mem_firstOfEach.mp hm).1 (hk ▸ List.mem_cons_self)

theorem lookup_filter {p : Text → Bool} {k : Text} (hk : p k = true) (ms : List (Text × Value)) :
    (ms.filter (p ·.1)).lookup k = ms.lookup k := by
  induction ms with
  | nil => rfl
  | cons m ms ih =>
      rw [List.filter_cons]
      by_cases hm : k = m.1
      · rw [if_pos (by rw [← hm, hk]), lookup_cons_of_eq hm, lookup_cons_of_eq hm]
      · rw [lookup_cons_of_ne hm]
        split
        · rw [lookup_cons_of_ne hm, ih]
        · exact ih

theorem lookup_filter_of_not {p : Text → Bool} {k : Text} (hk : p k = false)
    (ms : List (Text × Value)) : (ms.filter (p ·.1)).lookup k = none := by
  rw [List.lookup_eq_none_iff]
  intro m hm
  rw [bne_iff_ne]
  rintro rfl
  exact absurd (List.mem_filter.mp hm).2 (by simp [hk])

theorem mem_of_lookup {ms : List (Text × Value)} {k : Text} {v : Value}
    (h : ms.lookup k = some v) : (k, v) ∈ ms := by
  obtain ⟨l, r, rfl, -⟩ := List.lookup_eq_some_iff.mp h
  exact List.mem_append_right l List.mem_cons_self

theorem mem_reorder {ms : List (Text × Value)} {m : Text × Value} :
    m ∈ reorder ms ↔ namesField m.1 = true ∧ ms.lookup m.1 = some m.2 := by
  simp only [reorder, List.mem_mergeSort, mem_firstOfEach, List.not_mem_nil, not_false_eq_true,
    true_and]
  constructor
  · intro h
    have hn : namesField m.1 = true := (List.mem_filter.mp (mem_of_lookup h)).2
    exact ⟨hn, by rwa [lookup_filter hn] at h⟩
  · rintro ⟨hn, h⟩
    rwa [lookup_filter hn]

theorem ascending_reorder (ms : List (Text × Value)) : Ascending (reorder ms) :=
  pairwise_mergeSort_atMost (firstOfEach_distinct _ _)

theorem Ascending.lookup_eq_some {ms : List (Text × Value)} (h : Ascending ms) {m : Text × Value} :
    ms.lookup m.1 = some m.2 ↔ m ∈ ms := by
  refine ⟨mem_of_lookup, ?_⟩
  intro hm
  induction h with
  | nil => cases hm
  | @cons n ms hn _ ih =>
      rcases List.mem_cons.mp hm with rfl | hm
      · exact lookup_cons_of_eq rfl ms
      · have hne : m.1 ≠ n.1 := fun he => List.lt_irrefl _ (he ▸ hn m hm)
        rw [lookup_cons_of_ne hne, ih hm]

theorem Ascending.ext {ms ns : List (Text × Value)} (hm : Ascending ms) (hn : Ascending ns)
    (h : ∀ m, m ∈ ms ↔ m ∈ ns) : ms = ns := by
  have irrefl : Std.Irrefl fun a b : Text × Value => a.1 < b.1 := ⟨fun a => List.lt_irrefl a.1⟩
  have antisymm : Std.Antisymm fun a b : Text × Value => a.1 < b.1 :=
    ⟨fun a b hab hba => absurd hba (List.lt_asymm hab)⟩
  exact List.Pairwise.eq_of_mem_iff hm hn h

theorem lookup_reorder (k : Text) (ms : List (Text × Value)) :
    (reorder ms).lookup k = if namesField k then ms.lookup k else none := by
  refine Option.ext fun v => ?_
  have hm := (ascending_reorder ms).lookup_eq_some (m := (k, v))
  rw [hm, mem_reorder]
  cases namesField k <;> simp

theorem reorder_eq_iff {ms ns : List (Text × Value)} :
    reorder ms = reorder ns ↔ ∀ k, namesField k = true → ms.lookup k = ns.lookup k := by
  constructor
  · intro h k hk
    refine Option.ext fun v => ?_
    have hm : (k, v) ∈ reorder ms ↔ _ := mem_reorder
    have hn : (k, v) ∈ reorder ns ↔ _ := mem_reorder
    rw [h] at hm
    simpa only [hk, true_and] using hm.symm.trans hn
  · intro h
    apply (ascending_reorder ms).ext (ascending_reorder ns)
    intro m
    rw [mem_reorder, mem_reorder]
    exact and_congr_right fun hk => by rw [h m.1 hk]

theorem reorder_reorder (ms : List (Text × Value)) : reorder (reorder ms) = reorder ms := by
  apply (ascending_reorder _).ext (ascending_reorder ms)
  intro m
  rw [mem_reorder, (ascending_reorder ms).lookup_eq_some]
  exact ⟨And.right, fun h => ⟨(mem_reorder.mp h).1, h⟩⟩

theorem reorderFields_normalizeValues {v : Value} (h : ∀ ms, v ≠ .object ms) :
    reorderFields (normalizeValues v) = normalizeValues v := by
  cases v with
  | object ms => exact absurd rfl (h ms)
  | array | elided | scalar => rfl

theorem Normal.reorder {ms : List (Text × Value)} (h : ∀ m ∈ ms, NormalMember m) :
    Normal (.object (reorder ms)) :=
  .object fun m hm => h m (mem_of_lookup (mem_reorder.mp hm).2)

/-- The text of a shape is read, and the shape of what was read is the same. -/
theorem read_reorderFields {v : Value} (hv : Readable v) :
    parse (reorderFields (normalizeValues v)).render =
        .ok (reorderFields (normalizeValues v)).asRead ∧
      reorderFields (normalizeValues (reorderFields (normalizeValues v)).asRead) =
        reorderFields (normalizeValues v) := by
  by_cases ho : ∃ ms, v = .object ms
  · obtain ⟨ms, rfl⟩ := ho
    rcases hv with hv | ⟨d, w, hw, he⟩
    · have h := Normal.reorder (normalMember_of_legible hv)
      rw [normalizeValues_object, reorderFields_object]
      refine ⟨h.read, ?_⟩
      rw [h.fixed, reorderFields_object, reorder_reorder]
    · cases he
  · have hne := fun ms hms => ho ⟨ms, hms⟩
    obtain ⟨hread, hfixed⟩ := read_normalizeValues hv
    rw [reorderFields_normalizeValues hne]
    refine ⟨hread, ?_⟩
    rw [hfixed, reorderFields_normalizeValues hne]

theorem canonicalize_eq_ok {t s : Text} :
    canonicalize t = .ok s ↔
      ∃ v, parse t = .ok v ∧ (reorderFields (normalizeValues v)).render = s :=
  map_eq_ok

theorem sortSignature_eq_ok {t s : Text} :
    sortSignature t = .ok s ↔ ∃ v, parse t = .ok v ∧ (normalizeValues v).render = s :=
  map_eq_ok

theorem canonicalize_shape {t s : Text} (h : canonicalize t = .ok s) : canonicalize s = .ok s := by
  obtain ⟨v, hv, rfl⟩ := canonicalize_eq_ok.mp h
  obtain ⟨hread, hfixed⟩ := read_reorderFields (readable_of_parse hv)
  exact canonicalize_eq_ok.mpr ⟨_, hread, by rw [hfixed]⟩

theorem sortSignature_shape {t s : Text} (h : sortSignature t = .ok s) :
    sortSignature s = .ok s := by
  obtain ⟨v, hv, rfl⟩ := sortSignature_eq_ok.mp h
  obtain ⟨hread, hfixed⟩ := read_normalizeValues (readable_of_parse hv)
  exact sortSignature_eq_ok.mpr ⟨_, hread, by rw [hfixed]⟩

theorem members_of_shape {t r : Text} (h : canonicalize t = .ok ('{' :: r)) :
    ∃ ms, parse ('{' :: r) = .ok (.object ms) ∧ Ascending ms ∧ ∀ m ∈ ms, namesField m.1 = true := by
  obtain ⟨v, hv, hs⟩ := canonicalize_eq_ok.mp h
  obtain ⟨hread, hfixed⟩ := read_reorderFields (readable_of_parse hv)
  obtain ⟨ms, hms⟩ := (readable_of_parse hread).object_of_brace
    ((Value.render_asRead _).trans hs)
  rw [hms, normalizeValues_object, reorderFields_object] at hfixed
  rw [hs, ← hfixed, Value.asRead, Value.membersAsRead_eq] at hread
  refine ⟨_, hread, ?_, ?_⟩
  · exact List.pairwise_map.mpr (ascending_reorder _)
  · intro x hx
    obtain ⟨m, hm, rfl⟩ := List.mem_map.mp hx
    exact (mem_reorder.mp hm).1

theorem namesField_iff {k : Text} :
    namesField k = true ↔ startsWith ['$'] k = false ∧ ∀ c ∈ k, isBlank c = false := by
  simp [namesField]

/-- A shape is its own shape, and its named fields stand in the byte order of their names. -/
theorem canonicalize_idempotent (t s : Text) :
    (canonicalize t = .ok s →
      canonicalize s = .ok s ∧
      (startsWith ['{'] s = true → ∃ ms, parse s = .ok (.object ms) ∧
        (ms.map (·.1)).Pairwise (fun j k => Utf8.encode j < Utf8.encode k) ∧
        ∀ m ∈ ms, startsWith ['$'] m.1 = false ∧ ∀ c ∈ m.1, isBlank c = false)) ∧
    (sortSignature t = .ok s → sortSignature s = .ok s) := by
  refine ⟨fun h => ⟨canonicalize_shape h, fun hs => ?_⟩, sortSignature_shape⟩
  obtain ⟨r, rfl⟩ := List.isPrefixOf_iff_prefix.mp hs
  obtain ⟨ms, hread, horder, hnames⟩ := members_of_shape h
  refine ⟨ms, hread, ?_, fun m hm => namesField_iff.mp (hnames m hm)⟩
  exact List.pairwise_map.mpr (horder.imp Utf8.encode_lt_encode)

theorem canonicalize_idempotent_swapped :
    let t := "\x7bb: \"x\", $op: 1, a: 1\x7d".toList
    let s := "\x7ba: 1, b: 1\x7d".toList
    let u := "\x7bb: 1, $op: 1, a: 1\x7d".toList
    (canonicalize t = .ok s ∧ canonicalize s = .ok s ∧
      ∃ ms, parse s = .ok (.object ms) ∧
        (ms.map (·.1)).Pairwise (fun j k => Utf8.encode j < Utf8.encode k) ∧
        ∀ m ∈ ms, startsWith ['$'] m.1 = false ∧ ∀ c ∈ m.1, isBlank c = false) ∧
      sortSignature t = .ok u ∧ sortSignature u = .ok u := by
  intro t s u
  let v : Value := .object [(['b'], .scalar (.str ['"', 'x', '"'])),
    (['$', 'o', 'p'], .scalar (.number ['1'])), (['a'], .scalar (.number ['1']))]
  let normal : List (Text × Value) := [(['b'], .scalar .placeholder),
    (['$', 'o', 'p'], .scalar .placeholder), (['a'], .scalar .placeholder)]
  have hread : parse t = .ok v := by
    have hsafe : ∀ k ∈ [['b'], ['$', 'o', 'p'], ['a']], ∀ c ∈ k, needsQuotes c = false := by
      simp
      decide
    have hkeys : ∀ k ∈ [['b'], ['$', 'o', 'p'], ['a']], KeyText k k := fun k hk =>
      .bare (isBareKey_of_safe (hsafe k hk))
    have hquoted : encloses '"' false ['x'] = true := rfl
    have hstr : Legible (.scalar (.str ['"', 'x', '"'])) := .scalar (.str rfl hquoted)
    have hv : Legible v :=
      .object (by simpa [v] using hkeys) (by simp [hstr, Legible.scalar literal_one])
    have htext : t = v.render := by decide
    rw [htext]
    exact parse_render (.inl hv)
  have hsorted : reorder normal = [(['a'], .scalar .placeholder), (['b'], .scalar .placeholder)] := by
    have hnamed : firstOfEach [] (normal.filter (namesField ·.1)) =
        [(['b'], .scalar .placeholder), (['a'], .scalar .placeholder)] := rfl
    rw [reorder, hnamed]
    simp [List.mergeSort, List.MergeSort.Internal.splitInTwo, List.merge, atMost]
    decide
  have hshape : canonicalize t = .ok s := by
    refine canonicalize_eq_ok.mpr ⟨v, hread, ?_⟩
    change (Value.object (reorder normal)).render = s
    rw [hsorted]
    decide
  have hsort : sortSignature t = .ok u := sortSignature_eq_ok.mpr ⟨v, hread, by decide⟩
  obtain ⟨hagain, hnames⟩ := (canonicalize_idempotent t s).1 hshape
  exact ⟨⟨hshape, hagain, hnames rfl⟩, hsort, (canonicalize_idempotent t u).2 hsort⟩

end SlowQuery.Shape
