import SlowQuery.Proofs.ByteOrder
import SlowQuery.Proofs.Doubles
import SlowQuery.Proofs.Sorting
import SlowQuery.Shape.Table
import Mathlib.Data.List.Nodup

namespace SlowQuery.Shape

open Text Doubles

def Key.parts (k : Key) : List Text := [k.operation, k.filter, k.scan]

def Key.bytes (k : Key) : List Bytes := k.parts.map Utf8.encode

variable {j k : Key} {a b : Stats} {es fs : List Stats}

theorem Key.parts_inj (h : j.parts = k.parts) : j = k := by
  cases j
  cases k
  simpa [Key.parts] using h

theorem Key.atMost_iff : j.atMost k = true ↔ ¬k.parts < j.parts := by
  simp only [Key.parts, List.cons_lt_cons_iff, Key.atMost]
  by_cases ho : j.operation = k.operation
  · by_cases hf : j.filter = k.filter
    · simp [ho, hf, Text.atMost_iff]
    · simp [ho, hf, Ne.symm hf, Text.atMost_iff]
  · simp [ho, Ne.symm ho, Text.atMost_iff]

theorem Key.bytes_lt (h : ¬k.parts < j.parts) (hne : j ≠ k) : j.bytes < k.bytes := by
  have hlt := (List.le_iff_lt_or_eq.mp (List.not_lt.mp h)).resolve_right (hne ∘ Key.parts_inj)
  simp only [Key.parts, Key.bytes, List.map_cons, List.cons_lt_cons_iff] at *
  rcases hlt with ho | ⟨ho, hf | ⟨hf, hs | ⟨-, hnil⟩⟩⟩
  · exact .inl (Utf8.encode_lt_encode ho)
  · exact .inr ⟨congrArg _ ho, .inl (Utf8.encode_lt_encode hf)⟩
  · exact .inr ⟨congrArg _ ho, .inr ⟨congrArg _ hf, .inl (Utf8.encode_lt_encode hs)⟩⟩
  · exact absurd hnil (List.lt_irrefl [])

theorem goesBefore_iff :
    a.goesBefore b = true ↔
      b.averageRank < a.averageRank ∨
        a.averageRank = b.averageRank ∧ ¬b.key.parts < a.key.parts := by
  rw [Stats.goesBefore]
  by_cases h : a.averageRank = b.averageRank
  · simp [h, Key.atMost_iff]
  · simp [h]

theorem Stats.goesBefore_trans (a b c : Stats) (hab : a.goesBefore b = true)
    (hbc : b.goesBefore c = true) : a.goesBefore c = true := by
  rw [goesBefore_iff] at *
  rcases hab with hab | ⟨hab, hk⟩ <;> rcases hbc with hbc | ⟨hbc, hk'⟩
  · exact .inl (Nat.lt_trans hbc hab)
  · exact .inl (hbc ▸ hab)
  · exact .inl (hab ▸ hbc)
  · have hle := List.le_trans (List.not_lt.mp hk) (List.not_lt.mp hk')
    exact .inr ⟨hab.trans hbc, List.not_lt.mpr hle⟩

theorem Stats.goesBefore_total (a b : Stats) : (a.goesBefore b || b.goesBefore a) = true := by
  rw [Bool.or_eq_true, goesBefore_iff, goesBefore_iff]
  rcases Nat.lt_trichotomy a.averageRank b.averageRank with h | h | h
  · exact .inr (.inl h)
  · rcases List.le_total a.key.parts b.key.parts with hk | hk
    · exact .inl (.inr ⟨h, List.not_lt.mpr hk⟩)
    · exact .inr (.inr ⟨h.symm, List.not_lt.mpr hk⟩)
  · exact .inl (.inl h)

theorem key_eq_of_goesBefore (hab : a.goesBefore b = true) (hba : b.goesBefore a = true) :
    a.key = b.key := by
  rw [goesBefore_iff] at *
  rcases hab with hab | ⟨hab, hk⟩ <;> rcases hba with hba | ⟨hba, hk'⟩
  · omega
  · omega
  · omega
  · exact Key.parts_inj (List.le_antisymm (List.not_lt.mp hk) (List.not_lt.mp hk'))

theorem goesBefore_sortByAverage (es : List Stats) :
    (sortByAverage es).Pairwise fun a b => a.goesBefore b = true :=
  List.pairwise_mergeSort Stats.goesBefore_trans Stats.goesBefore_total es

theorem sortByAverage_perm (hu : (es.map (·.key)).Nodup) (h : es.Perm fs) :
    sortByAverage es = sortByAverage fs := by
  apply mergeSort_eq_of_perm Stats.goesBefore_trans Stats.goesBefore_total h
  intro a b ha hb hab hba
  exact List.inj_on_of_nodup_map hu ha hb (key_eq_of_goesBefore hab hba)

/-- The statistics without what only the last sample says. -/
def Stats.figures (s : Stats) : Stats := { s with ns := [], index := [] }

theorem figures_sortByAverage (es : List Stats) :
    (sortByAverage es).map Stats.figures = sortByAverage (es.map Stats.figures) :=
  List.map_mergeSort fun _ _ _ _ => rfl

theorem averageRank_eq (h : 0 < a.count.toNat) :
    a.averageRank = a.average.toBits.toNat + 1 := by
  rw [Stats.averageRank, Stats.average, isNaN_of_le (toBits_quotient a.total h), if_neg nofun]

theorem average_lt (ha : 0 < a.count.toNat) (hb : 0 < b.count.toNat)
    (h : a.averageRank < b.averageRank) : a.average < b.average := by
  rw [averageRank_eq ha, averageRank_eq hb] at h
  exact lt_of_toBits_lt (toBits_quotient _ ha) (toBits_quotient _ hb) (Nat.lt_of_succ_lt_succ h)

theorem average_eq (ha : 0 < a.count.toNat) (hb : 0 < b.count.toNat)
    (h : a.averageRank = b.averageRank) : a.average = b.average := by
  rw [averageRank_eq ha, averageRank_eq hb] at h
  exact Float.toBits_inj.mp (UInt64.toNat_inj.mp (Nat.succ.inj h))

theorem pairwise_sortByAverage (hu : (es.map (·.key)).Nodup) (hc : ∀ e ∈ es, 0 < e.count.toNat) :
    (sortByAverage es).Pairwise fun a b =>
      b.average < a.average ∨ a.average = b.average ∧ a.key.bytes < b.key.bytes := by
  have hperm : (sortByAverage es).Perm es := List.mergeSort_perm _ _
  have hkeys : (sortByAverage es).Pairwise fun a b => a.key ≠ b.key :=
    List.pairwise_map.mp ((hperm.map _).nodup_iff.mpr hu)
  refine ((goesBefore_sortByAverage es).and hkeys).imp_of_mem ?_
  intro a b ha hb ⟨hab, hne⟩
  have ha := hc a (hperm.mem_iff.mp ha)
  have hb := hc b (hperm.mem_iff.mp hb)
  rcases goesBefore_iff.mp hab with hlt | ⟨heq, hk⟩
  · exact .inl (average_lt hb ha hlt)
  · exact .inr ⟨average_eq ha hb heq, Key.bytes_lt hk hne⟩

end SlowQuery.Shape
