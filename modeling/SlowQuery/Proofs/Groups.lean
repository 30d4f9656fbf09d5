import SlowQuery.Run.Ingest
import Mathlib.Algebra.BigOperators.Group.List.Lemmas
import Mathlib.Algebra.GroupWithZero.Nat

namespace SlowQuery.Run

open Shape

/-- The statistics of a group of samples. Numbers and sums have 64 bits. -/
structure Summarizes (e : Stats) (xs : List Sample) : Prop where
  count : e.count.toNat = xs.length % 2 ^ 64
  total : e.total.toNat = (xs.map fun x => x.millis.toNat).sum % 2 ^ 64
  max : (∃ x ∈ xs, x.millis = e.max) ∧ ∀ x ∈ xs, x.millis ≤ e.max
  min : (∃ x ∈ xs, x.millis = e.min) ∧ ∀ x ∈ xs, e.min ≤ x.millis
  last : ∃ x, xs.getLast? = some x ∧ e.ns = x.ns ∧ e.index = x.index

/-- The table has one entry for each shape of the samples, with the statistics of its group. -/
structure Grouped (xs : List Sample) (t : Table) : Prop where
  unique : (t.entries.map (·.key)).Nodup
  keys : ∀ k, k ∈ t.entries.map (·.key) ↔ ∃ x ∈ xs, x.key = k
  stats : ∀ e ∈ t.entries, Summarizes e (xs.filter (·.key = e.key))

theorem key_first (key : Key) (ns : Text) (millis : UInt64) (index : Text) :
    (Stats.first key ns millis index).key = key := rfl

theorem key_add (e : Stats) (ns : Text) (millis : UInt64) (index : Text) :
    (e.add ns millis index).key = e.key := rfl

theorem summarizes_first (x : Sample) :
    Summarizes (Stats.first x.key x.ns x.millis x.index) [x] where
  count := rfl
  total := by simp [Stats.first, Nat.mod_eq_of_lt x.millis.toNat_lt]
  max := ⟨⟨x, List.mem_singleton_self x, rfl⟩, fun y hy => by
    rw [List.mem_singleton.mp hy]
    exact UInt64.le_refl _⟩
  min := ⟨⟨x, List.mem_singleton_self x, rfl⟩, fun y hy => by
    rw [List.mem_singleton.mp hy]
    exact UInt64.le_refl _⟩
  last := ⟨x, rfl, rfl, rfl⟩

theorem bound_concat {r : UInt64 → UInt64 → Prop} (refl : ∀ m, r m m)
    (trans : ∀ {k m n}, r k m → r m n → r k n) {xs : List Sample} {x : Sample} {m n : UInt64}
    (hm : (∃ y ∈ xs, y.millis = m) ∧ ∀ y ∈ xs, r y.millis m)
    (hn : n = x.millis ∧ r m n ∨ n = m ∧ r x.millis n) :
    (∃ y ∈ xs ++ [x], y.millis = n) ∧ ∀ y ∈ xs ++ [x], r y.millis n := by
  obtain ⟨⟨y, hy, hym⟩, hall⟩ := hm
  have hconcat {n : UInt64} (hmn : r m n) (hx : r x.millis n) : ∀ z ∈ xs ++ [x], r z.millis n := by
    intro z hz
    rcases List.mem_append.mp hz with hz | hz
    · exact trans (hall z hz) hmn
    · rw [List.mem_singleton.mp hz]
      exact hx
  rcases hn with ⟨rfl, hmn⟩ | ⟨rfl, hx⟩
  · exact ⟨⟨x, List.mem_concat_self, rfl⟩, hconcat hmn (refl _)⟩
  · exact ⟨⟨y, List.mem_append_left _ hy, hym⟩, hconcat (refl _) hx⟩

theorem Summarizes.add {e : Stats} {xs : List Sample} (h : Summarizes e xs) (x : Sample) :
    Summarizes (e.add x.ns x.millis x.index) (xs ++ [x]) := by
  refine ⟨?_, ?_, ?_, ?_, x, List.getLast?_concat, rfl, rfl⟩
  · have hc := h.count
    simp only [Stats.add, UInt64.toNat_add, List.length_append, List.length_singleton, hc]
    simp
  · have ht := h.total
    simp only [Stats.add, UInt64.toNat_add, List.map_append, List.sum_append, ht]
    simp
  · refine bound_concat UInt64.le_refl UInt64.le_trans h.max ?_
    simp only [Stats.add]
    split
    next hlt => exact .inl ⟨rfl, UInt64.le_of_lt hlt⟩
    next hlt => exact .inr ⟨rfl, UInt64.not_lt.mp hlt⟩
  · refine bound_concat (r := fun m n => n ≤ m) UInt64.le_refl (fun h h' => UInt64.le_trans h' h)
      h.min ?_
    simp only [Stats.add]
    split
    next hlt => exact .inl ⟨rfl, UInt64.le_of_lt hlt⟩
    next hlt => exact .inr ⟨rfl, UInt64.not_lt.mp hlt⟩

theorem addTo_of_mem {key : Key} {es : List Stats} (hu : (es.map (·.key)).Nodup)
    (hk : key ∈ es.map (·.key)) (ns : Text) (millis : UInt64) (index : Text) :
    Table.addTo key ns millis index es =
      es.map fun e => if e.key = key then e.add ns millis index else e := by
  induction es with
  | nil => cases hk
  | cons e es ih =>
      rw [List.map_cons, List.nodup_cons] at hu
      rw [Table.addTo, List.map_cons]
      by_cases he : e.key = key
      · have hrest : es.map (fun e => if e.key = key then e.add ns millis index else e) =
            es.map id := by
          apply List.map_congr_left
          intro f hf
          have hne : f.key ≠ key := by
            rintro rfl
            exact hu.1 (he ▸ List.mem_map_of_mem hf)
          rw [if_neg hne, id]
        rw [if_pos he, if_pos he, hrest, List.map_id]
      · have hmem : key ∈ es.map (·.key) := (List.mem_cons.mp hk).resolve_left (Ne.symm he)
        rw [if_neg he, if_neg he, ih hu.2 hmem]

theorem addTo_of_not_mem {key : Key} {es : List Stats} (hk : key ∉ es.map (·.key)) (ns : Text)
    (millis : UInt64) (index : Text) :
    Table.addTo key ns millis index es = es ++ [Stats.first key ns millis index] := by
  induction es with
  | nil => rfl
  | cons e es ih =>
      rw [List.map_cons, List.mem_cons, not_or] at hk
      rw [Table.addTo, if_neg (Ne.symm hk.1), ih hk.2, List.cons_append]

theorem filter_key_append (xs : List Sample) (x : Sample) (k : Key) :
    (xs ++ [x]).filter (·.key = k) =
      if x.key = k then xs.filter (·.key = k) ++ [x] else xs.filter (·.key = k) := by
  rw [List.filter_append]
  by_cases hk : x.key = k <;> simp [hk]

theorem exists_key_append {xs : List Sample} {x : Sample} {k : Key} :
    (∃ y ∈ xs ++ [x], y.key = k) ↔ (∃ y ∈ xs, y.key = k) ∨ x.key = k := by
  simp [or_and_right, exists_or]

theorem Grouped.add_of_mem {xs : List Sample} {t : Table} (h : Grouped xs t) {x : Sample}
    (hx : x.key ∈ t.entries.map (·.key)) :
    Grouped (xs ++ [x]) (t.add x.key x.ns x.millis x.index) := by
  have he : (t.add x.key x.ns x.millis x.index).entries = t.entries.map fun e =>
      if e.key = x.key then e.add x.ns x.millis x.index else e := addTo_of_mem h.unique hx _ _ _
  have hsame : (t.add x.key x.ns x.millis x.index).entries.map (·.key) = t.entries.map (·.key) := by
    rw [he, List.map_map]
    apply List.map_congr_left
    intro e _
    rw [Function.comp_apply]
    split <;> rfl
  refine ⟨hsame ▸ h.unique, fun k => ?_, fun e hmem => ?_⟩
  · rw [hsame, exists_key_append, h.keys]
    refine ⟨.inl, ?_⟩
    rintro (hy | rfl)
    · exact hy
    · exact (h.keys _).mp hx
  · rw [he] at hmem
    obtain ⟨f, hf, rfl⟩ := List.mem_map.mp hmem
    by_cases hfk : f.key = x.key
    · rw [if_pos hfk, key_add, filter_key_append, if_pos hfk.symm]
      exact (h.stats f hf).add x
    · rw [if_neg hfk, filter_key_append, if_neg (Ne.symm hfk)]
      exact h.stats f hf

theorem Grouped.add_of_not_mem {xs : List Sample} {t : Table} (h : Grouped xs t) {x : Sample}
    (hx : x.key ∉ t.entries.map (·.key)) :
    Grouped (xs ++ [x]) (t.add x.key x.ns x.millis x.index) := by
  have he : (t.add x.key x.ns x.millis x.index).entries =
      t.entries ++ [Stats.first x.key x.ns x.millis x.index] := addTo_of_not_mem hx _ _ _
  refine ⟨?_, fun k => ?_, fun e hmem => ?_⟩
  · rw [he, List.map_append, List.nodup_append]
    refine ⟨h.unique, List.nodup_singleton _, ?_⟩
    rintro k hk _ hk' rfl
    rw [List.mem_singleton.mp hk'] at hk
    exact hx hk
  · rw [he, List.map_append, List.mem_append, h.keys, exists_key_append]
    exact or_congr_right (List.mem_singleton.trans eq_comm)
  · rw [he] at hmem
    rcases List.mem_append.mp hmem with hmem | hmem
    · have hne : x.key ≠ e.key := fun hk => hx (hk ▸ List.mem_map_of_mem hmem)
      rw [filter_key_append, if_neg hne]
      exact h.stats e hmem
    · have hnone : xs.filter (·.key = x.key) = [] := by
        apply List.filter_eq_nil_iff.mpr
        intro y hy hk
        exact hx ((h.keys _).mpr ⟨y, hy, of_decide_eq_true hk⟩)
      rw [List.mem_singleton.mp hmem, key_first, filter_key_append, if_pos rfl, hnone]
      exact summarizes_first x

theorem Grouped.add {xs : List Sample} {t : Table} (h : Grouped xs t) (x : Sample) :
    Grouped (xs ++ [x]) (t.add x.key x.ns x.millis x.index) := by
  by_cases hx : x.key ∈ t.entries.map (·.key)
  · exact h.add_of_mem hx
  · exact h.add_of_not_mem hx

theorem grouped_empty : Grouped [] {} := ⟨List.nodup_nil, by simp, by simp⟩

theorem Grouped.sum_counts {xs : List Sample} {t : Table} (h : Grouped xs t)
    (hxs : xs.length < 2 ^ 64) : (t.entries.map (·.count.toNat)).sum = xs.length := by
  have hcount : ∀ e ∈ t.entries, e.count.toNat = (xs.map (·.key)).count e.key := by
    intro e he
    have hlen : (xs.filter (·.key = e.key)).length ≤ xs.length := List.length_filter_le _ _
    rw [(h.stats e he).count, Nat.mod_eq_of_lt (by omega), List.count_eq_countP, List.countP_map,
      List.countP_eq_length_filter]
    rfl
  have hperm : (t.entries.map (·.key)).Perm (xs.map (·.key)).dedup := by
    rw [List.perm_ext_iff_of_nodup h.unique (List.nodup_dedup _)]
    intro k
    rw [h.keys, List.mem_dedup, List.mem_map]
  calc
    (t.entries.map (·.count.toNat)).sum
        = ((t.entries.map (·.key)).map fun k => (xs.map (·.key)).count k).sum := by
          rw [List.map_map]
          exact congrArg List.sum (List.map_congr_left hcount)
    _ = ((xs.map (·.key)).dedup.map fun k => (xs.map (·.key)).count k).sum :=
          (hperm.map _).sum_eq
    _ = (xs.map (·.key)).length := List.sum_map_count_dedup_eq_length _
    _ = xs.length := List.length_map _

end SlowQuery.Run
