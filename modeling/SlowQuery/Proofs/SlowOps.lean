import SlowQuery.Proofs.Sorting
import SlowQuery.Run.Session
import Mathlib.Data.List.Induction

namespace SlowQuery.Run

def SlowOp.goesBefore (a b : SlowOp) : Bool := b.millis ≤ a.millis

theorem goesBefore_trans (a b c : SlowOp) (hab : a.goesBefore b = true)
    (hbc : b.goesBefore c = true) : a.goesBefore c = true :=
  decide_eq_true (UInt64.le_trans (of_decide_eq_true hbc) (of_decide_eq_true hab))

theorem goesBefore_total (a b : SlowOp) : (a.goesBefore b || b.goesBefore a) = true := by
  simpa [SlowOp.goesBefore] using UInt64.le_total b.millis a.millis

/-- The first `n` of some operations when the slowest go first and the others keep their order. -/
def slowest (n : Nat) (ops : List SlowOp) : List SlowOp :=
  (ops.mergeSort SlowOp.goesBefore).take n

theorem slowest_nil (n : Nat) : slowest n [] = [] := by
  rw [slowest, List.mergeSort_nil, List.take_nil]

theorem pairwise_slowest (n : Nat) (ops : List SlowOp) :
    (slowest n ops).Pairwise fun a b => a.goesBefore b = true :=
  (List.pairwise_mergeSort goesBefore_trans goesBefore_total ops).sublist (List.take_sublist _ _)

theorem le_of_refuses {l : SlowList} {millis : UInt64} (h : l.refuses millis = true)
    (hl : l.entries.Pairwise fun a b => a.goesBefore b = true) :
    l.capacity.toNat ≤ l.entries.length ∧ ∀ op ∈ l.entries, millis ≤ op.millis := by
  rw [SlowList.refuses, Bool.and_eq_true, decide_eq_true_eq, Option.any_eq_true] at h
  obtain ⟨hfull, last, hlast, hle⟩ := h
  have hle : millis ≤ last.millis := of_decide_eq_true hle
  obtain ⟨ops, hops⟩ := List.getLast?_eq_some_iff.mp hlast
  refine ⟨hfull, fun op hop => ?_⟩
  rw [hops] at hl hop
  rcases List.mem_append.mp hop with hop | hop
  · have hlast := (List.pairwise_append.mp hl).2.2 op hop last (List.mem_singleton_self last)
    exact UInt64.le_trans hle (of_decide_eq_true hlast)
  · rw [List.mem_singleton.mp hop]
    exact hle

/-- A further operation leaves the slowest of all operations through that one. -/
theorem add_slowest (capacity : UInt64) (ops : List SlowOp) (op : SlowOp) :
    SlowList.add ⟨capacity, slowest capacity.toNat ops⟩ op.millis op.line =
      ⟨capacity, slowest capacity.toNat (ops ++ [op])⟩ := by
  have hsorted := pairwise_slowest capacity.toNat ops
  have hconcat : slowest capacity.toNat (ops ++ [op]) =
      (behind SlowOp.goesBefore op (ops.mergeSort SlowOp.goesBefore)).take capacity.toNat := by
    rw [slowest, mergeSort_concat goesBefore_trans goesBefore_total]
  rw [SlowList.add, hconcat]
  split
  next hkept =>
      rcases hkept with rfl | hrefuses
      · rfl
      · obtain ⟨hfull, hle⟩ := le_of_refuses hrefuses hsorted
        rw [take_behind_of_le, slowest]
        · simpa [slowest] using hfull
        · exact fun b hb => decide_eq_true (hle b hb)
  next =>
      have hheld :
          ((slowest capacity.toNat ops ++ [op]).mergeSort SlowOp.goesBefore).take capacity.toNat =
            (behind SlowOp.goesBefore op (ops.mergeSort SlowOp.goesBefore)).take capacity.toNat := by
        rw [mergeSort_concat goesBefore_trans goesBefore_total, List.mergeSort_of_pairwise hsorted,
          slowest, take_behind_take]
      exact congrArg (SlowList.mk capacity) hheld

theorem foldl_add (capacity : UInt64) (ops : List SlowOp) :
    ops.foldl (fun l op => l.add op.millis op.line) (SlowList.empty capacity) =
      ⟨capacity, slowest capacity.toNat ops⟩ := by
  induction ops using List.reverseRecOn with
  | nil => rw [slowest_nil]; rfl
  | append_singleton ops op ih =>
      rw [List.foldl_append, ih]
      exact add_slowest capacity ops op

/-- The slowest go first, and operations of one duration keep their order. -/
structure StableOrder (ops sorted : List SlowOp) : Prop where
  perm : sorted.Perm ops
  slowestFirst : sorted.Pairwise fun a b => b.millis ≤ a.millis
  arrival : ∀ m, sorted.filter (·.millis = m) = ops.filter (·.millis = m)

theorem stableOrder_mergeSort (ops : List SlowOp) :
    StableOrder ops (ops.mergeSort SlowOp.goesBefore) where
  perm := List.mergeSort_perm _ _
  slowestFirst :=
    (List.pairwise_mergeSort goesBefore_trans goesBefore_total ops).imp of_decide_eq_true
  arrival := by
    intro m
    rw [filter_mergeSort goesBefore_trans goesBefore_total]
    apply List.mergeSort_of_pairwise
    apply List.pairwise_of_forall_mem_list
    intro a ha b hb
    have ham : a.millis = m := of_decide_eq_true (List.mem_filter.mp ha).2
    have hbm : b.millis = m := of_decide_eq_true (List.mem_filter.mp hb).2
    exact decide_eq_true (by rw [ham, hbm]; exact UInt64.le_refl m)

/-- After every call the list holds the first of all operations so far in their stable order. -/
theorem held_eq_take (capacity : UInt64) (ops : List SlowOp) :
    let held := ops.foldl (fun l op => l.add op.millis op.line) (SlowList.empty capacity)
    let sorted := ops.mergeSort SlowOp.goesBefore
    StableOrder ops sorted ∧ held.entries = sorted.take capacity.toNat := by
  refine ⟨stableOrder_mergeSort ops, ?_⟩
  rw [foldl_add, slowest]

theorem millis_slowest_perm {ops ops' : List SlowOp} (h : ops.Perm ops') (n : Nat) :
    (slowest n ops).map (·.millis) = (slowest n ops').map (·.millis) := by
  have hmap : ∀ ops : List SlowOp, (ops.mergeSort SlowOp.goesBefore).map (·.millis) =
      (ops.map (·.millis)).mergeSort fun m k => k ≤ m := fun ops =>
    List.map_mergeSort fun _ _ _ _ => rfl
  rw [slowest, slowest, List.map_take, List.map_take, hmap, hmap]
  apply congrArg (List.take n)
  apply mergeSort_eq_of_perm
  · intro a b c hab hbc
    exact decide_eq_true (UInt64.le_trans (of_decide_eq_true hbc) (of_decide_eq_true hab))
  · intro a b
    simpa using UInt64.le_total b a
  · exact h.map _
  · intro a b _ _ hab hba
    exact UInt64.le_antisymm (of_decide_eq_true hba) (of_decide_eq_true hab)

end SlowQuery.Run
