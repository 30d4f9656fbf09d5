import Mathlib.Data.List.Sort

namespace SlowQuery

variable {α : Type} (le : α → α → Bool)

def front (x : α) (xs : List α) : List α := xs.orderedInsert (fun a b => le a b = true) x

def behind (x : α) (xs : List α) : List α := xs.orderedInsert (fun a b => le b a = false) x

variable {le} {a b x : α} {xs ys : List α}

theorem front_cons :
    front le a (b :: xs) = if le a b = true then a :: b :: xs else b :: front le a xs :=
  rfl

theorem behind_cons :
    behind le x (b :: xs) = if le b x = false then x :: b :: xs else b :: behind le x xs :=
  rfl

theorem front_append (hx : ∀ b ∈ xs, le a b = false) (hy : ∀ b ∈ ys, le a b = true) :
    front le a (xs ++ ys) = xs ++ a :: ys := by
  induction xs with
  | nil =>
      cases ys with
      | nil => rfl
      | cons b ys =>
          rw [List.nil_append, front_cons, if_pos (hy b List.mem_cons_self), List.nil_append]
  | cons b xs ih =>
      have hb := hx b List.mem_cons_self
      rw [List.cons_append, front_cons, if_neg (Bool.eq_false_iff.mp hb),
        ih fun c hc => hx c (List.mem_cons_of_mem b hc), List.cons_append]

variable (trans : ∀ a b c, le a b = true → le b c = true → le a c = true)
  (total : ∀ a b, (le a b || le b a) = true)

include trans total

theorem mergeSort_cons (a : α) (xs : List α) :
    (a :: xs).mergeSort le = front le a (xs.mergeSort le) := by
  obtain ⟨ys, zs, hcons, hrest, hys⟩ := List.mergeSort_cons trans total a xs
  have hsorted := List.pairwise_mergeSort trans total (a :: xs)
  rw [hcons, List.pairwise_append] at hsorted
  rw [hcons, hrest, front_append]
  · intro b hb
    simpa using hys b hb
  · exact (List.pairwise_cons.mp hsorted.2.1).1

theorem front_behind (a x : α) (xs : List α) :
    front le a (behind le x xs) = behind le x (front le a xs) := by
  induction xs with
  | nil =>
      show front le a [x] = behind le x [a]
      rw [front_cons, behind_cons]
      cases hax : le a x <;> rfl
  | cons b xs ih =>
      rw [behind_cons, front_cons]
      cases hbx : le b x with
      | true =>
          cases hab : le a b with
          | true =>
              have hax := trans a b x hab hbx
              simp [front_cons, behind_cons, hab, hbx, hax]
          | false => simp [front_cons, behind_cons, hab, hbx, ih]
      | false =>
          cases hax : le a x with
          | true =>
              have hxb : le x b = true := by simpa [hbx] using total x b
              have hab := trans a x b hax hxb
              simp [front_cons, behind_cons, hab, hbx, hax]
          | false =>
              cases hab : le a b <;> simp [front_cons, behind_cons, hab, hbx, hax]

theorem mergeSort_concat (xs : List α) (x : α) :
    (xs ++ [x]).mergeSort le = behind le x (xs.mergeSort le) := by
  induction xs with
  | nil => rw [List.nil_append, List.mergeSort_singleton, List.mergeSort_nil]; rfl
  | cons a xs ih =>
      rw [List.cons_append, mergeSort_cons trans total, mergeSort_cons trans total, ih,
        front_behind trans total]

omit total in
theorem filter_front (p : α → Bool) (hxs : xs.Pairwise fun b c => le b c = true) :
    (front le a xs).filter p = if p a then front le a (xs.filter p) else xs.filter p := by
  induction xs with
  | nil => cases hp : p a <;> simp [front, hp]
  | cons b xs ih =>
      obtain ⟨hb, hxs⟩ := List.pairwise_cons.mp hxs
      rw [front_cons]
      split
      next hab =>
          have hall : ∀ c ∈ (b :: xs).filter p, le a c = true := by
            intro c hc
            rcases List.mem_cons.mp (List.mem_filter.mp hc).1 with rfl | hc
            · exact hab
            · exact trans a b c hab (hb c hc)
          have hfront : front le a ((b :: xs).filter p) = a :: (b :: xs).filter p :=
            front_append (List.forall_mem_nil _) hall
          rw [hfront, List.filter_cons]
      next hab =>
          rw [List.filter_cons, List.filter_cons, ih hxs]
          cases hp : p b <;> cases p a <;> simp [front_cons, hab]

theorem filter_mergeSort (p : α → Bool) (xs : List α) :
    (xs.mergeSort le).filter p = (xs.filter p).mergeSort le := by
  induction xs with
  | nil => rw [List.filter_nil, List.mergeSort_nil, List.filter_nil]
  | cons a xs ih =>
      have hsorted := List.pairwise_mergeSort trans total xs
      rw [mergeSort_cons trans total, filter_front trans p hsorted, ih, List.filter_cons]
      split
      next => rw [mergeSort_cons trans total]
      next => rfl

/-- Only one order of the elements is sorted, so it does not matter in which they come. -/
theorem mergeSort_eq_of_perm (h : xs.Perm ys)
    (antisymm : ∀ a b, a ∈ xs → b ∈ xs → le a b = true → le b a = true → a = b) :
    xs.mergeSort le = ys.mergeSort le := by
  have hxs : (xs.mergeSort le).Perm xs := List.mergeSort_perm _ _
  have hys : (ys.mergeSort le).Perm ys := List.mergeSort_perm _ _
  apply List.Perm.eq_of_pairwise
  · intro a b ha hb
    exact antisymm a b (hxs.mem_iff.mp ha) (h.mem_iff.mpr (hys.mem_iff.mp hb))
  · exact List.pairwise_mergeSort trans total xs
  · exact List.pairwise_mergeSort trans total ys
  · exact hxs.trans (h.trans hys.symm)

omit trans total

theorem take_behind_take (n : Nat) (x : α) (xs : List α) :
    (behind le x (xs.take n)).take n = (behind le x xs).take n := by
  induction xs generalizing n with
  | nil => rw [List.take_nil]
  | cons b xs ih =>
      cases n with
      | zero => rfl
      | succ n =>
          rw [List.take_succ_cons, behind_cons, behind_cons]
          split
          next => cases n <;> simp [List.take_take]
          next => rw [List.take_succ_cons, List.take_succ_cons, ih]

theorem take_behind_of_le {n : Nat} (hn : n ≤ xs.length) (h : ∀ b ∈ xs.take n, le b x = true) :
    (behind le x xs).take n = xs.take n := by
  induction xs generalizing n with
  | nil =>
      rw [Nat.le_zero.mp hn]
      rfl
  | cons b xs ih =>
      cases n with
      | zero => rfl
      | succ n =>
          rw [List.take_succ_cons] at h
          obtain ⟨hb, hrest⟩ := List.forall_mem_cons.mp h
          rw [behind_cons, if_neg (Bool.eq_false_iff.not.mpr (not_not.mpr hb)), List.take_succ_cons,
            List.take_succ_cons, ih (Nat.le_of_succ_le_succ hn) hrest]

end SlowQuery
