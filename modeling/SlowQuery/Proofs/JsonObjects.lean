import SlowQuery.Json
import SlowQuery.Proofs.ByteOrder
import Mathlib.Data.List.Sort

namespace SlowQuery.Json

open Text

def Ascending (ms : List (Text × Json)) : Prop := ms.Pairwise fun a b => a.1 < b.1

def Distinct (ms : List (Text × Json)) : Prop := ms.Pairwise fun a b => a.1 ≠ b.1

def sortMembers (ms : List (Text × Json)) : List (Text × Json) :=
  ms.mergeSort fun a b => atMost a.1 b.1

mutual

def ordered : Json → Json
  | .array vs => .array (orderedItems vs)
  | .object ms => .object (sortMembers (orderedMembers ms))
  | .null => .null
  | .bool b => .bool b
  | .integer n => .integer n
  | .real x => .real x
  | .string t => .string t

def orderedItems : List Json → List Json
  | [] => []
  | v :: vs => ordered v :: orderedItems vs

def orderedMembers : List (Text × Json) → List (Text × Json)
  | [] => []
  | (k, v) :: ms => (k, ordered v) :: orderedMembers ms

end

inductive Sorted : Json → Prop
  | null : Sorted .null
  | bool (b : Bool) : Sorted (.bool b)
  | integer (n : Int) : Sorted (.integer n)
  | real (x : Float) : Sorted (.real x)
  | string (t : Text) : Sorted (.string t)
  | array {vs : List Json} (items : ∀ v ∈ vs, Sorted v) : Sorted (.array vs)
  | object {ms : List (Text × Json)} (names : Ascending ms) (values : ∀ m ∈ ms, Sorted m.2) :
      Sorted (.object ms)

variable {name : Text} {v : Json} {j : Json} {vs : List Json} {ms acc : List (Text × Json)}

theorem Ascending.distinct (h : Ascending ms) : Distinct ms := by
  refine List.Pairwise.imp (fun {a b} hab => ?_) h
  intro he
  rw [he] at hab
  exact List.lt_irrefl b.1 hab

theorem ascending_sortMembers (h : Distinct ms) : Ascending (sortMembers ms) :=
  pairwise_mergeSort_atMost h

theorem sortMembers_perm (ms : List (Text × Json)) : (sortMembers ms).Perm ms :=
  List.mergeSort_perm _ _

theorem Ascending.eq_of_perm {ns : List (Text × Json)} (hm : Ascending ms) (hn : Ascending ns)
    (h : ms.Perm ns) : ms = ns :=
  h.eq_of_pairwise (fun _ _ _ _ hab hba => absurd hba (List.lt_asymm hab)) hm hn

theorem insertMember_perm (h : ∀ m ∈ ms, name ≠ m.1) :
    (insertMember name v ms).Perm ((name, v) :: ms) := by
  induction ms with
  | nil => exact .refl _
  | cons m ms ih =>
      obtain ⟨hm, hms⟩ := List.forall_mem_cons.mp h
      rw [insertMember, if_neg hm]
      split
      · exact .refl _
      · exact ((ih hms).cons m).trans (.swap _ _ _)

theorem ascending_insertMember (h : ∀ m ∈ ms, name ≠ m.1) (hms : Ascending ms) :
    Ascending (insertMember name v ms) := by
  induction ms with
  | nil => exact List.pairwise_singleton _ _
  | cons m ms ih =>
      obtain ⟨hm, hn⟩ := List.forall_mem_cons.mp h
      obtain ⟨hlt, hasc⟩ := List.pairwise_cons.mp hms
      rw [insertMember, if_neg hm]
      split
      next hle =>
        refine List.pairwise_cons.mpr ⟨fun n hmem => ?_, hms⟩
        rcases List.mem_cons.mp hmem with rfl | hmem
        · exact hle
        · exact List.lt_trans hle (hlt n hmem)
      next hle =>
        have hgt := (List.le_iff_lt_or_eq.mp (List.not_lt.mp hle)).resolve_right (Ne.symm hm)
        refine List.pairwise_cons.mpr ⟨fun n hmem => ?_, ih hn hasc⟩
        rcases List.mem_cons.mp ((insertMember_perm hn).mem_iff.mp hmem) with rfl | hmem
        · exact hgt
        · exact hlt n hmem

theorem foldl_insertMember (hd : Distinct (acc ++ ms)) (ha : Ascending acc) :
    Ascending (ms.foldl (fun acc m => insertMember m.1 m.2 acc) acc) ∧
      (ms.foldl (fun acc m => insertMember m.1 m.2 acc) acc).Perm (acc ++ ms) := by
  induction ms generalizing acc with
  | nil => exact ⟨ha, .of_eq (List.append_nil acc).symm⟩
  | cons m ms ih =>
      have hm : ∀ n ∈ acc, m.1 ≠ n.1 := fun n hn =>
        ((List.pairwise_append.mp hd).2.2 n hn m List.mem_cons_self).symm
      have hperm : (insertMember m.1 m.2 acc ++ ms).Perm (acc ++ m :: ms) :=
        ((insertMember_perm hm).append_right ms).trans List.perm_middle.symm
      have hd' : Distinct (insertMember m.1 m.2 acc ++ ms) :=
        hperm.symm.pairwise hd fun h => h.symm
      obtain ⟨hasc, hmem⟩ := ih hd' (ascending_insertMember hm ha)
      exact ⟨hasc, hmem.trans hperm⟩

theorem ofMembers_eq (h : Distinct ms) : ofMembers ms = .object (sortMembers ms) := by
  have hempty : Distinct ([] ++ ms) := h
  obtain ⟨hasc, hperm⟩ := foldl_insertMember hempty .nil
  have hsort := hasc.eq_of_perm (ascending_sortMembers h) (hperm.trans (sortMembers_perm ms).symm)
  exact congrArg Json.object hsort

theorem orderedItems_eq (vs : List Json) : orderedItems vs = vs.map ordered := by
  induction vs with
  | nil => rfl
  | cons v vs ih => rw [orderedItems, ih, List.map_cons]

theorem orderedMembers_eq (ms : List (Text × Json)) :
    orderedMembers ms = ms.map fun m => (m.1, m.2.ordered) := by
  induction ms with
  | nil => rfl
  | cons m ms ih => rw [orderedMembers, ih, List.map_cons]

theorem Distinct.ordered (h : Distinct ms) : Distinct (orderedMembers ms) := by
  rw [orderedMembers_eq]
  exact List.pairwise_map.mpr h

theorem Sorted.ordered_eq (h : Sorted j) : j.ordered = j := by
  induction h with
  | null | bool | integer | real | string => rw [ordered]
  | array _ ih =>
      rw [ordered, orderedItems_eq, List.map_congr_left ih, List.map_id']
  | @object ms names _ ih =>
      have hms : orderedMembers ms = ms := by
        rw [orderedMembers_eq]
        conv_rhs => rw [← List.map_id' ms]
        exact List.map_congr_left fun m hm => Prod.ext rfl (ih m hm)
      have hsort : sortMembers ms = ms :=
        (ascending_sortMembers names.distinct).eq_of_perm names (sortMembers_perm ms)
      rw [ordered, hms, hsort]

theorem lookup_eq_some_iff (h : Distinct ms) :
    ms.lookup name = some v ↔ (name, v) ∈ ms := by
  induction ms with
  | nil => simp
  | cons m ms ih =>
      obtain ⟨hm, hms⟩ := List.pairwise_cons.mp h
      obtain ⟨k, w⟩ := m
      rw [List.lookup_cons, List.mem_cons, Prod.mk.injEq]
      by_cases hk : name = k
      · subst hk
        have hnot : (name, v) ∉ ms := fun hmem => hm _ hmem rfl
        simp [hnot, eq_comm]
      · rw [beq_eq_false_iff_ne.mpr hk]
        simp [hk, ih hms]

theorem lookup_sortMembers (h : Distinct ms) (name : Text) :
    (sortMembers ms).lookup name = ms.lookup name := by
  refine Option.ext fun v => ?_
  rw [lookup_eq_some_iff h, lookup_eq_some_iff (ascending_sortMembers h).distinct]
  exact (sortMembers_perm ms).mem_iff

theorem lookup_orderedMembers (ms : List (Text × Json)) (name : Text) :
    (orderedMembers ms).lookup name = (ms.lookup name).map ordered := by
  induction ms with
  | nil => rfl
  | cons m ms ih =>
      obtain ⟨k, w⟩ := m
      rw [orderedMembers, List.lookup_cons, List.lookup_cons, ih]
      cases name == k <;> rfl

end SlowQuery.Json
