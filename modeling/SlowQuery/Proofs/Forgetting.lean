import SlowQuery.Proofs.Similar
import Mathlib.Data.Finset.Lattice.Lemmas

namespace SlowQuery.Payload

open Text

@[elab_as_elim]
theorem Value.induct {P : Value → Prop} (object : ∀ ms, (∀ m ∈ ms, P m.2) → P (.object ms))
    (array : ∀ vs, (∀ v ∈ vs, P v) → P (.array vs)) (elided : P .elided)
    (scalar : ∀ s, P (.scalar s)) (v : Value) : P v := by
  cases v with
  | object ms => exact object ms fun m h => Value.induct object array elided scalar m.2
  | array vs => exact array vs fun v h => Value.induct object array elided scalar v
  | elided => exact elided
  | scalar s => exact scalar s
termination_by sizeOf v
decreasing_by
  · have hm := List.sizeOf_lt_of_mem h
    have hv : sizeOf m = 1 + sizeOf m.1 + sizeOf m.2 := rfl
    simp only [Value.object.sizeOf_spec]
    omega
  · have hv := List.sizeOf_lt_of_mem h
    simp only [Value.array.sizeOf_spec]
    omega

end SlowQuery.Payload

namespace SlowQuery.Shape

open Text Payload

/-- The kinds of detail that a shape does without. -/
inductive Detail where
  | enumeration
  | pattern
  | literal
  | routing
  | handle
  /-- The order of the fields, and all of the top level that names no field. -/
  | order
deriving DecidableEq

def Detail.forget : Detail → Value → Value
  | .enumeration => truncateEnumerations
  | .pattern => redactRegexes
  | .literal => replaceLiterals
  | .routing => stripRouting
  | .handle => replaceHandles
  | .order => reorderFields

def forgetAll (ds : List Detail) (v : Value) : Value := ds.foldl (fun v d => d.forget v) v

section

variable (S T : Finset Detail)

def scalarWithout (s : Scalar) : Scalar :=
  match s with
  | .regex _ flags => if .pattern ∈ S then .regex "regex".toList flags else s
  | .str _ | .number _ | .bool _ | .date _ => if .literal ∈ S then .placeholder else s
  | .handle _ => if .handle ∈ S then .placeholder else s
  | .redacted | .bare _ | .placeholder => s

def staysWithout (k : Text) : Bool := !(.routing ∈ S && isRoutingKey k)

/-- What stands under a key for the operand `v`, of which `w` would stay elsewhere. -/
def operandWithout (k : Text) (v w : Value) : Value :=
  if .pattern ∈ S && isRegexKey k then .scalar .redacted
  else if .enumeration ∈ S && isEnumerationKey k then (elideOperand? v).getD w
  else w

mutual

def valueWithout : Value → Value
  | .object ms => .object (membersWithout ms)
  | .array vs => .array (itemsWithout vs)
  | .elided => .elided
  | .scalar s => .scalar (scalarWithout S s)

def membersWithout : List (Text × Value) → List (Text × Value)
  | [] => []
  | (k, v) :: ms =>
    if staysWithout S k then (k, operandWithout S k v (valueWithout v)) :: membersWithout ms
    else membersWithout ms

def itemsWithout : List Value → List Value
  | [] => []
  | v :: vs => valueWithout v :: itemsWithout vs

end

def without (v : Value) : Value :=
  if .order ∈ S then reorderFields (valueWithout S v) else valueWithout S v

theorem membersWithout_eq (ms : List (Text × Value)) :
    membersWithout S ms = (ms.filter (staysWithout S ·.1)).map fun m =>
      (m.1, operandWithout S m.1 m.2 (valueWithout S m.2)) := by
  induction ms with
  | nil => rfl
  | cons m ms ih =>
      cases hk : staysWithout S m.1 <;> simp [membersWithout, hk, ih]

theorem itemsWithout_eq (vs : List Value) : itemsWithout S vs = vs.map (valueWithout S) := by
  induction vs with
  | nil => rfl
  | cons v vs ih => rw [itemsWithout, ih, List.map_cons]

theorem eq_valueWithout {f : Value → Value}
    (object : ∀ ms, f (.object ms) = .object ((ms.filter (staysWithout S ·.1)).map fun m =>
      (m.1, operandWithout S m.1 m.2 (f m.2))))
    (array : ∀ vs, f (.array vs) = .array (vs.map f)) (elided : f .elided = .elided)
    (scalar : ∀ s, f (.scalar s) = .scalar (scalarWithout S s)) (v : Value) :
    f v = valueWithout S v := by
  induction v using Value.induct with
  | object ms ih =>
      rw [object, valueWithout, membersWithout_eq]
      refine congrArg Value.object (List.map_congr_left fun m hm => ?_)
      rw [ih m (List.mem_of_mem_filter hm)]
  | array vs ih =>
      rw [array, valueWithout, itemsWithout_eq]
      exact congrArg Value.array (List.map_congr_left ih)
  | elided => exact elided
  | scalar s => exact scalar s

variable {S T}

theorem scalarWithout_scalarWithout (s : Scalar) :
    scalarWithout S (scalarWithout T s) = scalarWithout (S ∪ T) s := by
  cases s with
  | regex p flags =>
      by_cases hS : .pattern ∈ S <;> by_cases hT : .pattern ∈ T <;> simp [scalarWithout, hS, hT]
  | str | number | bool | date =>
      by_cases hS : .literal ∈ S <;> by_cases hT : .literal ∈ T <;> simp [scalarWithout, hS, hT]
  | handle =>
      by_cases hS : .handle ∈ S <;> by_cases hT : .handle ∈ T <;> simp [scalarWithout, hS, hT]
  | redacted | bare | placeholder => rfl

theorem staysWithout_union (k : Text) :
    staysWithout (S ∪ T) k = (staysWithout S k && staysWithout T k) := by
  cases hk : isRoutingKey k <;> simp [staysWithout, hk]

theorem elideOperand?_valueWithout (v : Value) :
    elideOperand? (valueWithout S v) = elideOperand? v := by
  cases v <;> rfl

theorem isEnumerationKey_of_regex {k : Text} (h : isRegexKey k = true) :
    isEnumerationKey k = false := by
  rw [of_decide_eq_true h]
  decide

theorem operandWithout_operandWithout {v w : Value} (k : Text)
    (hv : valueWithout S (valueWithout T v) = w) :
    operandWithout S k (operandWithout T k v (valueWithout T v))
      (valueWithout S (operandWithout T k v (valueWithout T v))) = operandWithout (S ∪ T) k v w := by
  cases hr : isRegexKey k with
  | true =>
      have he := isEnumerationKey_of_regex hr
      by_cases hT : .pattern ∈ T
      · simp [operandWithout, hr, he, hT, valueWithout, scalarWithout]
      · simp [operandWithout, hr, he, hT, hv]
  | false =>
      cases he : isEnumerationKey k with
      | false => simp [operandWithout, hr, he, hv]
      | true =>
          cases ho : elideOperand? v with
          | none =>
              have hsame := (elideOperand?_valueWithout (S := T) v).trans ho
              simp [operandWithout, hr, he, hv, ho, hsame]
          | some u =>
              obtain rfl : u = .elided := by
                cases v <;> cases ho <;> rfl
              have hsame := (elideOperand?_valueWithout (S := T) v).trans ho
              have helided : elideOperand? .elided = some .elided := rfl
              have hkept : valueWithout S .elided = .elided := rfl
              by_cases hS : .enumeration ∈ S <;> by_cases hT : .enumeration ∈ T <;>
                simp [operandWithout, hr, he, hv, ho, hsame, helided, hkept, hS, hT]

theorem valueWithout_valueWithout (v : Value) :
    valueWithout S (valueWithout T v) = valueWithout (S ∪ T) v := by
  induction v using Value.induct with
  | object ms ih =>
      simp only [valueWithout, membersWithout_eq, List.filter_map, List.map_map,
        List.filter_filter, Value.object.injEq, Function.comp_def, staysWithout_union]
      refine List.map_congr_left fun m hm => Prod.ext rfl ?_
      exact operandWithout_operandWithout m.1 (ih m (List.mem_of_mem_filter hm))
  | array vs ih =>
      simp only [valueWithout, itemsWithout_eq, List.map_map]
      exact congrArg Value.array (List.map_congr_left ih)
  | elided => rfl
  | scalar s => exact congrArg Value.scalar (scalarWithout_scalarWithout s)

theorem lookup_membersWithout (k : Text) (ms : List (Text × Value)) :
    (membersWithout S ms).lookup k =
      if staysWithout S k then
        (ms.lookup k).map fun v => operandWithout S k v (valueWithout S v)
      else none := by
  rw [membersWithout_eq, lookup_map_values fun k v => operandWithout S k v (valueWithout S v)]
  cases hk : staysWithout S k with
  | true => rw [lookup_filter hk, if_pos rfl]
  | false => rw [lookup_filter_of_not hk, Option.map_none, if_neg Bool.false_ne_true]

theorem Ascending.membersWithout {ms : List (Text × Value)} (h : Ascending ms) :
    Ascending (membersWithout S ms) := by
  rw [membersWithout_eq]
  exact List.pairwise_map.mpr (h.filter _)

theorem membersWithout_reorder (ms : List (Text × Value)) :
    membersWithout S (reorder ms) = reorder (membersWithout S ms) := by
  have hasc : Ascending (membersWithout S (reorder ms)) := (ascending_reorder ms).membersWithout
  refine hasc.ext (ascending_reorder _) fun m => ?_
  rw [← hasc.lookup_eq_some, mem_reorder, lookup_membersWithout, lookup_membersWithout,
    lookup_reorder]
  cases namesField m.1 <;> simp

theorem valueWithout_reorderFields (v : Value) :
    valueWithout S (reorderFields v) = reorderFields (valueWithout S v) := by
  cases v with
  | object ms => exact congrArg Value.object (membersWithout_reorder ms)
  | array | elided | scalar => rfl

theorem reorderFields_reorderFields (v : Value) :
    reorderFields (reorderFields v) = reorderFields v := by
  cases v with
  | object ms => exact congrArg Value.object (reorder_reorder ms)
  | array | elided | scalar => rfl

theorem without_without (v : Value) : without S (without T v) = without (S ∪ T) v := by
  by_cases hS : .order ∈ S <;> by_cases hT : .order ∈ T <;>
    simp [without, hS, hT, valueWithout_reorderFields, valueWithout_valueWithout,
      reorderFields_reorderFields]

end

theorem truncateEnumerations_eq (v : Value) :
    truncateEnumerations v = valueWithout {.enumeration} v := by
  apply eq_valueWithout
  · intro ms
    have hunder : ∀ k v w, (if isEnumerationKey k then elideOperand? v else none).getD w =
        operandWithout {.enumeration} k v w := by
      intro k v w
      cases hk : isEnumerationKey k <;> simp [operandWithout, hk]
    rw [truncateEnumerations, truncateMembers_eq]
    simp [staysWithout, hunder]
  · intro vs
    rw [truncateEnumerations, truncateItems_eq]
  · rfl
  · intro s
    cases s <;> rfl

theorem redactRegexes_eq (v : Value) : redactRegexes v = valueWithout {.pattern} v := by
  apply eq_valueWithout
  · intro ms
    rw [redactRegexes, redactMembers_eq]
    simp [staysWithout, operandWithout]
  · intro vs
    rw [redactRegexes, redactItems_eq]
  · rfl
  · intro s
    cases s <;> rfl

theorem stripRouting_eq (v : Value) : stripRouting v = valueWithout {.routing} v := by
  apply eq_valueWithout
  · intro ms
    rw [stripRouting, stripMembers_eq]
    simp [staysWithout, operandWithout, kept]
  · intro vs
    rw [stripRouting, stripItems_eq]
  · rfl
  · intro s
    cases s <;> rfl

theorem mapScalars_eq {S : Finset Detail} {f : Scalar → Scalar}
    (hS : .enumeration ∉ S ∧ .pattern ∉ S ∧ .routing ∉ S) (hf : ∀ s, f s = scalarWithout S s)
    (v : Value) : v.mapScalars f = valueWithout S v := by
  obtain ⟨henumeration, hpattern, hrouting⟩ := hS
  apply eq_valueWithout
  · intro ms
    rw [Value.mapScalars, mapMembers_eq]
    simp [staysWithout, operandWithout, henumeration, hpattern, hrouting]
  · intro vs
    rw [Value.mapScalars, mapItems_eq]
  · rfl
  · intro s
    rw [Value.mapScalars, hf]

theorem valueWithout_eq_self {S : Finset Detail} (hS : S ⊆ {.order}) (v : Value) :
    valueWithout S v = v := by
  have hd : ∀ d, d ≠ .order → d ∉ S := fun d hne hd => hne (Finset.mem_singleton.mp (hS hd))
  refine (eq_valueWithout S (f := id) ?_ ?_ rfl ?_ v).symm
  · intro ms
    simp [staysWithout, operandWithout, hd]
  · intro vs
    rw [List.map_id, id_eq]
  · intro s
    cases s <;> simp [scalarWithout, hd]

theorem Detail.forget_eq (d : Detail) (v : Value) : d.forget v = without {d} v := by
  cases d with
  | enumeration => exact truncateEnumerations_eq v
  | pattern => exact redactRegexes_eq v
  | literal => exact mapScalars_eq (by decide) (fun s => by cases s <;> rfl) v
  | routing => exact stripRouting_eq v
  | handle => exact mapScalars_eq (by decide) (fun s => by cases s <;> rfl) v
  | order =>
      rw [without, if_pos (Finset.mem_singleton_self _), valueWithout_eq_self (Finset.Subset.refl _)]
      rfl

/-- The result tells which steps were taken, but neither their order nor how often. -/
theorem forgetAll_eq (ds : List Detail) (v : Value) : forgetAll ds v = without ds.toFinset v := by
  induction ds generalizing v with
  | nil => exact (valueWithout_eq_self (Finset.empty_subset _) v).symm
  | cons d ds ih =>
      have hstep : forgetAll (d :: ds) v = forgetAll ds (d.forget v) := rfl
      rw [hstep, ih, d.forget_eq, without_without, List.toFinset_cons, Finset.insert_eq,
        Finset.union_comm]

/-- Each step is a projection, any two of them commute, and a shape is made by all of them in
any order and with any repetition. -/
theorem forget_in_any_order :
    (∀ (d : Detail) (v : Value), d.forget (d.forget v) = d.forget v) ∧
    (∀ (d e : Detail) (v : Value), d.forget (e.forget v) = e.forget (d.forget v)) ∧
    ∀ (ds : List Detail) (v : Value), (∀ d, d ∈ ds) →
      forgetAll ds v = reorderFields (normalizeValues v) := by
  refine ⟨fun d v => ?_, fun d e v => ?_, fun ds v hds => ?_⟩
  · simp only [Detail.forget_eq, without_without, Finset.union_self]
  · simp only [Detail.forget_eq, without_without, Finset.union_comm]
  · let inTurn : List Detail := [.enumeration, .pattern, .literal, .routing, .handle, .order]
    have hshape : reorderFields (normalizeValues v) = forgetAll inTurn v := rfl
    have hsame : ds.toFinset = inTurn.toFinset := by
      ext d
      have hturn : d ∈ inTurn := by cases d <;> decide
      rw [List.mem_toFinset, List.mem_toFinset, iff_true_right hturn]
      exact hds d
    rw [hshape, forgetAll_eq, forgetAll_eq, hsame]

theorem forget_in_any_order_reversed :
    let ds : List Detail := [.order, .handle, .routing, .literal, .order, .pattern, .enumeration]
    let v : Value := .object [("b".toList, .object [("$in".toList, .array [.elided]),
      ("$regex".toList, .scalar .placeholder), ("shardVersion".toList, .scalar .redacted)]),
      ("$or".toList, .elided), ("a".toList, .scalar (.handle [])), ("b".toList, .elided)]
    (∀ d, d ∈ ds) ∧ forgetAll ds v = reorderFields (normalizeValues v) := by
  intro ds v
  have hds : ∀ d, d ∈ ds := fun d => by cases d <;> decide
  exact ⟨hds, forget_in_any_order.2.2 ds v hds⟩

end SlowQuery.Shape
