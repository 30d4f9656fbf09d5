import SlowQuery.Advice
import SlowQuery.Proofs.ByteOrder
import SlowQuery.Proofs.Markers
import Mathlib.Data.List.Forall2
import Mathlib.Data.List.Sigma

namespace SlowQuery.Advice

open Text

def Index.goesBefore (i j : Index) : Bool := atMost i.effectiveKey j.effectiveKey

/-- Whether the first index makes the second one superfluous. The numbers are their places in a
list: of two indexes with the same fields, the later one is enough. -/
def Covers (o i : Index × Nat) : Prop :=
  i.1.effectiveKey <+: o.1.effectiveKey ∧ (o.1.effectiveKey = i.1.effectiveKey → i.2 < o.2)

def Covered (es : List (Index × Nat)) (i : Index × Nat) : Prop := ∃ o ∈ es, Covers o i

instance (o i : Index × Nat) : Decidable (Covers o i) :=
  inferInstanceAs (Decidable (_ ∧ (_ → _)))

instance (es : List (Index × Nat)) (i : Index × Nat) : Decidable (Covered es i) :=
  inferInstanceAs (Decidable (∃ o ∈ es, Covers o i))

def Precedes (i j : Index × Nat) : Prop :=
  i.1.effectiveKey < j.1.effectiveKey ∨ i.1.effectiveKey = j.1.effectiveKey ∧ i.2 < j.2

/-- The indexes with their places, in the order in which they are reported. -/
def ranked (indexes : List Index) : List (Index × Nat) :=
  indexes.zipIdx.mergeSort (List.zipIdxLE Index.goesBefore)

def statusAmong (es : List (Index × Nat)) (i : Index × Nat) : Status :=
  if i.1.isShardKey then .shardKey
  else if i.1.keyText = idKey then .normal
  else if Covered es i then .redundant
  else if i.1.totalOps = 0 then .unused
  else .normal

def findingAmong (ns : Text) (es : List (Index × Nat)) (i : Index × Nat) : Finding :=
  { ns, name := i.1.name, key := i.1.keyText, status := statusAmong es i, totalOps := i.1.totalOps }

variable {ns : Text} {indexes : List Index} {es fs : List (Index × Nat)} {i j o w : Index × Nat}

theorem Index.goesBefore_trans (a b c : Index) (hab : a.goesBefore b = true)
    (hbc : b.goesBefore c = true) : a.goesBefore c = true := by
  rw [goesBefore, atMost_iff] at *
  exact List.not_lt.mpr (List.le_trans (List.not_lt.mp hab) (List.not_lt.mp hbc))

theorem Index.goesBefore_total (a b : Index) : (a.goesBefore b || b.goesBefore a) = true := by
  rw [goesBefore, goesBefore, Bool.or_eq_true, atMost_iff, atMost_iff]
  exact (List.le_total _ _).imp List.not_lt.mpr List.not_lt.mpr

theorem Precedes.not_lt (h : Precedes i j) : ¬j.1.effectiveKey < i.1.effectiveKey := by
  rcases h with hlt | ⟨heq, -⟩
  · exact List.lt_asymm hlt
  · exact heq ▸ List.lt_irrefl _

theorem Precedes.not_covers (h : Precedes i j) : ¬Covers i j := by
  rintro ⟨hpre, hlater⟩
  rcases h with hlt | ⟨heq, hplace⟩
  · exact List.not_lt.mpr hpre.le hlt
  · exact absurd hplace (Nat.lt_asymm (hlater heq))

theorem Precedes.covers_iff (h : Precedes i j) :
    Covers j i ↔ i.1.effectiveKey <+: j.1.effectiveKey := by
  refine ⟨And.left, fun hpre => ⟨hpre, fun heq => ?_⟩⟩
  rcases h with hlt | ⟨-, hplace⟩
  · exact absurd (heq ▸ hlt) (List.lt_irrefl _)
  · exact hplace

theorem not_covers_self (i : Index × Nat) : ¬Covers i i := fun h => Nat.lt_irrefl _ (h.2 rfl)

theorem Covers.trans (h : Covers o i) (h' : Covers w o) : Covers w i := by
  refine ⟨h.1.trans h'.1, fun heq => ?_⟩
  have hoi : o.1.effectiveKey = i.1.effectiveKey :=
    (heq ▸ h'.1).eq_of_length_le h.1.length_le
  exact Nat.lt_trans (h.2 hoi) (h'.2 (heq.trans hoi.symm))

theorem statusAmong_redundant_iff :
    statusAmong es i = .redundant ↔
      i.1.isShardKey = false ∧ i.1.keyText ≠ idKey ∧ Covered es i := by
  rw [statusAmong]
  split_ifs with hshard hid hcov hops <;> simp [*]

theorem statusAmong_kept_iff :
    (statusAmong es i = .normal ∨ statusAmong es i = .shardKey) ↔
      i.1.isShardKey = true ∨ i.1.keyText = idKey ∨ 0 < i.1.totalOps ∧ ¬Covered es i := by
  rw [statusAmong]
  split_ifs with hshard hid hcov hops <;> simp [*, UInt64.pos_iff_ne_zero]

theorem covered_perm (h : es.Perm fs) : Covered es i ↔ Covered fs i := by
  simp only [Covered, h.mem_iff]

theorem statusAmong_perm (h : es.Perm fs) (i : Index × Nat) :
    statusAmong es i = statusAmong fs i :=
  if_congr Iff.rfl rfl (if_congr Iff.rfl rfl (if_congr (covered_perm h) rfl rfl))

theorem ranked_perm (indexes : List Index) : (ranked indexes).Perm indexes.zipIdx :=
  List.mergeSort_perm _ _

theorem ranked_fst (indexes : List Index) :
    (ranked indexes).map Prod.fst = indexes.mergeSort Index.goesBefore :=
  List.mergeSort_zipIdx

theorem pairwise_ranked (indexes : List Index) : (ranked indexes).Pairwise Precedes := by
  have hsorted := List.pairwise_mergeSort (List.zipIdxLE_trans Index.goesBefore_trans)
    (List.zipIdxLE_total Index.goesBefore_total) indexes.zipIdx
  have hplaces : (ranked indexes).Pairwise fun a b => a.2 ≠ b.2 :=
    List.pairwise_map.mp
      (((ranked_perm indexes).map Prod.snd).nodup_iff.mpr (List.nodup_zipIdx_map_snd _))
  refine (hsorted.and hplaces).imp fun {a b} ⟨hle, hne⟩ => ?_
  simp only [List.zipIdxLE, Index.goesBefore, atMost_iff] at hle
  split at hle
  next hab =>
      rcases List.le_iff_lt_or_eq.mp (List.not_lt.mp hab) with hlt | heq
      · exact .inl hlt
      · rw [if_pos (heq ▸ List.lt_irrefl _), decide_eq_true_eq] at hle
        exact .inr ⟨heq, Nat.lt_of_le_of_ne hle hne⟩
  next => cases hle

theorem covered_cons (h : ¬Covers j i) : Covered (j :: es) i ↔ Covered es i := by
  simp [Covered, h]

theorem covered_append (h : ∀ j ∈ es, ¬Covers j i) : Covered (es ++ fs) i ↔ Covered fs i := by
  induction es with
  | nil => rfl
  | cons j es ih =>
      obtain ⟨hj, hes⟩ := List.forall_mem_cons.mp h
      rw [List.cons_append, covered_cons hj, ih hes]

/-- What covers an index stands behind it, and what stands between the two covers it as well. -/
theorem covered_iff (h : (es ++ i :: fs).Pairwise Precedes) :
    Covered (es ++ i :: fs) i ↔ ∃ n ∈ fs.head?, i.1.effectiveKey <+: n.1.effectiveKey := by
  obtain ⟨-, hrest, hbefore⟩ := List.pairwise_append.mp h
  obtain ⟨hafter, hfs⟩ := List.pairwise_cons.mp hrest
  rw [covered_append fun j hj => (hbefore j hj i List.mem_cons_self).not_covers,
    covered_cons (not_covers_self i)]
  constructor
  · rintro ⟨o, ho, hcov⟩
    cases fs with
    | nil => cases ho
    | cons n fs =>
        refine ⟨n, rfl, ?_⟩
        rcases List.mem_cons.mp ho with rfl | ho
        · exact hcov.1
        · have hno := (List.pairwise_cons.mp hfs).1 o ho
          exact prefix_of_between hcov.1 (hafter n List.mem_cons_self).not_lt hno.not_lt
  · rintro ⟨n, hn, hpre⟩
    have hn := List.mem_of_mem_head? hn
    exact ⟨n, hn, (hafter n hn).covers_iff.mpr hpre⟩

theorem statusOf_head (h : (es ++ i :: fs).Pairwise Precedes) :
    statusOf i.1 (fs.map Prod.fst).head? = statusAmong (es ++ i :: fs) i := by
  have hnext : (fs.map Prod.fst).head?.any
      (fun n => startsWith i.1.effectiveKey n.effectiveKey) = true ↔
      Covered (es ++ i :: fs) i := by
    rw [covered_iff h]
    cases fs <;> simp [Payload.startsWith_iff]
  rw [statusOf, statusAmong]
  simp only [hnext]

theorem findings_eq (h : (es ++ fs).Pairwise Precedes) :
    findings ns (fs.map Prod.fst) = fs.map (findingAmong ns (es ++ fs)) := by
  induction fs generalizing es with
  | nil => rfl
  | cons i fs ih =>
      have hmove : es ++ i :: fs = (es ++ [i]) ++ fs := List.append_cons es i fs
      rw [List.map_cons, findings, List.map_cons, findingOf, statusOf_head h, findingAmong, hmove,
        ih (hmove ▸ h)]

theorem assessIndexes_eq (ns : Text) (indexes : List Index) :
    assessIndexes ns indexes = (ranked indexes).map (findingAmong ns indexes.zipIdx) := by
  have hall : findingAmong ns (ranked indexes) = findingAmong ns indexes.zipIdx := by
    funext i
    rw [findingAmong, findingAmong, statusAmong_perm (ranked_perm indexes)]
  have h : ([] ++ ranked indexes).Pairwise Precedes := pairwise_ranked indexes
  have hsort : assessIndexes ns indexes = findings ns (indexes.mergeSort Index.goesBefore) := rfl
  rw [hsort, ← ranked_fst, findings_eq h, List.nil_append, hall]

/-- Each index is reported once, in the order of the keys as bytes and of places where these are
equal, and as redundant just if it may be dropped and another index of the list covers it. -/
theorem assessIndexes_exact (ns : Text) (indexes : List Index) :
    (ranked indexes).Perm indexes.zipIdx ∧
    (ranked indexes).Pairwise (fun a b =>
      Utf8.encode a.1.effectiveKey < Utf8.encode b.1.effectiveKey ∨
        a.1.effectiveKey = b.1.effectiveKey ∧ a.2 < b.2) ∧
    List.Forall₂ (fun (f : Finding) i =>
      f.ns = ns ∧ f.name = i.1.name ∧ f.key = i.1.keyText ∧ f.totalOps = i.1.totalOps ∧
        (f.status = .redundant ↔
          i.1.isShardKey = false ∧ i.1.keyText ≠ idKey ∧ ∃ o ∈ indexes.zipIdx, Covers o i))
      (assessIndexes ns indexes) (ranked indexes) := by
  refine ⟨ranked_perm indexes, ?_, ?_⟩
  · exact (pairwise_ranked indexes).imp (Or.imp_left Utf8.encode_lt_encode)
  · rw [assessIndexes_eq, List.forall₂_map_left_iff, List.forall₂_same]
    exact fun i _ => ⟨rfl, rfl, rfl, rfl, statusAmong_redundant_iff⟩

theorem exists_widest (h : es.Pairwise Precedes) (hi : i ∈ es) :
    ∃ w ∈ es, (w = i ∨ Covers w i) ∧ ¬Covered es w := by
  induction es generalizing i with
  | nil => cases hi
  | cons a es ih =>
      obtain ⟨ha, hes⟩ := List.pairwise_cons.mp h
      -- An earlier index covers none of the later ones, so these keep their widest.
      have hlater : ∀ j ∈ es, ∃ w ∈ a :: es, (w = j ∨ Covers w j) ∧ ¬Covered (a :: es) w := by
        intro j hj
        obtain ⟨w, hw, hwj, hfree⟩ := ih hes hj
        exact ⟨w, List.mem_cons_of_mem a hw, hwj, mt (covered_cons (ha w hw).not_covers).mp hfree⟩
      rcases List.mem_cons.mp hi with rfl | hi
      · by_cases hcov : Covered es i
        · obtain ⟨o, ho, hoi⟩ := hcov
          obtain ⟨w, hw, hwo, hfree⟩ := hlater o ho
          refine ⟨w, hw, .inr ?_, hfree⟩
          rcases hwo with rfl | hwo
          · exact hoi
          · exact hoi.trans hwo
        · exact ⟨i, List.mem_cons_self, .inl rfl, mt (covered_cons (not_covers_self i)).mp hcov⟩
      · exact hlater i hi

/-- An index that begins with the given key is left when all are dropped that are reported as
redundant or as unused. -/
def StaysCovered (ns : Text) (indexes : List Index) (key : Text) : Prop :=
  ∃ r ∈ (ranked indexes).zip (assessIndexes ns indexes),
    (r.2.status = .normal ∨ r.2.status = .shardKey) ∧ key <+: r.1.1.effectiveKey

theorem mem_reported {f : Finding} :
    (o, f) ∈ (ranked indexes).zip (assessIndexes ns indexes) ↔
      o ∈ indexes.zipIdx ∧ f = findingAmong ns indexes.zipIdx o := by
  rw [assessIndexes_eq, ← List.map_prod_left_eq_zip, List.mem_map, ← (ranked_perm indexes).mem_iff]
  simp only [Prod.mk.injEq]
  constructor
  · rintro ⟨o, ho, rfl, rfl⟩
    exact ⟨ho, rfl⟩
  · rintro ⟨ho, rfl⟩
    exact ⟨o, ho, rfl, rfl⟩

theorem staysCovered_iff {key : Text} :
    StaysCovered ns indexes key ↔
      ∃ o ∈ indexes.zipIdx, key <+: o.1.effectiveKey ∧
        (o.1.isShardKey = true ∨ o.1.keyText = idKey ∨
          0 < o.1.totalOps ∧ ¬Covered indexes.zipIdx o) := by
  constructor
  · rintro ⟨⟨o, f⟩, hr, hkept, hpre⟩
    obtain ⟨ho, rfl⟩ := mem_reported.mp hr
    exact ⟨o, ho, hpre, statusAmong_kept_iff.mp hkept⟩
  · rintro ⟨o, ho, hpre, hkept⟩
    exact ⟨(o, _), mem_reported.mpr ⟨ho, rfl⟩, statusAmong_kept_iff.mpr hkept, hpre⟩

def ascending (fields : List Text) (ops : UInt64) : Index where
  name := joinWith "_".toList (fields.map (· ++ "_1".toList))
  keys := fields.map (·, "1".toList)
  isShardKey := false
  accesses := [⟨"h".toList, ops⟩]

/-- A used index is dropped for a wider one that is dropped as well. -/
theorem idle_cover_dropped :
    0 < (ascending [['a']] 5).totalOps ∧
      ¬StaysCovered "db.c".toList [ascending [['a']] 5, ascending [['a'], ['b']] 0]
        (ascending [['a']] 5).effectiveKey := by
  rw [staysCovered_iff]
  decide

/-- Every used index stays covered unless what covers it is itself unused. It stays covered just
if an index that begins with its fields is never dropped, or is used and covered by no other. -/
theorem used_index_covered (hi : i ∈ indexes.zipIdx) (hu : 0 < i.1.totalOps) :
    (StaysCovered ns indexes i.1.effectiveKey ∨
      ∃ r ∈ (ranked indexes).zip (assessIndexes ns indexes),
        r.2.status = .unused ∧ r.1.1.totalOps = 0 ∧ Covers r.1 i) ∧
    (StaysCovered ns indexes i.1.effectiveKey ↔
      ∃ o ∈ indexes.zipIdx, i.1.effectiveKey <+: o.1.effectiveKey ∧
        (o.1.isShardKey = true ∨ o.1.keyText = idKey ∨
          0 < o.1.totalOps ∧ ¬∃ w ∈ indexes.zipIdx, Covers w o)) := by
  refine ⟨?_, staysCovered_iff⟩
  have hperm := ranked_perm indexes
  -- No other index covers the widest, so only a lack of use can have it dropped.
  obtain ⟨w, hw, hwi, hfree⟩ := exists_widest (pairwise_ranked indexes) (hperm.mem_iff.mpr hi)
  have hw := hperm.mem_iff.mp hw
  have hfree : ¬Covered indexes.zipIdx w := mt (covered_perm hperm).mpr hfree
  have hpre : i.1.effectiveKey <+: w.1.effectiveKey := by
    rcases hwi with rfl | hwi
    · exact List.prefix_rfl
    · exact hwi.1
  by_cases hkept : w.1.isShardKey = true ∨ w.1.keyText = idKey ∨ 0 < w.1.totalOps
  · left
    refine staysCovered_iff.mpr ⟨w, hw, hpre, ?_⟩
    exact hkept.imp_right (Or.imp_right fun hops => ⟨hops, hfree⟩)
  · right
    obtain ⟨hshard, hid, hops⟩ :
        w.1.isShardKey = false ∧ w.1.keyText ≠ idKey ∧ w.1.totalOps = 0 := by
      simpa using hkept
    refine ⟨(w, _), mem_reported.mpr ⟨hw, rfl⟩, ?_, hops, ?_⟩
    · simp [findingAmong, statusAmong, hshard, hid, hfree, hops]
    · rcases hwi with rfl | hwi
      · exact absurd hu (hops ▸ UInt64.lt_irrefl 0)
      · exact hwi

theorem used_index_covered_pair :
    0 < (ascending [['a']] 5).totalOps ∧
    StaysCovered "db.c".toList [ascending [['a']] 5, ascending [['a'], ['b']] 7]
      (ascending [['a']] 5).effectiveKey ∧
    ∃ r ∈ (ranked [ascending [['a']] 5, ascending [['a'], ['b']] 0]).zip
        (assessIndexes "db.c".toList [ascending [['a']] 5, ascending [['a'], ['b']] 0]),
      r.2.status = .unused ∧ r.1.1.totalOps = 0 ∧ Covers r.1 (ascending [['a']] 5, 0) := by
  have hu : 0 < (ascending [['a']] 5).totalOps := by decide
  have hi (n : UInt64) : (ascending [['a']] 5, 0) ∈
      [ascending [['a']] 5, ascending [['a'], ['b']] n].zipIdx := List.mem_cons_self
  have hlost : ¬StaysCovered "db.c".toList [ascending [['a']] 5, ascending [['a'], ['b']] 0]
      (ascending [['a']] 5).effectiveKey := by
    rw [staysCovered_iff]
    decide
  exact ⟨hu, (used_index_covered (hi 7) hu).2.mpr (by decide),
    (used_index_covered (hi 0) hu).1.resolve_left hlost⟩

end SlowQuery.Advice
