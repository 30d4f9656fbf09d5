import SlowQuery.Proofs.IndexCover
import SlowQuery.Proofs.Joining

namespace SlowQuery.Advice

open Text Payload

/-- How an index can order a field: up, down, or for one kind of search. -/
def directions : List Text :=
  ["1".toList, "-1".toList, "2d".toList, "2dsphere".toList, "text".toList, "hashed".toList]

def undirected (k : Text × Text) : Text × Text :=
  (k.1, if k.2 = "-1".toList then "1".toList else k.2)

namespace Index

structure WellFormed (i : Index) : Prop where
  ne : i.keys ≠ []
  fields : ∀ k ∈ i.keys, IsName k.1
  directions : ∀ k ∈ i.keys, k.2 ∈ directions

def pattern (i : Index) : List (Text × Text) := i.keys.map undirected

end Index

/-- The last of the fields has the kind `2d`, and the others have the kind `2dsphere` there. -/
def Mistaken (ks os : List (Text × Text)) : Prop :=
  ∃ front field, ks = front ++ [(field, "2d".toList)] ∧ front ++ [(field, "2dsphere".toList)] <+: os

def keyEntry (k : Text × Text) : Text := k.1 ++ ':' :: ' ' :: k.2

def laterEntries (ks : List (Text × Text)) : Text := ks.flatMap (", ".toList ++ keyEntry ·)

variable {ns : Text} {indexes : List Index} {i j : Index} {k o : Text × Text}
  {ks os : List (Text × Text)}

theorem keyText_eq (h : i.keys = k :: ks) :
    i.keyText = '{' :: ' ' :: (keyEntry k ++ laterEntries ks) ++ [' ', '}'] := by
  have hentry : (fun k : Text × Text => k.1 ++ ": ".toList ++ k.2) = keyEntry := by
    funext k
    rw [List.append_assoc]
    rfl
  have htext : i.keyText = "\x7b ".toList ++ joinWith ", ".toList
      (i.keys.map fun k => k.1 ++ ": ".toList ++ k.2) ++ " \x7d".toList := rfl
  rw [htext, hentry, h, List.map_cons, joinWith_cons, List.flatMap_map, laterEntries]
  rfl

theorem replaceFrom_entry (hk : IsName k.1) (hd : k.2 ∈ directions) (t : Text) :
    replaceFrom ": -1".toList ": 1".toList 0 (keyEntry k ++ t) =
      keyEntry (undirected k) ++ replaceFrom ": -1".toList ": 1".toList 0 t := by
  have hfield : Clear ": -1".toList k.1 (':' :: ' ' :: k.2 ++ t) :=
    clear_of_not_mem (colon_not_mem hk)
  rw [keyEntry, List.append_assoc, replaceFrom_clear hfield, keyEntry, List.append_assoc,
    undirected]
  by_cases hdown : k.2 = "-1".toList
  · rw [hdown, if_pos rfl]
    have hmarked : ": -1".toList ≠ [] := by decide
    exact congrArg (k.1 ++ ·) (replaceFrom_found hmarked t)
  · rw [if_neg hdown]
    have hclear : Clear ": -1".toList (':' :: ' ' :: k.2) t := by
      simp only [directions, List.mem_cons, List.not_mem_nil, or_false] at hd
      rcases hd with h | h | h | h | h | h
      · simp [h, Clear]
      · exact absurd h hdown
      all_goals simp [h, Clear]
    rw [replaceFrom_clear hclear]

theorem replaceFrom_later (hk : ∀ k ∈ ks, IsName k.1) (hd : ∀ k ∈ ks, k.2 ∈ directions) :
    replaceFrom ": -1".toList ": 1".toList 0 (laterEntries ks) =
      laterEntries (ks.map undirected) := by
  induction ks with
  | nil => rfl
  | cons k ks ih =>
      obtain ⟨hfield, hk⟩ := List.forall_mem_cons.mp hk
      obtain ⟨hdirection, hd⟩ := List.forall_mem_cons.mp hd
      have hcomma : Clear ": -1".toList ", ".toList (keyEntry k ++ laterEntries ks) :=
        clear_of_not_mem (by decide)
      simp only [laterEntries, List.flatMap_cons, List.map_cons, List.append_assoc] at ih hcomma ⊢
      rw [replaceFrom_clear hcomma, replaceFrom_entry hfield hdirection, ih hk hd]

theorem Index.WellFormed.exists_effectiveKey (h : i.WellFormed) :
    ∃ t, i.effectiveKey = '{' :: t ∧ laterEntries i.pattern = ',' :: t := by
  obtain ⟨hne, hfields, hdirections⟩ := h
  obtain ⟨k, ks, hkeys⟩ := List.exists_cons_of_ne_nil hne
  rw [hkeys] at hfields hdirections
  obtain ⟨hfield, hfields⟩ := List.forall_mem_cons.mp hfields
  obtain ⟨hdirection, hdirections⟩ := List.forall_mem_cons.mp hdirections
  have hopen : Clear ": -1".toList ['{', ' '] (keyEntry k ++ laterEntries ks) :=
    clear_of_not_mem (by decide)
  have hcut : i.keyText.take (i.keyText.length - 2) =
      ['{', ' '] ++ (keyEntry k ++ laterEntries ks) := by
    rw [keyText_eq hkeys, List.length_append]
    exact List.take_left
  refine ⟨' ' :: (keyEntry (undirected k) ++ laterEntries (ks.map undirected)), ?_, ?_⟩
  · rw [effectiveKey, hcut, replace, replaceFrom_clear hopen, replaceFrom_entry hfield hdirection,
      replaceFrom_later hfields hdirections]
    rfl
  · rw [pattern, hkeys]
    rfl

def kinds : List Text := directions.filter (· ≠ "-1".toList)

structure IsKey (k : Text × Text) : Prop where
  field : IsName k.1
  kind : k.2 ∈ kinds

theorem Index.WellFormed.isKey (h : i.WellFormed) (hk : k ∈ i.pattern) : IsKey k := by
  obtain ⟨x, hx, rfl⟩ := List.mem_map.mp hk
  refine ⟨h.fields x hx, ?_⟩
  have hd := h.directions x hx
  rw [undirected]
  split
  next => exact (by decide : "1".toList ∈ kinds)
  next hdown => exact List.mem_filter.mpr ⟨hd, decide_eq_true hdown⟩

theorem comma_not_mem_kind {kind : Text} (h : kind ∈ kinds) : ',' ∉ kind := by
  have hall : ∀ kind ∈ kinds, ',' ∉ kind := by decide
  exact hall kind h

theorem kind_prefix_iff {kind other : Text} (h : kind ∈ kinds) (h' : other ∈ kinds) :
    kind <+: other ↔ kind = other ∨ kind = "2d".toList ∧ other = "2dsphere".toList := by
  have hall : ∀ kind ∈ kinds, ∀ other ∈ kinds,
      kind <+: other ↔ kind = other ∨ kind = "2d".toList ∧ other = "2dsphere".toList := by decide
  exact hall kind h other h'

@[simp] theorem laterEntries_nil : laterEntries [] = [] := rfl

theorem laterEntries_cons (k : Text × Text) (ks : List (Text × Text)) :
    laterEntries (k :: ks) = ',' :: ' ' :: (keyEntry k ++ laterEntries ks) := rfl

theorem mistaken_cons_iff :
    Mistaken (k :: ks) (o :: os) ↔
      k.1 = o.1 ∧ ks = [] ∧ k.2 = "2d".toList ∧ o.2 = "2dsphere".toList ∨
        k = o ∧ Mistaken ks os := by
  constructor
  · rintro ⟨front, field, hk, ho⟩
    cases front with
    | nil =>
        obtain ⟨rfl, rfl⟩ := List.cons.inj hk
        obtain ⟨rfl, -⟩ := List.cons_prefix_cons.mp ho
        exact .inl ⟨rfl, rfl, rfl, rfl⟩
    | cons x front =>
        obtain ⟨rfl, rfl⟩ := List.cons.inj hk
        obtain ⟨rfl, hos⟩ := List.cons_prefix_cons.mp ho
        exact .inr ⟨rfl, front, field, rfl, hos⟩
  · rintro (⟨hfield, rfl, hk, ho⟩ | ⟨rfl, front, field, rfl, ho⟩)
    · refine ⟨[], k.1, congrArg (fun kind => [(k.1, kind)]) hk, ?_⟩
      exact List.cons_prefix_cons.mpr ⟨Prod.ext hfield ho.symm, List.nil_prefix⟩
    · exact ⟨k :: front, field, rfl, List.cons_prefix_cons.mpr ⟨rfl, ho⟩⟩

/-- Behind equal names, the kinds are told apart by the comma that follows them, and at the end by
nothing. -/
theorem kind_later_prefix_iff (hk : k.2 ∈ kinds) (ho : o.2 ∈ kinds) :
    k.2 ++ laterEntries ks <+: o.2 ++ laterEntries os ↔
      k.2 = o.2 ∧ laterEntries ks <+: laterEntries os ∨
        ks = [] ∧ k.2 = "2d".toList ∧ o.2 = "2dsphere".toList := by
  have hkc := comma_not_mem_kind hk
  have hoc := comma_not_mem_kind ho
  cases ks with
  | nil =>
      have hkind : k.2 <+: o.2 ++ laterEntries os ↔ k.2 <+: o.2 := by
        refine ⟨fun h => ?_, fun h => h.trans (List.prefix_append _ _)⟩
        cases os with
        | nil => rwa [laterEntries_nil, List.append_nil] at h
        | cons x os => exact prefix_of_not_mem hkc h
      rw [laterEntries_nil, List.append_nil, hkind, kind_prefix_iff hk ho]
      simp only [List.nil_prefix, and_true, true_and]
  | cons x ks =>
      rw [laterEntries_cons]
      simp only [reduceCtorEq, false_and, or_false]
      cases os with
      | nil =>
          rw [laterEntries_nil, List.append_nil, List.prefix_nil]
          refine iff_of_false (fun h => hoc (h.subset ?_)) fun h => by cases h.2
          exact List.mem_append_right _ List.mem_cons_self
      | cons y os =>
          rw [laterEntries_cons, prefix_split hkc hoc, eq_comm]
          simp only [List.cons_prefix_cons, true_and]

theorem entry_prefix_iff (hk : IsKey k) (ho : IsKey o) :
    keyEntry k ++ laterEntries ks <+: keyEntry o ++ laterEntries os ↔
      k.1 = o.1 ∧ (k.2 = o.2 ∧ laterEntries ks <+: laterEntries os ∨
        ks = [] ∧ k.2 = "2d".toList ∧ o.2 = "2dsphere".toList) := by
  simp only [keyEntry, List.append_assoc, List.cons_append]
  rw [prefix_split (colon_not_mem hk.field) (colon_not_mem ho.field), List.cons_prefix_cons,
    kind_later_prefix_iff hk.kind ho.kind, eq_comm]
  simp only [true_and]

theorem laterEntries_prefix_iff (hks : ∀ k ∈ ks, IsKey k) (hos : ∀ o ∈ os, IsKey o) :
    laterEntries ks <+: laterEntries os ↔ ks <+: os ∨ Mistaken ks os := by
  induction ks generalizing os with
  | nil => simp only [laterEntries_nil, List.nil_prefix, true_or]
  | cons k ks ih =>
      obtain ⟨hk, hks⟩ := List.forall_mem_cons.mp hks
      cases os with
      | nil =>
          have hnot : ¬Mistaken (k :: ks) [] := fun ⟨front, field, _, h⟩ =>
            List.concat_ne_nil _ front (List.prefix_nil.mp h)
          simp [laterEntries_cons, hnot]
      | cons o os =>
          obtain ⟨ho, hos⟩ := List.forall_mem_cons.mp hos
          rw [laterEntries_cons, laterEntries_cons, List.cons_prefix_cons, List.cons_prefix_cons,
            entry_prefix_iff hk ho, ih hks hos, List.cons_prefix_cons, mistaken_cons_iff,
            Prod.ext_iff]
          tauto

theorem Index.WellFormed.effectiveKey_prefix_iff (hi : i.WellFormed) (hj : j.WellFormed) :
    i.effectiveKey <+: j.effectiveKey ↔ i.pattern <+: j.pattern ∨ Mistaken i.pattern j.pattern := by
  obtain ⟨t, hit, hlt⟩ := hi.exists_effectiveKey
  obtain ⟨u, hju, hlu⟩ := hj.exists_effectiveKey
  have hlater := laterEntries_prefix_iff (fun _ => hi.isKey) fun _ => hj.isKey
  rw [hlt, hlu, List.cons_prefix_cons] at hlater
  rw [hit, hju, List.cons_prefix_cons]
  simpa only [true_and] using hlater

/-- The text of one index leads that of another just if its fields do in the same kinds, or do but
for a last `2d` where the other has `2dsphere`. What is reported as redundant is so in this sense. -/
theorem effectiveKey_prefix_exact (ns : Text) (hi : i.WellFormed) (hj : j.WellFormed)
    (hall : ∀ x ∈ indexes, x.WellFormed) :
    (i.effectiveKey <+: j.effectiveKey ↔
      i.pattern <+: j.pattern ∨ Mistaken i.pattern j.pattern) ∧
    ∀ r ∈ (ranked indexes).zip (assessIndexes ns indexes),
      r.2.status = .redundant ↔
        r.1.1.isShardKey = false ∧ r.1.1.keyText ≠ idKey ∧ ∃ o ∈ indexes.zipIdx,
          (r.1.1.pattern <+: o.1.pattern ∨ Mistaken r.1.1.pattern o.1.pattern) ∧
            (o.1.effectiveKey = r.1.1.effectiveKey → r.1.2 < o.2) := by
  refine ⟨hi.effectiveKey_prefix_iff hj, fun ⟨x, f⟩ hr => ?_⟩
  obtain ⟨hx, rfl⟩ := mem_reported.mp hr
  have hwell : ∀ o ∈ indexes.zipIdx, o.1.WellFormed := fun o ho =>
    hall o.1 (List.fst_mem_of_mem_zipIdx ho)
  rw [findingAmong, statusAmong_redundant_iff]
  refine and_congr_right fun _ => and_congr_right fun _ => exists_congr fun o =>
    and_congr_right fun ho => ?_
  rw [Covers, (hwell x hx).effectiveKey_prefix_iff (hwell o ho)]

def indexOf (kind : Text) (further : Option Text) : Index where
  name := "a_".toList ++ kind
  keys := (['a'], kind) :: further.toList.map (['b'], ·)
  isShardKey := false
  accesses := [⟨"h".toList, 5⟩]

theorem effectiveKey_prefix_descending :
    let up := indexOf "1".toList none
    let down := indexOf "-1".toList (some "text".toList)
    up.WellFormed ∧ down.WellFormed ∧ up.effectiveKey <+: down.effectiveKey ∧
      ∃ r ∈ (ranked [down, up]).zip (assessIndexes "db.c".toList [down, up]),
        r.1.1 = up ∧ r.2.status = .redundant := by
  intro up down
  have hup : up.WellFormed := ⟨by decide, by decide, by decide⟩
  have hdown : down.WellFormed := ⟨by decide, by decide, by decide⟩
  have hall : ∀ x ∈ [down, up], x.WellFormed := by simp [hup, hdown]
  obtain ⟨hleads, hstatus⟩ := effectiveKey_prefix_exact "db.c".toList hup hdown hall
  have hlead : up.pattern <+: down.pattern := by decide
  have hup' : (up, 1) ∈ [down, up].zipIdx := List.mem_cons_of_mem _ List.mem_cons_self
  have hreported : ((up, 1), findingAmong "db.c".toList [down, up].zipIdx (up, 1)) ∈
      (ranked [down, up]).zip (assessIndexes "db.c".toList [down, up]) :=
    mem_reported.mpr ⟨hup', rfl⟩
  refine ⟨hup, hdown, hleads.mpr (.inl hlead), _, hreported, rfl, (hstatus _ hreported).mpr ?_⟩
  exact ⟨rfl, by decide, (down, 0), List.mem_cons_self, .inl hlead, by decide⟩

/-- An index of points in the plane is reported as redundant for one of points on a sphere. -/
theorem plane_redundant_for_sphere :
    let plane := indexOf "2d".toList none
    let sphere := indexOf "2dsphere".toList none
    plane.WellFormed ∧ sphere.WellFormed ∧ plane.effectiveKey <+: sphere.effectiveKey ∧
      ¬plane.pattern <+: sphere.pattern ∧
      ∃ r ∈ (ranked [plane, sphere]).zip (assessIndexes "db.c".toList [plane, sphere]),
        r.1.1 = plane ∧ r.2.status = .redundant := by
  intro plane sphere
  have hplane : plane.WellFormed := ⟨by decide, by decide, by decide⟩
  have hsphere : sphere.WellFormed := ⟨by decide, by decide, by decide⟩
  have hplane' : (plane, 0) ∈ [plane, sphere].zipIdx := List.mem_cons_self
  have hreported : ((plane, 0), findingAmong "db.c".toList [plane, sphere].zipIdx (plane, 0)) ∈
      (ranked [plane, sphere]).zip (assessIndexes "db.c".toList [plane, sphere]) :=
    mem_reported.mpr ⟨hplane', rfl⟩
  have hstatus : statusAmong [plane, sphere].zipIdx (plane, 0) = .redundant := by decide
  exact ⟨hplane, hsphere, by decide, by decide, _, hreported, rfl, hstatus⟩

end SlowQuery.Advice
