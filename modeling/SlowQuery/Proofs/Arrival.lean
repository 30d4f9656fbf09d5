import SlowQuery.Proofs.Ingest
import SlowQuery.Proofs.Ranking
import SlowQuery.Proofs.SlowOps

namespace SlowQuery.Run

open Shape Time

section

variable {e f : Stats} {xs ys : List Sample} {t u : Table}

theorem Summarizes.figures_eq (he : Summarizes e xs) (hf : Summarizes f ys) (h : xs.Perm ys)
    (hk : e.key = f.key) : e.figures = f.figures := by
  have hcount : e.count = f.count := by
    apply UInt64.toNat_inj.mp
    rw [he.count, hf.count, h.length_eq]
  have htotal : e.total = f.total := by
    apply UInt64.toNat_inj.mp
    rw [he.total, hf.total, (h.map _).sum_eq]
  have hmax : e.max = f.max := by
    obtain ⟨⟨x, hx, hxe⟩, hle⟩ := he.max
    obtain ⟨⟨y, hy, hyf⟩, hle'⟩ := hf.max
    apply UInt64.le_antisymm
    · exact hxe ▸ hle' x (h.mem_iff.mp hx)
    · exact hyf ▸ hle y (h.mem_iff.mpr hy)
  have hmin : e.min = f.min := by
    obtain ⟨⟨x, hx, hxe⟩, hle⟩ := he.min
    obtain ⟨⟨y, hy, hyf⟩, hle'⟩ := hf.min
    apply UInt64.le_antisymm
    · exact hyf ▸ hle y (h.mem_iff.mpr hy)
    · exact hxe ▸ hle' x (h.mem_iff.mp hx)
  simp only [Stats.figures, hk, hcount, htotal, hmax, hmin]

theorem map_key_figures (es : List Stats) :
    (es.map Stats.figures).map (·.key) = es.map (·.key) := by
  rw [List.map_map]
  rfl

theorem Grouped.figures_subset (ht : Grouped xs t) (hu : Grouped ys u) (h : xs.Perm ys) :
    t.entries.map Stats.figures ⊆ u.entries.map Stats.figures := by
  intro s hs
  obtain ⟨e, he, rfl⟩ := List.mem_map.mp hs
  obtain ⟨x, hx, hxk⟩ := (ht.keys e.key).mp (List.mem_map_of_mem he)
  obtain ⟨f, hf, hfk⟩ := List.mem_map.mp ((hu.keys e.key).mpr ⟨x, h.mem_iff.mp hx, hxk⟩)
  have hgroup : (xs.filter (·.key = e.key)).Perm (ys.filter (·.key = f.key)) := by
    rw [hfk]
    exact h.filter _
  rw [(ht.stats e he).figures_eq (hu.stats f hf) hgroup hfk.symm]
  exact List.mem_map_of_mem hf

theorem Grouped.figures_perm (ht : Grouped xs t) (hu : Grouped ys u) (h : xs.Perm ys) :
    (t.entries.map Stats.figures).Perm (u.entries.map Stats.figures) := by
  have hnodup {zs : List Sample} {v : Table} (hv : Grouped zs v) :
      (v.entries.map Stats.figures).Nodup := by
    apply List.Nodup.of_map (·.key)
    rw [map_key_figures]
    exact hv.unique
  rw [List.perm_ext_iff_of_nodup (hnodup ht) (hnodup hu)]
  exact fun s => ⟨fun hs => ht.figures_subset hu h hs, fun hs => hu.figures_subset ht h.symm hs⟩

theorem Grouped.figures_sorted (ht : Grouped xs t) (hu : Grouped ys u) (h : xs.Perm ys) :
    t.sorted.map Stats.figures = u.sorted.map Stats.figures := by
  rw [Table.sorted, Table.sorted, figures_sortByAverage, figures_sortByAverage]
  apply sortByAverage_perm
  · rw [map_key_figures]
    exact ht.unique
  · exact ht.figures_perm hu h

theorem Grouped.count_pos (ht : Grouped xs t) (hxs : xs.length < 2 ^ 64) :
    ∀ e ∈ t.entries, 0 < e.count.toNat := by
  intro e he
  obtain ⟨x, hx, hxk⟩ := (ht.keys e.key).mp (List.mem_map_of_mem he)
  have hpos : 0 < (xs.filter (·.key = e.key)).length :=
    List.length_pos_of_mem (List.mem_filter.mpr ⟨hx, decide_eq_true hxk⟩)
  have hle : (xs.filter (·.key = e.key)).length ≤ xs.length := List.length_filter_le _ _
  rw [(ht.stats e he).count, Nat.mod_eq_of_lt (by omega)]
  exact hpos

end

theorem before_antisymm {i j : Instant} (hij : i.before j = false) (hji : j.before i = false) :
    i = j := by
  rw [Bool.eq_false_iff, ne_eq, before_iff] at hij hji
  cases i
  cases j
  simp only [Instant.mk.injEq]
  simp only at hij hji
  omega

theorem IsFirst.unique {lt : Instant → Instant → Bool} {is js : List Instant} {o p : Option Instant}
    (ho : IsFirst lt is o) (hp : IsFirst lt js p) (h : is.Perm js)
    (hlt : ∀ {i j}, lt i j = false → lt j i = false → i = j) : o = p := by
  cases o with
  | none =>
      cases p with
      | none => rfl
      | some j =>
          rw [show is = [] from ho] at h
          exact absurd (h.mem_iff.mpr hp.1) List.not_mem_nil
  | some i =>
      cases p with
      | none =>
          rw [show js = [] from hp] at h
          exact absurd (h.mem_iff.mp ho.1) List.not_mem_nil
      | some j =>
          rw [hlt (hp.2 i (h.mem_iff.mp ho.1)) (ho.2 j (h.mem_iff.mpr hp.1))]

def timedOps (options : Options) (lines : List Text) : List SlowOp :=
  lines.filterMap fun line => (sample? options line).map fun x => ⟨x.millis, line⟩

theorem timedOps_concat (options : Options) (lines : List Text) (line : Text) :
    timedOps options (lines ++ [line]) =
      timedOps options lines ++ ((sample? options line).map fun x => ⟨x.millis, line⟩).toList := by
  rw [timedOps, timedOps, List.filterMap_append]
  cases h : sample? options line <;> simp [h]

theorem slow_ingest (s : State) (line : Text) :
    (s.ingest line).slow =
      match sample? s.options line with
      | none => s.slow
      | some x => s.slow.add x.millis line := by
  rw [ingest_eq]
  cases sample? s.options line <;> rfl

theorem slow_ingest_all (options : Options) (lines : List Text) :
    (lines.foldl State.ingest (State.new options)).slow =
      ⟨SlowList.defaultCapacity,
        slowest SlowList.defaultCapacity.toNat (timedOps options lines)⟩ := by
  induction lines using List.reverseRecOn with
  | nil =>
      rw [timedOps, List.filterMap_nil, slowest_nil]
      rfl
  | append_singleton lines line ih =>
      have hsame := ((accounts_new options).ingest_all lines).same
      rw [List.foldl_append, List.foldl_cons, List.foldl_nil, slow_ingest, hsame, ih,
        timedOps_concat]
      cases sample? options line with
      | none => rw [Option.map_none, Option.toList_none, List.append_nil]
      | some x => exact add_slowest _ _ ⟨x.millis, line⟩

variable {options : Options} {lines lines' : List Text} {s s' : State}

theorem Accounts.summary_eq (hs : Accounts options lines s) (hs' : Accounts options lines' s')
    (h : lines.Perm lines') (total : UInt64) (session session' : Session) :
    (s.finish total session).summary = (s'.finish total session').summary := by
  have hsamples : (samples options lines).Perm (samples options lines') := h.filterMap _
  have hinstants : (instants options lines).Perm (instants options lines') := hsamples.filterMap _
  have hmatched : s.matched = s'.matched := by
    apply UInt64.toNat_inj.mp
    rw [hs.matched, hs'.matched, h.countP_eq]
  have haggregated : s.aggregated = s'.aggregated := by
    apply UInt64.toNat_inj.mp
    rw [hs.aggregated, hs'.aggregated, hsamples.length_eq]
  have hskipped : s.skipped = s'.skipped := by
    apply UInt64.toNat_inj.mp
    rw [hs.skipped, hs'.skipped, h.countP_eq]
  have hstart : s.start = s'.start := hs.start.unique hs'.start hinstants before_antisymm
  have hstop : s.stop = s'.stop :=
    hs.stop.unique hs'.stop hinstants fun hij hji => before_antisymm hji hij
  simp only [State.finish, hmatched, haggregated, hskipped, hstart, hstop]

/-- A run over the same lines in another order has the same result, up to the last namespace and
index of each shape, and lists the shapes in the one order that their averages and keys allow. -/
theorem run_reproducible (options : Options) (lines lines' : List Text) (h : lines.Perm lines') :
    let s := lines.foldl State.ingest (State.new options)
    let s' := lines'.foldl State.ingest (State.new options)
    (∀ total session session',
      let r := s.finish total session
      let r' := s'.finish total session'
      r.summary = r'.summary ∧
        r.slowOps.map (·.millis) = r'.slowOps.map (·.millis) ∧
        r.shapes.map Stats.figures = r'.shapes.map Stats.figures) ∧
      (∀ es, es.Perm s.table.entries → sortByAverage es = s.table.sorted) ∧
      s.table.sorted.Perm s.table.entries ∧
      (s.table.sorted.map (·.key)).Nodup ∧
      ((samples options lines).length < 2 ^ 64 →
        s.table.sorted.Pairwise fun a b =>
          b.average < a.average ∨ a.average = b.average ∧ a.key.bytes < b.key.bytes) := by
  have hs : Accounts options lines (lines.foldl State.ingest (State.new options)) :=
    (accounts_new options).ingest_all lines
  have hs' : Accounts options lines' (lines'.foldl State.ingest (State.new options)) :=
    (accounts_new options).ingest_all lines'
  have hsamples : (samples options lines).Perm (samples options lines') := h.filterMap _
  have hlisted (t : Table) : t.sorted.Perm t.entries := List.mergeSort_perm _ _
  refine ⟨fun total session session' => ⟨?_, ?_, ?_⟩, fun es hes => ?_, hlisted _, ?_,
    fun hlen => ?_⟩
  · exact hs.summary_eq hs' h total session session'
  · simp only [State.finish, slow_ingest_all]
    exact millis_slowest_perm (h.filterMap _) _
  · exact hs.table.figures_sorted hs'.table hsamples
  · exact sortByAverage_perm ((hes.map _).nodup_iff.mpr hs.table.unique) hes
  · exact ((hlisted _).map _).nodup_iff.mpr hs.table.unique
  · exact pairwise_sortByAverage hs.table.unique (hs.table.count_pos hlen)

theorem run_reproducible_swapped :
    let early : Text :=
      "2024-05-01T10:00:00.000+0000 I COMMAND [conn1] command db.c command: ".toList ++
        "find \x7b find: \"c\", filter: \x7b a: 1 \x7d \x7d planSummary: COLLSCAN 5ms".toList
    let late : Text :=
      "2024-05-01T10:00:01.000+0000 I COMMAND [conn2] command db.d command: ".toList ++
        "find \x7b find: \"d\", filter: \x7b b: 2 \x7d \x7d planSummary: COLLSCAN 7ms".toList
    let s := [early, late].foldl State.ingest (State.new {})
    let s' := [late, early].foldl State.ingest (State.new {})
    ((s.finish 2 {}).summary = (s'.finish 2 {}).summary ∧
        (s.finish 2 {}).slowOps.map (·.millis) = (s'.finish 2 {}).slowOps.map (·.millis) ∧
        (s.finish 2 {}).shapes.map Stats.figures = (s'.finish 2 {}).shapes.map Stats.figures) ∧
      sortByAverage s.table.entries.reverse = s.table.sorted ∧
      s.table.sorted.Perm s.table.entries ∧
      s.table.sorted.Pairwise fun a b =>
        b.average < a.average ∨ a.average = b.average ∧ a.key.bytes < b.key.bytes := by
  intro early late
  obtain ⟨hsame, hany, hlisted, -, hsorted⟩ :=
    run_reproducible {} [early, late] [late, early] (List.Perm.swap _ _ [])
  have hlen : (samples {} [early, late]).length < 2 ^ 64 := by
    have hle : (samples {} [early, late]).length ≤ 2 := List.length_filterMap_le _ _
    omega
  exact ⟨hsame 2 {} {}, hany _ (List.reverse_perm _), hlisted, hsorted hlen⟩

end SlowQuery.Run
