import SlowQuery.Proofs.Ingest
import SlowQuery.Proofs.Ranking
import Mathlib.Data.UInt

namespace SlowQuery.Run

open Shape

theorem isCollectionScan_add (e : Stats) (ns : Text) (millis : UInt64) (index : Text) :
    (e.add ns millis index).isCollectionScan = e.isCollectionScan := rfl

theorem isCollectionScan_first (key : Key) (ns : Text) (millis : UInt64) (index : Text) :
    (Stats.first key ns millis index).isCollectionScan =
      decide (key.scan = Record.collectionScan) := rfl

theorem filter_addTo (key : Key) (ns : Text) (millis : UInt64) (index : Text) (es : List Stats) :
    (Table.addTo key ns millis index es).filter Stats.isCollectionScan =
      if key.scan = Record.collectionScan then
        Table.addTo key ns millis index (es.filter Stats.isCollectionScan)
      else es.filter Stats.isCollectionScan := by
  induction es with
  | nil =>
      rw [Table.addTo, List.filter_cons, isCollectionScan_first, List.filter_nil, Table.addTo]
      simp
  | cons e es ih =>
      rw [Table.addTo]
      by_cases he : e.key = key
      · have hscan : e.isCollectionScan = decide (key.scan = Record.collectionScan) := by
          rw [Stats.isCollectionScan, he]
        rw [if_pos he, List.filter_cons, List.filter_cons, isCollectionScan_add, hscan]
        by_cases hk : key.scan = Record.collectionScan <;> simp [hk, Table.addTo, he]
      · rw [if_neg he, List.filter_cons, List.filter_cons, ih]
        by_cases hk : key.scan = Record.collectionScan <;> cases hscan : e.isCollectionScan <;>
          simp [hk, Table.addTo, he]

theorem sum_count_addTo (key : Key) (ns : Text) (millis : UInt64) (index : Text)
    (es : List Stats) :
    ((Table.addTo key ns millis index es).map (·.count)).sum = (es.map (·.count)).sum + 1 := by
  induction es with
  | nil => rfl
  | cons e es ih =>
      rw [Table.addTo, List.map_cons, List.sum_cons]
      split
      next => rw [List.map_cons, List.sum_cons]; exact add_right_comm _ _ _
      next => rw [List.map_cons, List.sum_cons, ih, add_assoc]

theorem scan_of_sample {line : Text} {r : Record.Line} {x : Sample} (h : Sample.of? line r = some x) :
    x.key.scan = Record.scanType line := by
  simp only [Sample.of?, Option.bind_eq_bind, Option.bind_eq_some_iff] at h
  obtain ⟨query, -, shape, -, hx⟩ := h
  rw [← Option.some.inj hx]

section

variable {options all : Options} {lines : List Text} {s full : State}

theorem sample?_restricted (ho : options.collscanOnly = true) (ha : all.collscanOnly = false)
    (line : Text) :
    sample? options line =
      (sample? all line).filter fun x => x.key.scan = Record.collectionScan := by
  have hall : all.admits line = true := by simp [Options.admits, ha]
  have honly : options.admits line = decide (Record.scanType line = Record.collectionScan) := by
    simp [Options.admits, ho]
  rw [sample?_eq, sample?_eq, hall, honly]
  cases Record.Line.read? line with
  | none => rfl
  | some r =>
      rw [Option.bind_some, Option.bind_some, if_pos rfl]
      cases hx : Sample.of? line r with
      | none => simp
      | some x =>
          rw [Option.filter_some, scan_of_sample hx]

/-- The first state has taken in the collection scans of the second. -/
structure Restricts (s full : State) : Prop where
  only : s.options.collscanOnly = true
  all : full.options.collscanOnly = false
  entries : s.table.entries = full.table.entries.filter Stats.isCollectionScan
  matched : s.matched = full.matched

theorem restricts_new (options : Options) :
    Restricts (State.new { options with collscanOnly := true })
      (State.new { options with collscanOnly := false }) :=
  ⟨rfl, rfl, rfl, rfl⟩

theorem Restricts.ingest (h : Restricts s full) (line : Text) :
    Restricts (s.ingest line) (full.ingest line) := by
  rw [ingest_eq, ingest_eq, sample?_restricted h.only h.all, h.matched]
  cases sample? full.options line with
  | none => exact ⟨h.only, h.all, h.entries, rfl⟩
  | some x =>
      have hentries := filter_addTo x.key x.ns x.millis x.index full.table.entries
      rw [Option.filter_some]
      by_cases hscan : x.key.scan = Record.collectionScan
      · rw [if_pos hscan, ← h.entries] at hentries
        simp only [hscan, decide_true, if_true]
        exact ⟨h.only, h.all, hentries.symm, rfl⟩
      · rw [if_neg hscan, ← h.entries] at hentries
        simp only [hscan, decide_false, Bool.false_eq_true, if_false]
        exact ⟨h.only, h.all, hentries.symm, rfl⟩

theorem Restricts.ingest_all (h : Restricts s full) (lines : List Text) :
    Restricts (lines.foldl State.ingest s) (lines.foldl State.ingest full) := by
  induction lines generalizing s full with
  | nil => exact h
  | cons line lines ih => exact ih (h.ingest line)

theorem aggregated_ingest (h : s.aggregated = (s.table.entries.map (·.count)).sum) (line : Text) :
    (s.ingest line).aggregated = ((s.ingest line).table.entries.map (·.count)).sum := by
  rw [ingest_eq]
  cases sample? s.options line with
  | none => exact h
  | some x => exact (congrArg (· + 1) h).trans (sum_count_addTo _ _ _ _ _).symm

theorem aggregated_ingest_all (options : Options) (lines : List Text) :
    let s := lines.foldl State.ingest (State.new options)
    s.aggregated = (s.table.entries.map (·.count)).sum := by
  induction lines using List.reverseRecOn with
  | nil => rfl
  | append_singleton lines line ih =>
      rw [List.foldl_append]
      exact aggregated_ingest ih line

end

/-- The report of a run over collection scans is what the full report says of collection scans.
Counters have 64 bits, and fewer lines than that do not exhaust them. -/
theorem report_of_scans (options : Options) (lines : List Text) (total : UInt64)
    (session : Session) :
    let report (only : Bool) : Result :=
      (lines.foldl State.ingest (State.new { options with collscanOnly := only })).finish total session
    let scans := (report false).shapes.filter Stats.isCollectionScan
    (report true).shapes = scans ∧
      (report true).summary.matchedLines = (report false).summary.matchedLines ∧
      (report true).summary.aggregatedLines = (scans.map (·.count)).sum ∧
      (lines.length < 2 ^ 64 →
        (report true).summary.aggregatedLines.toNat = (scans.map (·.count.toNat)).sum) := by
  intro report scans
  have h := (restricts_new options).ingest_all lines
  have hshapes : (report true).shapes = scans := by
    simp only [report, scans, State.finish, Table.sorted, sortByAverage, h.entries]
    exact (filter_mergeSort Stats.goesBefore_trans Stats.goesBefore_total _ _).symm
  refine ⟨hshapes, h.matched, ?_, fun hlen => ?_⟩
  · rw [← hshapes]
    exact (aggregated_ingest_all _ lines).trans ((List.mergeSort_perm _ _).map _).sum_eq.symm
  · rw [← hshapes]
    have hs := (accounts_new { options with collscanOnly := true }).ingest_all lines
    have hsamples : (samples { options with collscanOnly := true } lines).length < 2 ^ 64 :=
      Nat.lt_of_le_of_lt (List.length_filterMap_le _ _) hlen
    calc
      (report true).summary.aggregatedLines.toNat
          = (samples { options with collscanOnly := true } lines).length :=
            hs.aggregated.trans (Nat.mod_eq_of_lt hsamples)
      _ = _ := (hs.table.sum_counts hsamples).symm
      _ = _ := ((List.mergeSort_perm _ _).map _).sum_eq.symm

theorem report_of_scans_mixed :
    let scanned :=
      "2024-05-01T10:00:00.000+0000 I COMMAND [conn1] command db.c command: ".toList ++
        "find \x7b find: \"c\", filter: \x7b a: 1 \x7d \x7d planSummary: COLLSCAN 5ms".toList
    let indexed :=
      "2024-05-01T10:00:01.000+0000 I COMMAND [conn2] command db.c command: ".toList ++
        "find \x7b find: \"c\", filter: \x7b a: 2 \x7d \x7d planSummary: IXSCAN \x7b a: 1 \x7d 7ms".toList
    let report (only : Bool) : Result :=
      ([scanned, indexed].foldl State.ingest (State.new { collscanOnly := only })).finish 2 {}
    let scans := (report false).shapes.filter Stats.isCollectionScan
    (report true).shapes = scans ∧
      (report true).summary.aggregatedLines.toNat = (scans.map (·.count.toNat)).sum := by
  intro scanned indexed report scans
  have h := report_of_scans {} [scanned, indexed] 2 {}
  have hlen : [scanned, indexed].length < 2 ^ 64 := by decide
  exact ⟨h.1, h.2.2.2 hlen⟩

end SlowQuery.Run
