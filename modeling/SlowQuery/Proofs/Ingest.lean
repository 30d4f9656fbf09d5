import SlowQuery.Proofs.Groups

namespace SlowQuery.Run

open Time

def Options.admits (options : Options) (line : Text) : Bool :=
  !options.collscanOnly || decide (Record.scanType line = Record.collectionScan)

/-- The sample of a line, if the line is a record that the options let through, and the filter of
its operation is found and can be read. -/
def sample? (options : Options) (line : Text) : Option Sample := do
  let r ← Record.Line.read? line
  let scan := Record.scanType line
  if options.admits line then
    let query ← Record.Query.extract? r.operation r.ns r.body scan
    let shape ← (Shape.canonicalize query.filter).toOption
    pure
      { key := ⟨query.verb.name, shape ++ query.stages, scan⟩
        ns := r.ns
        millis := r.millis
        index := Record.indexUsed line scan
        instant := Instant.read? r.timestamp }
  else none

def samples (options : Options) (lines : List Text) : List Sample := lines.filterMap (sample? options)

def instants (options : Options) (lines : List Text) : List Instant :=
  (samples options lines).filterMap (·.instant)

def isRecord (line : Text) : Bool := (Record.Line.read? line).isSome

def isSkipped (options : Options) (line : Text) : Bool :=
  isRecord line && options.admits line && (sample? options line).isNone

/-- The first of some instants in an order; none where there are no instants. -/
def IsFirst (lt : Instant → Instant → Bool) (is : List Instant) : Option Instant → Prop
  | none => is = []
  | some i => i ∈ is ∧ ∀ j ∈ is, lt j i = false

/-- What a state says of the lines that it has taken in. Counters have 64 bits. -/
structure Accounts (options : Options) (lines : List Text) (s : State) : Prop where
  same : s.options = options
  table : Grouped (samples options lines) s.table
  matched : s.matched.toNat = lines.countP isRecord % 2 ^ 64
  aggregated : s.aggregated.toNat = (samples options lines).length % 2 ^ 64
  skipped : s.skipped.toNat = lines.countP (isSkipped options) % 2 ^ 64
  start : IsFirst (fun i j => i.before j) (instants options lines) s.start
  stop : IsFirst (fun i j => j.before i) (instants options lines) s.stop

theorem before_iff {i j : Instant} :
    i.before j = true ↔ i.seconds < j.seconds ∨ i.seconds = j.seconds ∧ i.nanos < j.nanos := by
  simp [Instant.before]

theorem before_self (i : Instant) : i.before i = false := by
  rw [Bool.eq_false_iff, ne_eq, before_iff]
  omega

theorem before_trans {i j k : Instant} (hij : i.before j = true) (hjk : j.before k = true) :
    i.before k = true := by
  rw [before_iff] at *
  omega

section

variable {lt : Instant → Instant → Bool} {is : List Instant} {o : Option Instant}

theorem IsFirst.add (h : IsFirst lt is o) (hself : ∀ i, lt i i = false)
    (htrans : ∀ {i j k}, lt i j = true → lt j k = true → lt i k = true)
    (i : Instant) : IsFirst lt (is ++ [i]) (some ((o.map fun j => if lt i j then i else j).getD i)) := by
  cases o with
  | none =>
      refine ⟨List.mem_concat_self, fun j hj => ?_⟩
      rw [show is = [] from h] at hj
      rw [List.mem_singleton.mp hj]
      exact hself i
  | some k =>
      obtain ⟨hk, hle⟩ := h
      rw [Option.map_some, Option.getD_some]
      split
      next hlt =>
        refine ⟨List.mem_concat_self, fun j hj => ?_⟩
        rcases List.mem_append.mp hj with hj | hj
        · rw [Bool.eq_false_iff]
          intro hji
          exact Bool.eq_false_iff.mp (hle j hj) (htrans hji hlt)
        · rw [List.mem_singleton.mp hj]
          exact hself i
      next hlt =>
        refine ⟨List.mem_append_left _ hk, fun j hj => ?_⟩
        rcases List.mem_append.mp hj with hj | hj
        · exact hle j hj
        · rw [List.mem_singleton.mp hj]
          exact Bool.eq_false_iff.mpr hlt

end

theorem sample?_eq (options : Options) (line : Text) :
    sample? options line = (Record.Line.read? line).bind fun r =>
      if options.admits line then Sample.of? line r else none := rfl

theorem ingest_of_no_record {line : Text} (h : isRecord line = false) (s : State) :
    s.ingest line = s := by
  rw [isRecord, Option.isSome_eq_false_iff, Option.isNone_iff_eq_none] at h
  rw [State.ingest, h]

theorem admits_eq (options : Options) (line : Text) :
    options.admits line =
      !(options.collscanOnly && decide (Record.scanType line ≠ Record.collectionScan)) := by
  simp [Options.admits]

section

variable {line : Text} {s : State}

theorem ingest_of_not_admitted (hr : isRecord line = true) (ha : s.options.admits line = false) :
    s.ingest line = { s with matched := s.matched + 1 } := by
  obtain ⟨r, hr⟩ := Option.isSome_iff_exists.mp hr
  rw [admits_eq, Bool.not_eq_false'] at ha
  simp only [State.ingest, hr, ha, if_true]

theorem ingest_of_admitted (hr : isRecord line = true) (ha : s.options.admits line = true) :
    s.ingest line =
      match sample? s.options line with
      | none => { s with matched := s.matched + 1, skipped := s.skipped + 1 }
      | some x => { s with matched := s.matched + 1 }.count line x := by
  obtain ⟨r, hr⟩ := Option.isSome_iff_exists.mp hr
  rw [sample?_eq, hr, Option.bind_some, if_pos ha]
  rw [admits_eq, Bool.not_eq_true'] at ha
  cases hx : Sample.of? line r <;>
    simp only [State.ingest, hr, ha, hx, Bool.false_eq_true, if_false]

end

theorem sample?_of_no_record {line : Text} (h : isRecord line = false) (options : Options) :
    sample? options line = none := by
  rw [isRecord, Option.isSome_eq_false_iff, Option.isNone_iff_eq_none] at h
  rw [sample?_eq, h, Option.bind_none]

theorem sample?_of_not_admitted {options : Options} {line : Text}
    (h : options.admits line = false) : sample? options line = none := by
  simp [sample?_eq, h]

theorem ingest_eq (s : State) (line : Text) :
    s.ingest line =
      let m := if isRecord line then s.matched + 1 else s.matched
      match sample? s.options line with
      | none =>
        { s with matched := m, skipped := if isSkipped s.options line then s.skipped + 1 else s.skipped }
      | some x => { s with matched := m }.count line x := by
  cases hr : isRecord line with
  | false =>
      rw [ingest_of_no_record hr, sample?_of_no_record hr]
      simp [isSkipped, hr]
  | true =>
      cases ha : s.options.admits line with
      | false =>
          rw [ingest_of_not_admitted hr ha, sample?_of_not_admitted ha]
          simp [isSkipped, ha]
      | true =>
          rw [ingest_of_admitted hr ha]
          cases hx : sample? s.options line <;> simp [isSkipped, hr, ha, hx]

section

variable {options : Options} {ls : List Text} {s : State}

theorem samples_append (l : Text) :
    samples options (ls ++ [l]) = samples options ls ++ (sample? options l).toList := by
  rw [samples, samples, List.filterMap_append]
  cases h : sample? options l <;> simp [h]

theorem toNat_add_one {n : UInt64} {k : Nat} (h : n.toNat = k % 2 ^ 64) :
    (n + 1).toNat = (k + 1) % 2 ^ 64 := by
  rw [UInt64.toNat_add, h]
  simp

theorem toNat_countP {p : Text → Bool} {n : UInt64} (h : n.toNat = ls.countP p % 2 ^ 64)
    (l : Text) : (if p l then n + 1 else n).toNat = (ls ++ [l]).countP p % 2 ^ 64 := by
  rw [List.countP_append, List.countP_singleton]
  cases p l with
  | false => exact h
  | true => exact toNat_add_one h

theorem Accounts.pass (h : Accounts options ls s) {l : Text} (hl : sample? options l = none)
    {m k : UInt64} (hm : m.toNat = (ls ++ [l]).countP isRecord % 2 ^ 64)
    (hk : k.toNat = (ls ++ [l]).countP (isSkipped options) % 2 ^ 64) :
    Accounts options (ls ++ [l]) { s with matched := m, skipped := k } := by
  have hsamples : samples options (ls ++ [l]) = samples options ls := by
    rw [samples_append, hl]
    exact List.append_nil _
  have hinstants : instants options (ls ++ [l]) = instants options ls := by
    rw [instants, hsamples, instants]
  constructor
  · exact h.same
  · exact hsamples ▸ h.table
  · exact hm
  · exact hsamples ▸ h.aggregated
  · exact hk
  · exact hinstants ▸ h.start
  · exact hinstants ▸ h.stop

theorem Accounts.count (h : Accounts options ls s) {l : Text} {x : Sample}
    (hl : sample? options l = some x) {m : UInt64}
    (hm : m.toNat = (ls ++ [l]).countP isRecord % 2 ^ 64) :
    Accounts options (ls ++ [l]) ({ s with matched := m }.count l x) := by
  have hsamples : samples options (ls ++ [l]) = samples options ls ++ [x] := by
    rw [samples_append, hl]
    rfl
  have hinstants : instants options (ls ++ [l]) = instants options ls ++ x.instant.toList := by
    rw [instants, hsamples, List.filterMap_append, instants]
    cases hx : x.instant <;> simp [hx]
  constructor
  · exact h.same
  · rw [hsamples]
    exact h.table.add x
  · exact hm
  · rw [hsamples, List.length_append, List.length_singleton]
    exact toNat_add_one h.aggregated
  · have hskip : isSkipped options l = false := by simp [isSkipped, hl]
    rw [List.countP_append, List.countP_singleton, hskip]
    exact h.skipped
  · rw [hinstants]
    cases hi : x.instant with
    | none => simpa [State.count, hi] using h.start
    | some i =>
        simp only [State.count, hi]
        exact h.start.add before_self before_trans i
  · rw [hinstants]
    cases hi : x.instant with
    | none => simpa [State.count, hi] using h.stop
    | some i =>
        simp only [State.count, hi]
        exact h.stop.add before_self (fun hji hkj => before_trans hkj hji) i

/-- A further line leaves the state with what it should say of the lines through that one. -/
theorem Accounts.ingest (h : Accounts options ls s) (l : Text) :
    Accounts options (ls ++ [l]) (s.ingest l) := by
  have hm := toNat_countP h.matched l
  obtain rfl := h.same
  rw [ingest_eq]
  cases hx : sample? s.options l with
  | none => exact h.pass hx hm (toNat_countP h.skipped l)
  | some x => exact h.count hx hm

theorem accounts_new (options : Options) : Accounts options [] (State.new options) :=
  ⟨rfl, grouped_empty, rfl, rfl, rfl, rfl, rfl⟩

theorem Accounts.ingest_all (h : Accounts options ls s) (ms : List Text) :
    Accounts options (ls ++ ms) (ms.foldl State.ingest s) := by
  induction ms generalizing ls s with
  | nil => rwa [List.append_nil]
  | cons m ms ih =>
      rw [List.foldl_cons, List.append_cons]
      exact ih (h.ingest m)

end

/-- A run over the lines of a log is a grouping of its samples by shape. -/
theorem run_groups_samples (options : Options) (lines : List Text) :
    let s := lines.foldl State.ingest (State.new options)
    Accounts options lines s ∧
      ((samples options lines).length < 2 ^ 64 →
        (s.table.entries.map (·.count.toNat)).sum = s.aggregated.toNat) ∧
      ∀ total session,
        (s.finish total session).shapes.Perm s.table.entries ∧
        (s.finish total session).summary =
          { totalLines := total
            matchedLines := s.matched
            aggregatedLines := s.aggregated
            skippedLines := s.skipped
            startDate := s.start.map (·.text)
            endDate := s.stop.map (·.text) } := by
  have h : Accounts options lines (lines.foldl State.ingest (State.new options)) :=
    (accounts_new options).ingest_all lines
  refine ⟨h, fun hlen => ?_, fun total session => ⟨List.mergeSort_perm _ _, rfl⟩⟩
  rw [h.table.sum_counts hlen, h.aggregated, Nat.mod_eq_of_lt hlen]

theorem run_groups_samples_repeated :
    let record : Text :=
      "2024-05-01T10:00:00.000+0000 I COMMAND [conn1] command db.c command: ".toList ++
        "find \x7b find: \"c\", filter: \x7b a: 1 \x7d \x7d planSummary: COLLSCAN 5ms".toList
    let other : Text := "2024-05-01T10:00:01.000+0000 I NETWORK [conn2] end connection".toList
    let lines := [record, other, record]
    let s := lines.foldl State.ingest (State.new {})
    (samples {} lines).length = 2 ∧ Accounts {} lines s ∧
      (s.table.entries.map (·.count.toNat)).sum = 2 ∧
      (s.finish 3 {}).shapes.Perm s.table.entries := by
  intro record other lines
  obtain ⟨haccounts, hcounts, hfinish⟩ := run_groups_samples {} lines
  have hsamples : (samples {} lines).length = 2 := by decide +kernel
  have hsum := hcounts (by rw [hsamples]; decide)
  rw [haccounts.aggregated, hsamples] at hsum
  exact ⟨hsamples, haccounts, hsum, (hfinish 3 {}).1⟩

end SlowQuery.Run
