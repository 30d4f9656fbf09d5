import SlowQuery.Proofs.FindCommand
import SlowQuery.Proofs.Ingest

namespace SlowQuery.Run

open Text Time Payload Record

def Sample.unindexed (x : Sample) : Sample := { x with index := [] }

theorem sample?_unindexed (options : Options) (line : Text) :
    (sample? options line).map Sample.unindexed = (Line.read? line).bind fun r =>
      if options.admits line then
        ((Query.extract? r.operation r.ns r.body (scanType line)).bind Query.shape?).map fun shape =>
          { key := ⟨shape.1, shape.2, scanType line⟩
            ns := r.ns
            millis := r.millis
            index := []
            instant := Instant.read? r.timestamp }
      else none := by
  rw [sample?_eq]
  cases Line.read? line with
  | none => rfl
  | some r =>
      simp only [Option.bind_some]
      split
      · rw [Sample.of?]
        cases Query.extract? r.operation r.ns r.body (scanType line) with
        | none => rfl
        | some q =>
            simp only [Option.bind_eq_bind, Option.bind_some, Query.shape?]
            cases (Shape.canonicalize q.filter).toOption <;> rfl
      · rfl

section

variable {r : FindRecord} {ms ms' : List (Text × Value)} {f f' : Text}
  (hr : r.WellFormed) (h : Retold (.value (.object ms)) (.value (.object ms')) f f')

include hr h

theorem isRecord_retold : isRecord (r.line f) = isRecord (r.line f') := by
  rw [isRecord, isRecord, hr.read?_line, hr.read?_line]
  cases duration? r.digits with
  | none => rfl
  | some millis =>
      simp only [Option.bind_some, FindRecord.mem_newline_body h]
      split <;> rfl

theorem sample?_retold (hc : IsCollection r.collection) (hf : balanced? f = some (f, []))
    (hs : scanType (r.line f) = scanType (r.line f')) (options : Options) :
    (sample? options (r.line f)).map Sample.unindexed =
      (sample? options (r.line f')).map Sample.unindexed := by
  have hadmits : options.admits (r.line f) = options.admits (r.line f') := by
    rw [Options.admits, Options.admits, hs]
  have hquery := extract?_retold hc h hf r.ns (" planSummary: ".toList ++ r.plan)
    (scanType (r.line f'))
  change (Query.extract? _ _ (r.body f) _).bind _ = (Query.extract? _ _ (r.body f') _).bind _
    at hquery
  rw [sample?_unindexed, sample?_unindexed, hr.read?_line, hr.read?_line, hadmits, hs]
  cases duration? r.digits with
  | none => rfl
  | some millis =>
      simp only [Option.bind_some, FindRecord.mem_newline_body h]
      split
      · rfl
      · rw [Option.bind_some, Option.bind_some, hquery]

/-- A find is counted under the same shape with other contents of strings, or in neither case. -/
theorem ingest_retold (hc : IsCollection r.collection) (hf : balanced? f = some (f, []))
    (hs : scanType (r.line f) = scanType (r.line f')) (s : State) :
    (∃ x x', x.key = x'.key ∧
      s.ingest (r.line f) = { s with matched := s.matched + 1 }.count (r.line f) x ∧
      s.ingest (r.line f') = { s with matched := s.matched + 1 }.count (r.line f') x') ∨
    s.ingest (r.line f) = s.ingest (r.line f') ∧ (s.ingest (r.line f)).table = s.table ∧
      (s.ingest (r.line f)).aggregated = s.aggregated := by
  have hrecord := isRecord_retold hr h
  have hsample := sample?_retold hr h hc hf hs s.options
  have hadmits : s.options.admits (r.line f) = s.options.admits (r.line f') := by
    rw [Options.admits, Options.admits, hs]
  cases hi : isRecord (r.line f) with
  | false =>
      have hi' := hrecord.symm.trans hi
      rw [ingest_of_no_record hi, ingest_of_no_record hi']
      exact .inr ⟨rfl, rfl, rfl⟩
  | true =>
      have hi' := hrecord.symm.trans hi
      cases ha : s.options.admits (r.line f) with
      | false =>
          rw [ingest_of_not_admitted hi ha, ingest_of_not_admitted hi' (hadmits.symm.trans ha)]
          exact .inr ⟨rfl, rfl, rfl⟩
      | true =>
          rw [ingest_of_admitted hi ha, ingest_of_admitted hi' (hadmits.symm.trans ha)]
          cases hx : sample? s.options (r.line f) with
          | none =>
              rw [hx, Option.map_none, eq_comm, Option.map_eq_none_iff] at hsample
              rw [hsample]
              exact .inr ⟨rfl, rfl, rfl⟩
          | some x =>
              rw [hx, Option.map_some, eq_comm] at hsample
              obtain ⟨x', hx', he⟩ := Option.map_eq_some_iff.mp hsample
              rw [hx']
              have hkey : x.key = x'.key := (congrArg Sample.key he).symm
              exact .inl ⟨x, x', hkey, rfl, rfl⟩

end

def recordOf (collection plan : Text) : FindRecord where
  timestamp := "2019-05-09T15:21:43.456-0400".toList
  severity := ['I']
  component := "COMMAND".toList
  context := "conn3".toList
  ns := "db.users".toList
  collection := collection
  plan := plan
  digits := ['5']

theorem recordOf_wellFormed (collection plan : Text) : (recordOf collection plan).WellFormed where
  timestamp := of_decide_eq_true rfl
  severity := of_decide_eq_true rfl
  component := of_decide_eq_true rfl
  context := ⟨List.cons_ne_nil _ _, List.all_eq_true.mp rfl⟩
  ns := of_decide_eq_true rfl
  digits := List.all_eq_true.mp rfl

/-- Another content of a string in the filter of a find changes the key that it is counted under. -/
def ChangesKey (collection plan before after a b : Text) : Prop :=
  let filter (content : Text) := before ++ '"' :: (content ++ '"' :: after)
  let key (content : Text) :=
    (sample? {} ((recordOf collection plan).line (filter content))).map (·.key)
  Content collection ∧ Content a ∧ Content b ∧ (parse (filter a)).toOption.isSome ∧
    (parse (filter b)).toOption.isSome ∧ key a ≠ key b

instance (collection plan before after a b : Text) :
    Decidable (ChangesKey collection plan before after a b) :=
  inferInstanceAs (Decidable (_ ∧ _))

/-- The name of a scan is looked for in the whole line, and markers are looked for in names, strings
and other scalars, where a quote or a brace is taken for the delimiter of a document. -/
theorem key_changes :
    let before := "\x7b a: ".toList
    let after := " \x7d".toList
    let x := ['x']
    let sort := "sort: \x7b b: 1 \x7d".toList
    let filter := "filter: \x7b b: 1 \x7d".toList
    (∀ collection plan, (recordOf collection plan).WellFormed) ∧
    ChangesKey [] "IXSCAN".toList before after x "COLLSCAN".toList ∧
    ChangesKey [] [] before after x sort ∧
    ChangesKey [] [] before after x "command: x".toList ∧
    ChangesKey [] [] "\x7b $or: \"sort: \x7b b: \", a: ".toList after x ", c: 1 \x7d ".toList ∧
    ChangesKey [] [] "\x7b command: find \x7b(\x7d), a: ".toList after x filter ∧
    ChangesKey [] [] "\x7b r: /\"/, a: ".toList ", q: /\"/ \x7d".toList x ['}'] ∧
    ChangesKey [] "IXSCAN \x7b a: 1 \x7d".toList "\x7b r: /\x7b\x7b/, a: ".toList after x filter ∧
    ChangesKey "sort: \x7b b: ".toList [] before after x ['}'] ∧
    ChangesKey "filter: \x7b b: ".toList [] before after x ['}'] ∧
    ChangesKey "command: count \x7b".toList [] before after x "query: \x7b b: 1 \x7d".toList := by
  refine ⟨recordOf_wellFormed, ?_⟩
  decide +kernel

theorem ingest_retold_users :
    let line (content : Text) :=
      (recordOf "users".toList []).line
        ('{' :: ' ' :: 'a' :: ':' :: ' ' :: '"' :: (content ++ ['"', ' ', '}']))
    let named := line ['s', 'o', 'r', 't', ':', ' ', 'x']
    let plain := line ['x']
    ∃ x x', x.key = x'.key ∧
      (State.new {}).ingest named = { State.new {} with matched := 1 }.count named x ∧
      (State.new {}).ingest plain = { State.new {} with matched := 1 }.count plain x' := by
  intro line named plain
  have hunmarked : ∀ a, ¬marker "command".toList <:+: a → ('{' ∉ a ∧ '[' ∉ a) → Unmarked a :=
    fun a hc hs => ⟨hc, fun h => not_or.mpr hs h.bracket_mem⟩
  have hstring : Retold _ _ _ _ :=
    .string (a := ['s', 'o', 'r', 't', ':', ' ', 'x']) (b := ['x']) (by decide) (by decide)
      (hunmarked _ (by decide) (by decide)) (hunmarked _ (by decide) (by decide))
  have hname : IsName ['a'] := by decide
  have hsafe : ∀ c ∈ ['a'], needsQuotes c = false := by simp; decide
  have hkey : KeyText ['a'] ['a'] := .bare (isBareKey_of_safe hsafe)
  have h := Retold.object (.lastMember blank_space hkey hname blank_nil blank_space hstring blank_space)
  have hcollection : IsCollection "users".toList :=
    ⟨by decide, hunmarked _ (by decide) (by decide),
      fun h => absurd h.bracket_mem (by decide)⟩
  have hcount := ingest_retold (recordOf_wellFormed _ []) h hcollection (by decide)
    (by decide +kernel) (State.new {})
  refine hcount.resolve_right fun hno => ?_
  exact absurd hno.2.2 (by decide +kernel)

end SlowQuery.Run
