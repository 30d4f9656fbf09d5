import SlowQuery.Proofs.JsonReading
import SlowQuery.Proofs.JsonTexts
import SlowQuery.Proofs.Lines
import SlowQuery.Run.Session

namespace SlowQuery

namespace Json

open Text

variable {j v : Json} {name : Text}

theorem member?_ordered (h : Representable j) (name : Text) :
    j.ordered.member? name = (j.member? name).map ordered := by
  cases h with
  | object distinct =>
      rw [ordered, member?, lookup_sortMembers distinct.ordered, lookup_orderedMembers, member?]
  | null | bool | integer | string | array => rfl

theorem Representable.member? (h : Representable j) (hv : j.member? name = some v) :
    Representable v := by
  cases h with
  | object distinct names values => exact values _ ((lookup_eq_some_iff distinct).mp hv)
  | null | bool | integer | string | array => cases hv

theorem asString?_ordered (v : Json) : v.ordered.asString? = v.asString? := by
  cases v <;> rw [ordered] <;> rfl

end Json

namespace Run

open Text Payload Json

structure ControlHead where
  timestamp : Text
  severity : Text
  gap : Text
  context : Text

namespace ControlHead

structure WellFormed (h : ControlHead) : Prop where
  timestamp : Record.Solid h.timestamp
  severity : h.severity = [] ∨ ∃ c, h.severity = [c] ∧ c ≠ '\n'
  gap : Record.Gap h.gap
  context : Record.IsWordRun h.context

def options (h : ControlHead) (message : Text) : Text :=
  h.timestamp ++ ' ' :: (h.severity ++ (controlMarker ++ (h.gap ++ '[' :: (h.context ++
    ']' :: ' ' :: ("options:".toList ++ ' ' :: message)))))

end ControlHead

variable {h : ControlHead} {message severity : Text} {j : Json} {s : Session}

theorem severity?_append (hs : severity = [] ∨ ∃ c, severity = [c] ∧ c ≠ '\n') (t : Text) :
    severity? (severity ++ (controlMarker ++ t)) = some (controlMarker ++ t) := by
  have hmarker : startsWith controlMarker (controlMarker ++ t) = true := startsWith_iff.mpr ⟨t, rfl⟩
  unfold severity?
  rcases hs with rfl | ⟨c, rfl, hc⟩
  · rw [List.nil_append, if_pos hmarker]
  · -- The marker begins with a space, but none stands behind it.
    have hnot : startsWith controlMarker ([c] ++ (controlMarker ++ t)) = false := by
      rw [Bool.eq_false_iff, ne_eq, startsWith_iff]
      intro hp
      have hsecond := (List.cons_prefix_cons.mp (List.cons_prefix_cons.mp hp).2).1
      exact absurd hsecond (by decide)
    have hfound : (decide (c ≠ '\n') && startsWith controlMarker (controlMarker ++ t)) = true := by
      rw [hmarker, decide_eq_true hc, Bool.and_self]
    rw [if_neg (Bool.eq_false_iff.mp hnot)]
    exact if_pos hfound

theorem topic?_options (t : Text) :
    topic? ("options:".toList ++ t) = some ("options:".toList, t) := by
  have hword : word? ("options".toList ++ ':' :: t) = some ("options".toList, ':' :: t) :=
    Record.word?_eq_some_iff.mpr ⟨rfl, by decide +kernel, endsRun_cons (by decide +kernel) t⟩
  have htext : "options:".toList ++ t = "options".toList ++ ':' :: t := by simp
  rw [htext, topic?, hword]
  rfl

theorem ControlHead.read?_options (hh : h.WellFormed) (hm : '\n' ∉ message) :
    ControlRecord.read? (h.options message) = some ⟨"options:".toList, message⟩ := by
  have hgap (r : Text) : gap? (h.gap ++ '[' :: r) = some ('[' :: r) :=
    Record.gap?_eq_some_iff.mpr ⟨h.gap, hh.gap, rfl, endsRun_cons (by decide) r⟩
  have hcontext (r : Text) : word? (h.context ++ ']' :: r) = some (h.context, ']' :: r) :=
    Record.word?_eq_some_iff.mpr ⟨rfl, hh.context, endsRun_cons (by decide +kernel) r⟩
  have hexpect (c : Char) (r : Text) : expect? c (c :: r) = some r :=
    Record.expect?_eq_some_iff.mpr rfl
  rw [ControlRecord.read?, options, Record.solid?_append hh.timestamp]
  simp only [Option.bind_eq_bind]
  rw [Option.bind_some, hexpect, Option.bind_some, severity?_append hh.severity, Option.bind_some,
    List.drop_left, hgap, Option.bind_some, hexpect, Option.bind_some, hcontext, Option.bind_some,
    hexpect, Option.bind_some, hexpect, Option.bind_some, topic?_options, Option.bind_some, hexpect,
    Option.bind_some, if_neg hm]

def databasePath (j : Json) : Option Text := do
  (← (← j.member? "storage".toList).member? "dbPath".toList).asString?

theorem databasePath_ordered (hj : Representable j) : databasePath j.ordered = databasePath j := by
  simp only [databasePath, Option.bind_eq_bind, member?_ordered hj]
  cases hs : j.member? "storage".toList with
  | none => rfl
  | some storage =>
      simp only [Option.map_some, Option.bind_some, member?_ordered (hj.member? hs)]
      cases storage.member? "dbPath".toList with
      | none => rfl
      | some path => exact asString?_ordered path

namespace Session

theorem withOptions_compact (hj : Representable j) (s : Session) :
    s.withOptions j.compact =
      { s with configOptions := some (j.ordered.pretty 0), dbPath := databasePath j } := by
  obtain ⟨v, hv⟩ := exists_carries hj
  rw [withOptions, parse_written hv.compact]
  simp only [hv.toJson]
  rw [← databasePath_ordered hj]
  rfl

def Passed (line : Text) : Prop :=
  ∀ r, ControlRecord.read? line = some r → r.topic ≠ "options:".toList

theorem step_passed {line : Text} (hl : Passed line) (s : Session) : (s.step line).2 = false := by
  rw [step]
  split
  next => rfl
  next r hr =>
    rw [if_neg (hl r hr)]
    split <;> rfl

theorem gatherFrom_passed {ε : Type} {lines : List Text} (hl : ∀ l ∈ lines, Passed l) (s : Session)
    (rest : List (Except ε Text)) :
    ∃ s', gatherFrom s (lines.map .ok ++ rest) = gatherFrom s' rest := by
  induction lines generalizing s with
  | nil => exact ⟨s, rfl⟩
  | cons line lines ih =>
      obtain ⟨hline, hl⟩ := List.forall_mem_cons.mp hl
      have hstep : s.step line = ((s.step line).1, false) := Prod.ext rfl (step_passed hline s)
      obtain ⟨s', hs'⟩ := ih hl (s.step line).1
      refine ⟨s', ?_⟩
      rw [List.map_cons, List.cons_append, gatherFrom, hstep]
      exact hs'

theorem gather_options {ε : Type} (hh : h.WellFormed) (hm : '\n' ∉ message) {lines : List Text}
    (hl : ∀ l ∈ lines, Passed l) (rest : List (Except ε Text)) :
    ∃ s : Session, gather (lines.map .ok ++ .ok (h.options message) :: rest) =
      .ok (s.withOptions message) := by
  obtain ⟨s, hs⟩ := gatherFrom_passed hl {} (.ok (h.options message) :: rest)
  have hstep : s.step (h.options message) = (s.withOptions message, true) := by
    rw [step, ControlHead.read?_options hh hm]
    rfl
  refine ⟨s, ?_⟩
  rw [gather, hs, gatherFrom, hstep]

end Session

/-- A value is read back from either layout of its JSON text, with the members of its objects in
order. The options of a server that carry its compact text are kept in the other layout. -/
theorem json_options_kept (hj : Representable j) :
    (∃ v, parse j.compact = .ok v ∧ parse (j.pretty 0) = .ok v ∧ v.toJson = j.ordered) ∧
      (Sorted j → j.ordered = j) ∧
      ∀ (ε : Type) (h : ControlHead) (lines : List Text) (rest : List (Except ε Text)),
        h.WellFormed → (∀ l ∈ lines, Session.Passed l) →
          ∃ s, Session.gather (lines.map .ok ++ .ok (h.options j.compact) :: rest) = .ok s ∧
            s.configOptions = some (j.ordered.pretty 0) ∧ s.dbPath = databasePath j := by
  obtain ⟨v, hv⟩ := exists_carries hj
  refine ⟨⟨v, parse_written hv.compact, parse_written (hv.pretty 0), hv.toJson⟩,
    Sorted.ordered_eq, fun ε h lines rest hh hl => ?_⟩
  obtain ⟨s, hs⟩ := Session.gather_options hh (newline_not_mem_compact j) hl rest
  rw [Session.withOptions_compact hj] at hs
  exact ⟨_, hs, rfl, rfl⟩

theorem json_options_kept_quoted :
    let storage : Json := .object [("dbPath".toList, .string "/data".toList),
      ("null".toList, .integer 18446744073709551615)]
    let j : Json := .object [([], .null), (['"', '\''], .array [.bool true, .integer (-1)]),
      ("a, b".toList, .string ['\'', '1', '"']), ("storage".toList, storage)]
    let h : ControlHead := ⟨"2019-05-09T15:21:43".toList, ['I'], "  ".toList, "initandlisten".toList⟩
    let version := h.timestamp ++ " I CONTROL [initandlisten] db version v4.0.9".toList
    (Representable j ∧ h.WellFormed ∧ Session.Passed version) ∧
      (∃ v, parse j.compact = .ok v ∧ parse (j.pretty 0) = .ok v ∧ v.toJson = j) ∧
      ∃ s, Session.gather (ε := Empty) [.ok version, .ok (h.options j.compact)] = .ok s ∧
        s.configOptions = some (j.pretty 0) ∧ s.dbPath = some "/data".toList := by
  intro storage j h version
  have hstorage : Representable storage ∧ Sorted storage := by
    refine ⟨.object (by unfold Distinct; decide) (by decide) ?_,
      .object (by unfold Ascending; decide) ?_⟩
    all_goals simp only [List.forall_mem_cons, List.not_mem_nil, false_imp_iff, forall_true_iff,
      and_true]
    · exact ⟨.string (by decide), .integer (by decide) (by decide)⟩
    · exact ⟨.string _, .integer _⟩
  have hj : Representable j ∧ Sorted j := by
    refine ⟨.object (by unfold Distinct; decide) (by decide) ?_,
      .object (by unfold Ascending; decide) ?_⟩
    all_goals simp only [List.forall_mem_cons, List.not_mem_nil, false_imp_iff, forall_true_iff,
      and_true]
    · refine ⟨.null, .array ?_, .string (by decide), hstorage.1⟩
      exact List.forall_mem_cons.mpr
        ⟨.bool true, List.forall_mem_singleton.mpr (.integer (by decide) (by decide))⟩
    · refine ⟨.null, .array ?_, .string _, hstorage.2⟩
      exact List.forall_mem_cons.mpr ⟨.bool true, List.forall_mem_singleton.mpr (.integer _)⟩
  have hh : h.WellFormed := ⟨by decide, .inr ⟨'I', rfl, by decide⟩,
    ⟨List.cons_ne_nil _ _, List.all_eq_true.mp rfl⟩, by decide +kernel⟩
  have hversion : Session.Passed version := by
    have hread : (ControlRecord.read? version).map (·.topic) = some "db".toList := by decide +kernel
    intro r hr
    rw [hr] at hread
    have htopic : r.topic = "db".toList := Option.some.inj hread
    rw [htopic]
    decide
  obtain ⟨hparse, hordered, hgather⟩ := json_options_kept hj.1
  rw [hordered hj.2] at hparse hgather
  obtain ⟨s, hs, hoptions, hpath⟩ := hgather Empty h [version] [] hh
    (List.forall_mem_singleton.mpr hversion)
  exact ⟨⟨hj.1, hh, hversion⟩, hparse, s, hs, hoptions, hpath⟩

end Run

end SlowQuery
