import SlowQuery.Proofs.JsonReading
import SlowQuery.Proofs.Ranking
import SlowQuery.Run.Ingest
import SlowQuery.Run.Report

namespace SlowQuery

namespace Json

open Text

def Numeral.integer? (n : Numeral) : Option Int :=
  if n.fraction.isSome || n.exponent.isSome then none
  else if n.negative then some (-(digitsValue n.whole : Int))
  else some (digitsValue n.whole : Int)

def Tree.integer? : Tree → Option Int
  | .number n => n.integer?
  | _ => none

theorem integer?_ofNat (n : Nat) : (tree (.integer n)).integer? = some (n : Int) := by
  have hneg : ¬(n : Int) < 0 := by omega
  simp [tree, Tree.integer?, Numeral.integer?, Numeral.ofInt, hneg]

theorem value?_newline (n : Nat) (t : Text) : value? n ('\n' :: t) = value? n t := by
  cases n with
  | zero => rfl
  | succ n => rfl

theorem value?_bracket_newline (n : Nat) (t : Text) :
    value? (n + 1) ('[' :: '\n' :: t) = value? (n + 1) ('[' :: t) := rfl

theorem items?_newline (n : Nat) (t : Text) : items? n ('\n' :: t) = items? n t := by
  cases n with
  | zero => rfl
  | succ n => rw [items?, items?, value?_newline]

end Json

namespace Run

open Text Shape Json

def withCommas : List Text → List Text
  | [] => []
  | [t] => [t]
  | t :: u :: us => (t ++ [',']) :: withCommas (u :: us)

def textOf (lines : List Text) : Text := lines.flatMap (· ++ ['\n'])

/-- The members tell a shape: all of its figures but the average, which is a number, and of its key
what is shown. -/
structure Tells (ms : List (Text × Tree)) (s : Stats) : Prop where
  names : ms.map (·.1) =
    ["namespace".toList, "command".toList, "queryPattern".toList, "count".toList,
     "minMilliseconds".toList, "maxMilliseconds".toList, "averageMilliseconds".toList,
     "totalMilliseconds".toList, "isCollectionScan".toList, "indexUsed".toList]
  ns : ms.lookup "namespace".toList = some (.string s.ns)
  operation : ms.lookup "command".toList = some (.string s.key.operation)
  filter : ms.lookup "queryPattern".toList = some (.string s.key.filter)
  index : ms.lookup "indexUsed".toList = some (.string s.index)
  count : (ms.lookup "count".toList).bind Tree.integer? = some (s.count.toNat : Int)
  min : (ms.lookup "minMilliseconds".toList).bind Tree.integer? = some (s.min.toNat : Int)
  max : (ms.lookup "maxMilliseconds".toList).bind Tree.integer? = some (s.max.toNat : Int)
  total : (ms.lookup "totalMilliseconds".toList).bind Tree.integer? = some (s.total.toNat : Int)
  scan : ms.lookup "isCollectionScan".toList = some (.bool s.isCollectionScan)

/-- The text is a line with a bracket, a line for each shape, and a line with a bracket. Each of the
lines between holds an object that tells its shape, and the whole is the array of these objects. -/
def Reports (text : Text) (shapes : List Stats) : Prop :=
  ∃ (objects : List Text) (told : List (List (Text × Tree))),
    text = textOf (['['] :: withCommas objects ++ [[']']]) ∧ (∀ o ∈ objects, '\n' ∉ o) ∧
      objects.map decode = told.map (fun ms => some (.object ms)) ∧
      decode text = some (.array (told.map .object)) ∧ List.Forall₂ Tells told shapes

variable {shapes : List Stats}

theorem report_of_sorted (h : shapes.Pairwise fun a b => a.goesBefore b = true) :
    report shapes = shapes.map .of := by
  have hsorted : shapes.Pairwise fun a b => decide (b.averageRank ≤ a.averageRank) := by
    refine h.imp fun {a b} hab => decide_eq_true ?_
    rcases goesBefore_iff.mp hab with hlt | ⟨heq, -⟩
    · exact Nat.le_of_lt hlt
    · exact Nat.le_of_eq heq.symm
  rw [report, List.mergeSort_of_pairwise hsorted]

theorem textOf_withCommas (objects : List Text) :
    joinWith ",\n".toList objects ++ (if objects.isEmpty then [] else ['\n']) =
      textOf (withCommas objects) := by
  induction objects with
  | nil => rfl
  | cons t ts ih =>
      cases ts with
      | nil => simp [joinWith, withCommas, textOf]
      | cons u us =>
          rw [joinWith, List.intercalate_cons_cons, withCommas, textOf, List.flatMap_cons]
          simp only [List.isEmpty_cons, Bool.false_eq_true, if_false] at ih ⊢
          change _ = (t ++ [',']) ++ ['\n'] ++ textOf (withCommas (u :: us))
          rw [← ih, joinWith]
          simp

theorem reportText_eq (ls : List ReportLine) :
    reportText ls = textOf (['['] :: withCommas (ls.map fun l => (Json.object l.members).compact) ++
      [[']']]) := by
  have hlines := textOf_withCommas (ls.map fun l => (Json.object l.members).compact)
  rw [List.isEmpty_map] at hlines
  rw [reportText, List.append_assoc, List.append_assoc, ← List.append_assoc (joinWith _ _), hlines]
  simp [textOf]

theorem tells_of (s : Stats) : Tells (treeMembers (ReportLine.of s).members) s where
  names := rfl
  ns := rfl
  operation := rfl
  filter := rfl
  index := rfl
  count := integer?_ofNat s.count.toNat
  min := integer?_ofNat s.min.toNat
  max := integer?_ofNat s.max.toNat
  total := integer?_ofNat s.total.toNat
  scan := rfl

theorem items?_lines : ∀ (j : Json) (js : List Json) {n : Nat} {r : Text},
    2 * (textOf (withCommas ((j :: js).map compact))).length < n →
      items? n (textOf (withCommas ((j :: js).map compact)) ++ ']' :: r) =
        some ((j :: js).map tree, r)
  | _, _, 0, _, hn => absurd hn (Nat.not_lt_zero _)
  | j, [], n + 1, r, hn => by
      simp only [List.map_cons, List.map_nil, withCommas, textOf, List.flatMap_cons,
        List.flatMap_nil, List.append_nil, List.length_append, List.length_singleton] at hn
      have hj := value?_compact j (n := n) (r := '\n' :: ']' :: r) (by omega) (endsRun_cons rfl _)
      have htext : textOf (withCommas ([j].map compact)) ++ ']' :: r =
          j.compact ++ '\n' :: ']' :: r := by simp [withCommas, textOf]
      rw [htext, items?_step hj]
      rfl
  | j, k :: js, n + 1, r, hn => by
      have htext : textOf (withCommas ((j :: k :: js).map compact)) =
          j.compact ++ ',' :: '\n' :: textOf (withCommas ((k :: js).map compact)) := by
        simp [withCommas, textOf]
      rw [htext] at hn ⊢
      simp only [List.length_append, List.length_cons] at hn
      rw [List.append_assoc, List.cons_append, List.cons_append]
      have hj := value?_compact j (n := n) (by omega) (endsRun_cons (c := ',') rfl
        ('\n' :: (textOf (withCommas ((k :: js).map compact)) ++ ']' :: r)))
      have hjs := items?_lines k js (n := n) (r := r) (by omega)
      rw [items?_step hj, dropSpace_cons (by decide)]
      simp only [items?_newline, hjs, Option.map_some]
      rfl

theorem beginsItem_textOf (j : Json) (js : List Json) :
    BeginsItem (textOf (withCommas ((j :: js).map compact))) := by
  cases js with
  | nil => simpa [withCommas, textOf] using (beginsItem_compact j).append ['\n']
  | cons k js =>
      have hbegins := (beginsItem_compact j).append
        (',' :: '\n' :: textOf (withCommas ((k :: js).map compact)))
      simpa [withCommas, textOf] using hbegins

theorem decode_lines (js : List Json) :
    decode (textOf (['['] :: withCommas (js.map compact) ++ [[']']])) =
      some (.array (js.map tree)) := by
  cases js with
  | nil => rfl
  | cons j js =>
      obtain ⟨lines, hlines⟩ : ∃ lines, lines = textOf (withCommas ((j :: js).map compact)) :=
        ⟨_, rfl⟩
      have htext : textOf (['['] :: withCommas ((j :: js).map compact) ++ [[']']]) =
          '[' :: '\n' :: (lines ++ ']' :: ['\n']) := by
        rw [hlines]
        simp [textOf]
      have hbegins := (beginsItem_textOf j js).append (']' :: ['\n'])
      have hread : value? (2 * lines.length + 9) ('[' :: '\n' :: (lines ++ ']' :: ['\n'])) =
          some (.array ((j :: js).map tree), ['\n']) := by
        rw [← hlines] at hbegins
        refine (value?_bracket_newline _ _).trans (value?_items ?_ hbegins)
        rw [hlines]
        exact items?_lines j js (by omega)
      have hlength : 2 * ('[' :: '\n' :: (lines ++ ']' :: ['\n'])).length + 1 =
          2 * lines.length + 9 := by
        simp only [List.length_append, List.length_cons, List.length_nil]
        omega
      rw [htext, decode, hlength, hread]
      rfl

theorem reports_of_sorted (h : shapes.Pairwise fun a b => a.goesBefore b = true) :
    Reports (reportText (report shapes)) shapes := by
  let json (s : Stats) : Json := .object (ReportLine.of s).members
  have htext : reportText (report shapes) =
      textOf (['['] :: withCommas ((shapes.map json).map compact) ++ [[']']]) := by
    rw [report_of_sorted h, reportText_eq, List.map_map, List.map_map]
    rfl
  refine ⟨(shapes.map json).map compact, shapes.map fun s => treeMembers (ReportLine.of s).members,
    htext, ?_, ?_, ?_, ?_⟩
  · intro o ho
    obtain ⟨j, -, rfl⟩ := List.mem_map.mp ho
    exact newline_not_mem_compact j
  · rw [List.map_map, List.map_map, List.map_map]
    exact List.map_congr_left fun s _ => decode_compact (json s)
  · rw [htext, decode_lines, List.map_map, List.map_map]
    rfl
  · rw [List.forall₂_map_left_iff]
    exact List.forall₂_same.mpr fun s _ => tells_of s

/-- The text of a report tells the shapes that it is made of, in their order, as long as they are
listed as the result of a run lists them. -/
theorem report_tells_shapes :
    (∀ shapes, shapes.Pairwise (fun a b => a.goesBefore b = true) →
      Reports (reportText (report shapes)) shapes) ∧
    (∀ es, Reports (reportText (report (sortByAverage es))) (sortByAverage es)) ∧
    ∀ options lines, Reports (reportText (report (analyzeLines options lines).shapes))
      (analyzeLines options lines).shapes :=
  ⟨fun _ => reports_of_sorted, fun es => reports_of_sorted (goesBefore_sortByAverage es),
    fun _ _ => reports_of_sorted (goesBefore_sortByAverage _)⟩

theorem report_tells_shapes_tied :
    let key (filter : Text) : Key := ⟨"find".toList, filter, "COLLSCAN".toList⟩
    let a : Stats := .first (key "\x7ba: 1\x7d".toList) "db.c".toList 5 []
    let b : Stats := .first (key "\x7bb: 1\x7d".toList) "db.d".toList 5 []
    a.goesBefore b = true ∧ Reports (reportText (report [a, b])) [a, b] := by
  intro key a b
  have hrank (k k' : Key) (ns ns' : Text) :
      (Stats.first k ns 5 []).averageRank = (Stats.first k' ns' 5 []).averageRank := rfl
  have hfirst : a.goesBefore b = true := goesBefore_iff.mpr (.inr ⟨hrank _ _ _ _, by decide⟩)
  exact ⟨hfirst, report_tells_shapes.1 [a, b] (List.pairwise_pair.mpr hfirst)⟩

end Run

end SlowQuery
