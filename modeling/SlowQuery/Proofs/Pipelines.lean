import SlowQuery.Proofs.Joining
import SlowQuery.Proofs.Unwrapping
import Mathlib.Data.List.TakeWhile

namespace SlowQuery.Record

open Text Payload Shape

def matchKey : Text := "$match: ".toList

/-- A stage of a pipeline, as it is written in a record. -/
inductive Stage where
  | operator (key document : Text)
  | other (text : Text)

namespace Stage

def text : Stage → Text
  | operator key document => "\x7b ".toList ++ (key ++ (document ++ " \x7d".toList))
  | other t => t

def operand? (key : Text) : Stage → Option Text
  | operator k document => if k = key then some document else none
  | other _ => none

end Stage

def firstOperand? (key : Text) (stages : List Stage) : Option Text :=
  stages.findSome? (Stage.operand? key)

def unsorted (stages : List Stage) : List Stage :=
  stages.takeWhile fun s => (s.operand? sortKey).isNone

/-- What a shape keeps of a pipeline: the first grouping, if no sort stands before it, and the first
sort. -/
def stageSuffix (stages : List Stage) : Text :=
  let labelled (label : Text) (document : Option Text) : Text :=
    (document.map fun d => label ++ stageText d).getD []
  labelled ", group: ".toList (firstOperand? groupKey (unsorted stages)) ++
    labelled ", sort: ".toList (firstOperand? sortKey stages)

/-- The document of an aggregation, from the parts of its text. -/
structure Aggregation where
  front : Text
  stages : List Stage
  back : Text

namespace Aggregation

def opening (a : Aggregation) : Text :=
  "\x7b ".toList ++ (a.front ++ "pipeline: [ ".toList)

def text (a : Aggregation) : Text :=
  a.opening ++ (joinWith ", ".toList (a.stages.map Stage.text) ++
    (" ]".toList ++ (a.back ++ " \x7d".toList)))

def upTo (a : Aggregation) (before : List Stage) : Text :=
  a.opening ++ (before.flatMap (fun s => s.text ++ ", ".toList) ++ "\x7b ".toList)

/-- Wherever the key occurs in the text, it is the operator of a stage. -/
def OnlyHeads (a : Aggregation) (key : Text) : Prop :=
  ∀ l r, a.text = l ++ (key ++ r) →
    ∃ before d after, a.stages = before ++ .operator key d :: after ∧ l = a.upTo before

structure Plain (a : Aggregation) : Prop where
  closed : IsObject a.text
  noBrace : '{' ∉ a.front
  spaced : a.front = [] ∨ endsWith [' '] a.front = true
  documents : ∀ key d, .operator key d ∈ a.stages → IsObject d
  groups : a.OnlyHeads groupKey
  sorts : a.OnlyHeads sortKey

end Aggregation

variable {a : Aggregation} {before after stages : List Stage} {key d ns t : Text}

theorem Stage.operand?_eq_some {s : Stage} : s.operand? key = some d ↔ s = .operator key d := by
  cases s with
  | operator k document =>
      rw [operand?]
      split
      next hk => simp [hk]
      next hk => simp [hk]
  | other => simp [operand?]

structure FirstAt (key : Text) (stages before : List Stage) (d : Text) : Prop where
  none_before : ∀ s ∈ before, s.operand? key = none
  here : ∃ after, stages = before ++ .operator key d :: after

theorem firstOperand?_eq_some :
    firstOperand? key stages = some d ↔ ∃ before, FirstAt key stages before d := by
  rw [firstOperand?, List.findSome?_eq_some_iff]
  constructor
  · rintro ⟨before, s, after, hstages, hs, hnone⟩
    rw [Stage.operand?_eq_some.mp hs] at hstages
    exact ⟨before, hnone, after, hstages⟩
  · rintro ⟨before, hnone, after, hstages⟩
    exact ⟨before, _, after, hstages, Stage.operand?_eq_some.mpr rfl, hnone⟩

namespace Aggregation

theorem text_eq (h : a.stages = before ++ .operator key d :: after) :
    ∃ r, a.text = a.upTo before ++ (key ++ (d ++ r)) := by
  refine ⟨" \x7d".toList ++ ((after.map Stage.text).flatMap (", ".toList ++ ·) ++
    (" ]".toList ++ (a.back ++ " \x7d".toList))), ?_⟩
  rw [text, h, List.map_append, List.map_cons, joinWith_append, List.flatMap_map]
  simp only [upTo, Stage.text, List.append_assoc]

theorem onlyHeads_of_inits (h : ∀ l ∈ a.text.inits, key <+: a.text.drop l.length →
    ∃ i < a.stages.length, (a.stages[i]?.bind (Stage.operand? key)).isSome = true ∧
      l = a.upTo (a.stages.take i)) : a.OnlyHeads key := by
  intro l r ht
  have hdrop : a.text.drop l.length = key ++ r := by rw [ht, List.drop_left]
  have hinit : l ∈ a.text.inits := (List.mem_inits _ _).mpr ⟨key ++ r, ht.symm⟩
  obtain ⟨i, hi, hs, hl⟩ := h l hinit ⟨r, hdrop.symm⟩
  rw [List.getElem?_eq_getElem hi, Option.bind_some] at hs
  obtain ⟨d, hd⟩ := Option.isSome_iff_exists.mp hs
  refine ⟨a.stages.take i, d, a.stages.drop (i + 1), ?_, hl⟩
  rw [← Stage.operand?_eq_some.mp hd, ← List.drop_eq_getElem_cons hi, List.take_append_drop]

theorem length_upTo_le (before more : List Stage) :
    (a.upTo before).length + 2 * more.length ≤ (a.upTo (before ++ more)).length := by
  have hmore : 2 * more.length ≤ (more.flatMap fun s => s.text ++ ", ".toList).length := by
    induction more with
    | nil => exact Nat.le_refl 0
    | cons s more ih =>
        rw [List.flatMap_cons, List.length_append, List.length_append, List.length_cons,
          show ", ".toList.length = 2 from rfl]
        omega
  simp only [upTo, List.flatMap_append, List.length_append]
  omega

theorem getLast?_upTo (before : List Stage) : (a.upTo before).getLast? = some ' ' := by
  have h : a.upTo before = a.opening ++ (before.flatMap fun s => s.text ++ ", ".toList) ++ ['{'] ++
      [' '] := by
    simp [upTo]
  rw [h, List.getLast?_concat]

section

variable (hk : a.OnlyHeads key)

include hk

/-- An occurrence in front of the first stage with the key would be the head of an earlier one. -/
theorem clear_upTo (hf : FirstAt key a.stages before d) {r : Text}
    (ht : a.text = a.upTo before ++ (key ++ r)) : Clear key (a.upTo before) (key ++ r) := by
  obtain ⟨after, hstages⟩ := hf.here
  refine clear_of_behind fun l r' hl => ?_
  obtain ⟨before', d', after', hstages', rfl⟩ := hk l r' (ht.trans hl)
  rw [hstages] at hstages'
  rcases List.append_eq_append_iff.mp hstages' with ⟨x, rfl, -⟩ | ⟨x, rfl, hx⟩
  · exact (Nat.le_add_right _ _).trans (length_upTo_le before x)
  · cases x with
    | nil => rw [List.append_nil]
    | cons s x =>
        have hs := hf.none_before s (by simp)
        rw [← (List.cons.inj hx).1, Stage.operand?_eq_some.mpr rfl] at hs
        cases hs

theorem not_contains (hne : key ≠ []) (hnone : firstOperand? key a.stages = none) :
    contains key a.text = false := by
  rw [Bool.eq_false_iff, ne_eq, contains_iff hne]
  rintro ⟨l, r, h⟩
  obtain ⟨before, d, after, hstages, -⟩ := hk l r (by rw [← h, List.append_assoc])
  have hs := List.findSome?_eq_none_iff.mp hnone (.operator key d) (by rw [hstages]; simp)
  rw [Stage.operand?_eq_some.mpr rfl] at hs
  cases hs

end

theorem Plain.documentAfter? (ha : a.Plain) (hk : a.OnlyHeads key) (hne : key ≠ []) :
    documentAfter? key a.text = firstOperand? key a.stages := by
  cases hf : firstOperand? key a.stages with
  | none => exact documentAfter?_eq_none hne (not_contains hk hne hf)
  | some d =>
      obtain ⟨before, hfirst⟩ := firstOperand?_eq_some.mp hf
      obtain ⟨after, hstages⟩ := hfirst.here
      obtain ⟨r, ht⟩ := text_eq hstages
      have hd : IsObject d := ha.documents key d (by rw [hstages]; simp)
      have hclear := clear_upTo hk hfirst ht
      rw [ht]
      exact documentAfter?_spaced hclear (getLast?_upTo before) (hd.balanced? r)

theorem position?_of_none (hk : a.OnlyHeads key) (hne : key ≠ [])
    (hnone : firstOperand? key a.stages = none) : position? key a.text = none := by
  have h := isSome_position? key a.text
  rw [not_contains hk hne hnone] at h
  exact Option.isNone_iff_eq_none.mp (Option.isSome_eq_false_iff.mp h)

theorem position?_of_first (hk : a.OnlyHeads key) (hne : key ≠ [])
    (hf : FirstAt key a.stages before d) : position? key a.text = some (a.upTo before).length := by
  obtain ⟨after, hstages⟩ := hf.here
  obtain ⟨r, ht⟩ := text_eq hstages
  have hclear := clear_upTo hk hf ht
  rw [ht]
  exact position?_clear hne hclear

end Aggregation

theorem FirstAt.unsorted_eq (hf : FirstAt sortKey stages before d) : unsorted stages = before := by
  obtain ⟨after, rfl⟩ := hf.here
  have hstop : ¬((Stage.operator sortKey d).operand? sortKey).isNone = true := by
    rw [Stage.operand?_eq_some.mpr rfl]
    exact Bool.false_ne_true
  have hgo : ∀ s ∈ before, (s.operand? sortKey).isNone = true := fun s hs => by
    rw [hf.none_before s hs]
    rfl
  rw [unsorted, List.takeWhile_append_of_pos hgo, List.takeWhile_cons, if_neg hstop,
    List.append_nil]

theorem FirstAt.apart {before' : List Stage} {key' d' : Text} (hf : FirstAt key stages before d)
    (hf' : FirstAt key' stages before' d') (hne : key ≠ key') :
    (∃ x, before' = before ++ .operator key d :: x) ∨
      ∃ x, before = before' ++ .operator key' d' :: x := by
  obtain ⟨after, h⟩ := hf.here
  obtain ⟨after', h'⟩ := hf'.here
  rw [h] at h'
  rcases List.append_eq_append_iff.mp h' with ⟨x, hx, hrest⟩ | ⟨x, hx, hrest⟩
  · cases x with
    | nil => exact absurd (Stage.operator.inj (List.cons.inj hrest).1).1 hne
    | cons s x => exact .inl ⟨x, by rw [hx, ← (List.cons.inj hrest).1]⟩
  · cases x with
    | nil => exact absurd (Stage.operator.inj (List.cons.inj hrest).1).1.symm hne
    | cons s x => exact .inr ⟨x, by rw [hx, ← (List.cons.inj hrest).1]⟩

theorem unsorted_eq_self (h : firstOperand? sortKey stages = none) : unsorted stages = stages := by
  refine List.takeWhile_eq_self_iff.mpr fun s hs => ?_
  rw [List.findSome?_eq_none_iff.mp h s hs]
  rfl

theorem firstOperand?_unsorted (h : firstOperand? key stages = none) :
    firstOperand? key (unsorted stages) = none :=
  List.findSome?_eq_none_iff.mpr fun s hs =>
    List.findSome?_eq_none_iff.mp h s ((List.takeWhile_sublist _).subset hs)

namespace Aggregation

theorem grouping_before {before' : List Stage} {g s : Text}
    (hg : FirstAt groupKey a.stages before g) (hs : FirstAt sortKey a.stages before' s) :
    firstOperand? groupKey before' =
      if (a.upTo before).length < (a.upTo before').length then some g else none := by
  rcases hg.apart hs (by decide) with ⟨x, rfl⟩ | ⟨x, rfl⟩
  · have hlength := length_upTo_le (a := a) before (.operator groupKey g :: x)
    rw [List.length_cons] at hlength
    rw [if_pos (by omega)]
    exact firstOperand?_eq_some.mpr ⟨before, hg.none_before, x, rfl⟩
  · have hlength := length_upTo_le (a := a) before' (.operator sortKey s :: x)
    rw [if_neg (by omega)]
    exact List.findSome?_eq_none_iff.mpr fun s hs => hg.none_before s (by simp [hs])

theorem Plain.pipelineStages (ha : a.Plain) : pipelineStages a.text = stageSuffix a.stages := by
  have hgroup : groupKey ≠ [] := by decide
  have hsort : sortKey ≠ [] := by decide
  simp only [Record.pipelineStages, ha.documentAfter? ha.groups hgroup,
    ha.documentAfter? ha.sorts hsort, stageSuffix]
  refine congrArg₂ (· ++ ·) ?_ ?_
  · cases hg : firstOperand? groupKey a.stages with
    | none =>
        rw [firstOperand?_unsorted hg]
        exact ite_self _
    | some g =>
        obtain ⟨before, hfirst⟩ := firstOperand?_eq_some.mp hg
        rw [position?_of_first ha.groups hgroup hfirst]
        cases hs : firstOperand? sortKey a.stages with
        | none =>
            rw [position?_of_none ha.sorts hsort hs, unsorted_eq_self hs, hg]
            rfl
        | some s =>
            obtain ⟨before', hfirst'⟩ := firstOperand?_eq_some.mp hs
            rw [position?_of_first ha.sorts hsort hfirst', hfirst'.unsorted_eq,
              grouping_before hfirst hfirst']
            by_cases hlt : (a.upTo before).length < (a.upTo before').length <;> simp [hlt]
  · cases firstOperand? sortKey a.stages <;> rfl

theorem Plain.getLast?_front (ha : a.Plain) : ('{' :: ' ' :: a.front).getLast? = some ' ' := by
  rcases ha.spaced with hfront | hfront
  · rw [hfront]
    rfl
  · obtain ⟨x, hx⟩ := List.isSuffixOf_iff_suffix.mp hfront
    rw [← hx, ← List.cons_append, ← List.cons_append, List.getLast?_concat]

theorem Plain.leading (ha : a.Plain) {rest : List Stage} (h : a.stages = .operator key d :: rest) :
    Payload.documentAfter? ("pipeline: [ \x7b ".toList ++ key) a.text = some d := by
  have hstages : a.stages = [] ++ .operator key d :: rest := h
  obtain ⟨r, ht⟩ := text_eq hstages
  have hsplit : a.text = '{' :: ' ' :: a.front ++
      (("pipeline: [ \x7b ".toList ++ key) ++ (d ++ r)) := by
    rw [ht]
    simp [upTo, opening]
  have hd : IsObject d := ha.documents key d (by rw [h]; exact List.mem_cons_self)
  have hopen : "pipeline: [ \x7b ".toList ++ key = "pipeline: [ ".toList ++ '{' :: (' ' :: key) := by
    simp
  have hclear : Clear ("pipeline: [ \x7b ".toList ++ key) ('{' :: ' ' :: a.front)
      (("pipeline: [ \x7b ".toList ++ key) ++ (d ++ r)) := by
    constructor
    · rintro ⟨x, hx⟩
      cases hx
    · rw [hopen, List.append_assoc]
      exact clear_before (by decide) (by simp [ha.noBrace])
  rw [hsplit]
  exact documentAfter?_spaced hclear ha.getLast?_front (hd.balanced? r)

end Aggregation

namespace Query

theorem extract?_aggregation (ha : a.Plain) (hns : isExcluded ns = false)
    {scan : Text} (hfirst : (documentAfter? matchMarker a.text <|> documentAfter? sortMarker a.text) =
      some d) (t : Text) :
    extract? "aggregate".toList ns (a.text ++ t) scan =
      some ⟨.aggregate, d, stageSuffix a.stages⟩ := by
  have hpayload : leadingPayload (a.text ++ t) = a.text :=
    ha.closed.leadingPayload (u := []) (by decide) t
  have hfilter : pipelineFilter? a.text scan = some (d, stageSuffix a.stages) := by
    rw [pipelineFilter?, hfirst, ha.pipelineStages]
  have hname := extract?_name .aggregate ns (a.text ++ t) scan
  rw [hns, if_neg Bool.false_ne_true, hpayload, of?, filterOf?, hfilter] at hname
  exact hname

/-- The filter of an aggregation is the operand of its leading match, and the stages of its shape are
the first grouping and the first sort. A leading sort takes the place of a match. -/
theorem extract?_aggregate (ha : a.Plain) (hns : isExcluded ns = false) (rest : List Stage)
    (t scan : Text) :
    let extracted := extract? "aggregate".toList ns (a.text ++ t) scan
    (a.stages = .operator matchKey d :: rest →
      extracted = some ⟨.aggregate, d, stageSuffix a.stages⟩) ∧
    (a.stages = .operator sortKey d :: rest → contains matchMarker a.text = false →
      extracted = some ⟨.aggregate, d, ", sort: ".toList ++ stageText d⟩) := by
  intro extracted
  constructor
  · intro h
    have hmatch : documentAfter? matchMarker a.text = some d := ha.leading h
    exact extract?_aggregation ha hns (by rw [hmatch]; rfl) t
  · intro h hmarker
    have hsort : documentAfter? sortMarker a.text = some d := ha.leading h
    have hnone : documentAfter? matchMarker a.text = none :=
      documentAfter?_eq_none (by decide) hmarker
    have hsuffix : stageSuffix a.stages = ", sort: ".toList ++ stageText d := by
      have hat : FirstAt sortKey a.stages [] d := ⟨nofun, rest, h⟩
      rw [stageSuffix, hat.unsorted_eq, firstOperand?_eq_some.mpr ⟨_, hat⟩]
      rfl
    rw [← hsuffix]
    exact extract?_aggregation ha hns (by rw [hnone, hsort]; rfl) t

theorem extract?_aggregate_orders :
    let stages : List Stage := [.operator matchKey "\x7b a: 1 \x7d".toList,
      .operator groupKey "\x7b n: 1.0 \x7d".toList, .other "\x7b $limit: 5 \x7d".toList,
      .operator sortKey "\x7b n: -1 \x7d".toList, .operator groupKey "\x7b m: 1 \x7d".toList]
    let a : Aggregation := ⟨"aggregate: 'o', ".toList, stages, []⟩
    let b : Aggregation := ⟨[], [.operator sortKey "\x7b n: -1 \x7d".toList], ", hint: 1".toList⟩
    (a.Plain ∧ b.Plain ∧ contains matchMarker b.text = false ∧ isExcluded "db.o".toList = false) ∧
      extract? "aggregate".toList "db.o".toList (a.text ++ " planSummary: EOF".toList) [] =
        some ⟨.aggregate, "\x7b a: 1 \x7d".toList,
          ", group: \x7bn: 1\x7d, sort: \x7bn: -1\x7d".toList⟩ ∧
      extract? "aggregate".toList "db.o".toList (b.text ++ " planSummary: EOF".toList) [] =
        some ⟨.aggregate, "\x7b n: -1 \x7d".toList, ", sort: \x7bn: -1\x7d".toList⟩ := by
  intro stages a b
  have ha : a.Plain := by
    refine ⟨⟨by decide +kernel, by decide +kernel⟩, by decide, .inr (by decide), ?_,
      Aggregation.onlyHeads_of_inits (by decide +kernel),
      Aggregation.onlyHeads_of_inits (by decide +kernel)⟩
    intro key d h
    simp only [a, stages, List.mem_cons, Stage.operator.injEq, List.not_mem_nil, or_false,
      reduceCtorEq, false_or] at h
    rcases h with ⟨-, rfl⟩ | ⟨-, rfl⟩ | ⟨-, rfl⟩ | ⟨-, rfl⟩ <;> exact ⟨by decide, by decide⟩
  have hb : b.Plain := by
    refine ⟨⟨by decide, by decide⟩, by decide, .inl rfl, ?_,
      Aggregation.onlyHeads_of_inits (by decide +kernel),
      Aggregation.onlyHeads_of_inits (by decide +kernel)⟩
    intro key d h
    obtain ⟨-, rfl⟩ := Stage.operator.inj (List.mem_singleton.mp h)
    exact ⟨by decide, by decide⟩
  have hns : isExcluded "db.o".toList = false := by decide
  have hmarker : contains matchMarker b.text = false := by decide
  have hsuffix : stageSuffix a.stages =
      ", group: \x7bn: 1\x7d, sort: \x7bn: -1\x7d".toList := by decide +kernel
  have hled := (extract?_aggregate ha hns _ " planSummary: EOF".toList []).1 rfl
  have hsorted := (extract?_aggregate hb hns _ " planSummary: EOF".toList []).2 rfl hmarker
  have hsort : ", sort: ".toList ++ stageText "\x7b n: -1 \x7d".toList =
      ", sort: \x7bn: -1\x7d".toList := by decide +kernel
  rw [hsuffix] at hled
  rw [hsort] at hsorted
  exact ⟨⟨ha, hb, hmarker, hns⟩, hled, hsorted⟩

end Query

end SlowQuery.Record
