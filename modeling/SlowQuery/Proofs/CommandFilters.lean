import SlowQuery.Proofs.Canonical
import SlowQuery.Proofs.Members
import SlowQuery.Proofs.Unwrapping

namespace SlowQuery.Record

open Text Payload Shape

variable {ns : Text} {ms qs us : List (Text × Value)} {v : Value}

theorem leadingPayload_render (h : Simple (.object ms)) :
    leadingPayload (Value.object ms).render = (Value.object ms).render := by
  have hcut := (h.balanced? []).trans (if_pos rfl)
  rw [List.append_nil] at hcut
  have hpayload := leadingPayload_append (u := []) (by decide) hcut []
  rwa [List.append_nil] at hpayload

theorem extract?_render (h : Simple (.object ms)) (hns : isExcluded ns = false) (verb : Verb)
    (scan : Text) :
    Query.extract? verb.name ns (Value.object ms).render scan =
      Query.of? verb (Value.object ms).render (Value.object ms).render scan := by
  rw [Query.extract?_name, hns, if_neg Bool.false_ne_true, leadingPayload_render h]

def SortStage : Option Value → Text → Prop
  | none, stage => stage = []
  | some sort, stage =>
    ∃ signature, sortSignature sort.render = .ok signature ∧ stage = ", sort: ".toList ++ signature

structure Query.Finds (filter sort : Option Value) (q : Query) : Prop where
  verb : q.verb = .find
  filter : q.filter = (filter.map Value.render).getD "\x7b \x7d".toList
  stages : SortStage sort q.stages

theorem findFilter?_render (h : Simple (.object ms)) :
    ∃ stages, findFilter? (Value.object ms).render =
        some ((((Value.object ms).first? "filter".toList).map Value.render).getD "\x7b \x7d".toList,
          stages) ∧
      SortStage ((Value.object ms).first? "sort".toList) stages := by
  have hfilter : documentAfter? "filter: ".toList (Value.object ms).render = _ :=
    documentAfter?_render (n := "filter".toList) (by decide) h
  have hsort : documentAfter? "sort: ".toList (Value.object ms).render = _ :=
    documentAfter?_render (n := "sort".toList) (by decide) h
  rw [findFilter?, hfilter, hsort]
  cases hfirst : (Value.object ms).first? "sort".toList with
  | none => exact ⟨[], rfl, rfl⟩
  | some sort =>
      have hread : parse sort.render = .ok sort := parse_render (.inl (h.first? hfirst).legible)
      have hsignature := sortSignature_eq_ok.mpr ⟨sort, hread, rfl⟩
      simp only [Option.map_some, hsignature]
      exact ⟨_, rfl, _, hsignature, rfl⟩

namespace Query

/-- A find is taken from its document with the first filter and the first sort that stand in it,
however deep. They are its own where none of the name stands deeper in front of them. -/
theorem extract?_find_render (h : Simple (.object ms)) (hns : isExcluded ns = false) (scan : Text) :
    let d := Value.object ms
    ∃ q, extract? "find".toList ns d.render scan = some q ∧
      q.Finds (d.first? "filter".toList) (d.first? "sort".toList) ∧
      (Foremost "filter".toList ms → Foremost "sort".toList ms →
        q.Finds (d.field? "filter".toList) (d.field? "sort".toList)) := by
  intro d
  obtain ⟨stages, hfilter, hstages⟩ := findFilter?_render h
  let filter := ((d.first? "filter".toList).map Value.render).getD "\x7b \x7d".toList
  have hq : Query.Finds (d.first? "filter".toList) (d.first? "sort".toList)
      ⟨.find, filter, stages⟩ := ⟨rfl, rfl, hstages⟩
  refine ⟨⟨.find, filter, stages⟩, ?_, hq, fun hf hs => ?_⟩
  · have hfind := extract?_render h hns .find scan
    rw [of?, filterOf?, hfilter] at hfind
    exact hfind
  · rw [← hf.first?_eq, ← hs.first?_eq]
    exact hq

theorem extract?_find_render_sorted :
    let one := Value.scalar (.number ['1'])
    let ms := [("find".toList, one), ("filter".toList, .object [("resort".toList, .object [])]),
      ("sort".toList, .object [("a".toList, one)]),
      ("hint".toList, .object [("sort".toList, .object [])])]
    let d := Value.object ms
    Simple d ∧ isExcluded "db.c".toList = false ∧
      Foremost "filter".toList ms ∧ Foremost "sort".toList ms ∧
      ∃ q, extract? "find".toList "db.c".toList d.render [] = some q ∧
        q.Finds (d.field? "filter".toList) (d.field? "sort".toList) := by
  intro one ms d
  have hone : Simple one := .scalar (inert_number rfl)
  have hd : Simple d :=
    .cons (by decide) hone <| .cons (by decide) (.cons (by decide) .nil .nil) <|
      .cons (by decide) (.cons (by decide) hone .nil) <|
        .cons (by decide) (.cons (by decide) .nil .nil) .nil
  have hfilter : Foremost "filter".toList ms := ⟨by rintro v ⟨⟩; rfl, by decide⟩
  have hsort : Foremost "sort".toList ms := ⟨by rintro v ⟨⟩; rfl, by decide⟩
  have hns : isExcluded "db.c".toList = false := by decide
  obtain ⟨q, hq, -, hown⟩ := extract?_find_render hd hns []
  exact ⟨hd, hns, hfilter, hsort, q, hq, hown hfilter hsort⟩

/-- A field of a filter that has the name `sort` is taken for the sort of a find without one. -/
theorem sort_of_filter_taken :
    let d := Value.object [("find".toList, .scalar (.number ['1'])), ("filter".toList,
      .object [("sort".toList, .object [("a".toList, .scalar (.number ['1']))])])]
    Simple d ∧ d.field? "sort".toList = none ∧
      (extract? "find".toList "db.c".toList d.render []).map
        (fun q => (q.verb, q.filter, q.stages)) =
          some (.find, "\x7bsort: \x7ba: 1\x7d\x7d".toList, ", sort: \x7ba: 1\x7d".toList) := by
  have hone : Simple (.scalar (.number ['1'])) := .scalar (inert_number rfl)
  refine ⟨.cons (by decide) hone (.cons (by decide) ?_ .nil), rfl, by decide⟩
  exact .cons (by decide) (.cons (by decide) hone .nil) .nil

end Query

def updateCommand (q u : Value) : Value :=
  .object [("q".toList, q), ("u".toList, u), ("multi".toList, .scalar (.bool false)),
    ("upsert".toList, .scalar (.bool false))]

def removeCommand (q : Value) : Value :=
  .object [("q".toList, q), ("limit".toList, .scalar (.number ['0']))]

theorem writeFilter?_render (h : Simple (.object ms)) :
    let d := Value.object ms
    writeFilter? d.render =
      some ((if d.hasKeyEnding "query".toList then d.first? "query".toList
        else d.first? "q".toList).getD d).render := by
  intro d
  have hquery : documentAfter? "query: ".toList d.render = _ :=
    documentAfter?_render (n := "query".toList) (by decide) h
  have hq : documentAfter? "q: ".toList d.render = _ :=
    documentAfter?_render (n := "q".toList) (by decide) h
  have hkey : contains "query: ".toList d.render = d.hasKeyEnding "query".toList :=
    contains_render (n := "query".toList) (by decide) h
  have hwhole : (after? ['{'] d.render).map ('{' :: ·) = some d.render :=
    congrArg (Option.map ('{' :: ·)) (after_found (m := ['{']) (by decide) _)
  rw [writeFilter?, hquery, hq, hkey, hwhole]
  cases d.hasKeyEnding "query".toList with
  | true => cases d.first? "query".toList <;> rfl
  | false => cases d.first? "q".toList <;> rfl

section

variable {q u : Value}

theorem simple_updateCommand (hq : Simple q) (hu : Simple u) : Simple (updateCommand q u) :=
  .cons (by decide) hq <| .cons (by decide) hu <|
    .cons (by decide) (.scalar (inert_bool false)) <|
      .cons (by decide) (.scalar (inert_bool false)) .nil

theorem simple_removeCommand (hq : Simple q) : Simple (removeCommand q) :=
  .cons (by decide) hq (.cons (by decide) (.scalar (inert_number rfl)) .nil)

theorem hasKeyEnding_updateCommand (q u : Value) :
    (updateCommand q u).hasKeyEnding "query".toList =
      (q.hasKeyEnding "query".toList || u.hasKeyEnding "query".toList) := by
  have hkeys : endsWith "query".toList "q".toList = false ∧
      endsWith "query".toList "u".toList = false := by decide
  have hflags : (Value.object [("multi".toList, .scalar (.bool false)),
      ("upsert".toList, .scalar (.bool false))]).hasKeyEnding "query".toList = false := by decide
  rw [updateCommand, hasKeyEnding_cons, hasKeyEnding_cons, hflags, hkeys.1, hkeys.2,
    Bool.false_or, Bool.false_or, Bool.or_false]

theorem hasKeyEnding_removeCommand (q : Value) :
    (removeCommand q).hasKeyEnding "query".toList = q.hasKeyEnding "query".toList := by
  have hlimit : (Value.object [("limit".toList, .scalar (.number ['0']))]).hasKeyEnding
      "query".toList = false := by decide
  have hkey : endsWith "query".toList "q".toList = false := by decide
  rw [removeCommand, hasKeyEnding_cons, hlimit, hkey, Bool.false_or, Bool.or_false]

end

namespace Query

theorem extract?_write {verb : Verb} (hverb : verb = .update ∨ verb = .remove)
    (h : Simple (.object ms)) (hns : isExcluded ns = false)
    (hq : (Value.object ms).first? "q".toList = some v) (scan : Text) :
    let d := Value.object ms
    let filter := if d.hasKeyEnding "query".toList then (d.first? "query".toList).getD d else v
    extract? verb.name ns d.render scan = some ⟨verb, filter.render, []⟩ := by
  intro d filter
  have hwrite : writeFilter? d.render = some filter.render := by
    rw [writeFilter?_render h, hq]
    simp only [filter]
    split <;> rfl
  rw [extract?_render h hns, of?]
  rcases hverb with rfl | rfl <;> rw [filterOf?, hwrite] <;> rfl

/-- The filter of a write is its `q` where no key in it or in the update ends in `query`. Else it
is the first document with the name `query`, and without one the command as a whole. -/
theorem extract?_write_render (hq : Simple (.object qs)) (hu : Simple (.object us))
    (hns : isExcluded ns = false) (scan : Text) :
    let q := Value.object qs
    let u := Value.object us
    let found (d : Value) :=
      if d.hasKeyEnding "query".toList then (d.first? "query".toList).getD d else q
    extract? "update".toList ns (updateCommand q u).render scan =
        some ⟨.update, (found (updateCommand q u)).render, []⟩ ∧
      extract? "remove".toList ns (removeCommand q).render scan =
        some ⟨.remove, (found (removeCommand q)).render, []⟩ ∧
      (q.hasKeyEnding "query".toList = false →
        found (removeCommand q) = q ∧
          (u.hasKeyEnding "query".toList = false → found (updateCommand q u) = q)) := by
  intro q u found
  refine ⟨?_, ?_, fun hqk => ⟨?_, fun huk => ?_⟩⟩
  · exact extract?_write (.inl rfl) (simple_updateCommand hq hu) hns (first?_head rfl _) scan
  · exact extract?_write (.inr rfl) (simple_removeCommand hq) hns (first?_head rfl _) scan
  · simp only [found, hasKeyEnding_removeCommand, hqk, Bool.false_eq_true, if_false]
  · simp only [found, hasKeyEnding_updateCommand, hqk, huk, Bool.or_false, Bool.false_eq_true,
      if_false]

theorem extract?_write_render_unique :
    let one := Value.scalar (.number ['1'])
    let qs := [("a".toList, one)]
    let us := [("uniq".toList, Value.object [("b".toList, one)])]
    let q := Value.object qs
    let u := Value.object us
    Simple q ∧ Simple u ∧ isExcluded "db.c".toList = false ∧
      q.hasKeyEnding "query".toList = false ∧ u.hasKeyEnding "query".toList = false ∧
      extract? "update".toList "db.c".toList (updateCommand q u).render [] =
        some ⟨.update, q.render, []⟩ ∧
      extract? "remove".toList "db.c".toList (removeCommand q).render [] =
        some ⟨.remove, q.render, []⟩ := by
  intro one qs us q u
  have hone : Simple one := .scalar (inert_number rfl)
  have hq : Simple q := .cons (by decide) hone .nil
  have hu : Simple u := .cons (by decide) (.cons (by decide) hone .nil) .nil
  have hns : isExcluded "db.c".toList = false := by decide
  have hqk : q.hasKeyEnding "query".toList = false := by decide
  have huk : u.hasKeyEnding "query".toList = false := by decide
  obtain ⟨hupdate, hremove, hplain⟩ := extract?_write_render hq hu hns []
  rw [(hplain hqk).2 huk] at hupdate
  rw [(hplain hqk).1] at hremove
  exact ⟨hq, hu, hns, hqk, huk, hupdate, hremove⟩

/-- A field of an update hides the filter: by its name, or as a document of the name `query`. -/
theorem filter_of_update_taken :
    let one := Value.scalar (.number ['1'])
    let q := Value.object [("a".toList, one)]
    let named := Value.object [("subquery".toList, one)]
    let nested := Value.object [("query".toList, .object [("b".toList, one)])]
    let filter (u : Value) :=
      (extract? "update".toList "db.c".toList (updateCommand q u).render []).map (·.filter)
    Simple q ∧ Simple named ∧ Simple nested ∧ q.render = "\x7ba: 1\x7d".toList ∧
      filter named =
        some "\x7bq: \x7ba: 1\x7d, u: \x7bsubquery: 1\x7d, multi: false, upsert: false\x7d".toList ∧
      filter nested = some "\x7bb: 1\x7d".toList := by
  intro one q named nested filter
  have hone : Simple one := .scalar (inert_number rfl)
  have hq : Simple q := .cons (by decide) hone .nil
  have hnamed : Simple named := .cons (by decide) hone .nil
  have hnested : Simple nested := .cons (by decide) (.cons (by decide) hone .nil) .nil
  exact ⟨hq, hnamed, hnested, rfl, by decide, by decide⟩

end Query

end SlowQuery.Record
