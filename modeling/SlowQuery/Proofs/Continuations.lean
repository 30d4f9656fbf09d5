import SlowQuery.Proofs.Unwrapping

namespace SlowQuery.Record

open Text Payload

variable {b d : Text}

def pipelineWord : Text := "pipeline:".toList

theorem hasPipeline_object (hd : IsObject d) : hasPipeline d = contains pipelineWord d := by
  obtain ⟨u, rfl, -⟩ := hd.cons
  have hsome := isSome_position? pipelineWord u
  have hnot : startsWith pipelineWord ('{' :: u) = false := rfl
  have hafter : after? pipelineWord ('{' :: u) = after? pipelineWord u :=
    passes_after pipelineWord none '{' u fun h => by
      rw [startsWith_iff.mpr h] at hnot
      cases hnot
  have hposition : position? pipelineWord ('{' :: u) = (position? pipelineWord u).map (· + 1) := by
    rw [position?, hnot, if_neg Bool.false_ne_true]
  rw [hasPipeline, show "pipeline:".toList = pipelineWord from rfl, hposition, contains, hafter,
    ← contains, ← hsome]
  cases position? pipelineWord u <;> simp

/-- The command that a continuation names stands behind its document. -/
def continuation (b d t : Text) : Text := b ++ (" originatingCommand: ".toList ++ (d ++ t))

theorem documentAfter?_continuation (hb : IsObject b)
    (hmarker : contains "originatingCommand: ".toList b = false) (hd : IsObject d) (t : Text) :
    documentAfter? "originatingCommand: ".toList (continuation b d t) = some d := by
  obtain ⟨x, hx⟩ := List.isSuffixOf_iff_suffix.mp hb.endsWith
  have hsplit : continuation b d t =
      (x ++ ['}', ' ']) ++ ("originatingCommand: ".toList ++ (d ++ t)) := by
    rw [continuation, ← hx]
    simp
  have hinfix : ¬"originatingCommand: ".toList <:+: x := fun h =>
    not_infix_of_contains (by decide) hmarker (h.trans ⟨[], ['}'], by simpa using hx⟩)
  have hbrace : '}' ∉ "originatingCommand: ".toList := by decide
  have hfront : Clear "originatingCommand: ".toList x
      (['}', ' '] ++ ("originatingCommand: ".toList ++ (d ++ t))) :=
    clear_of_not_infix hbrace hinfix
  have hname : ∀ c ∈ ['}', ' '], isNameChar c = false :=
    List.forall_mem_cons.mpr ⟨by decide, List.forall_mem_singleton.mpr (by decide)⟩
  have hbehind : Clear "originatingCommand: ".toList ['}', ' ']
      ("originatingCommand: ".toList ++ (d ++ t)) :=
    clear_of_no_name (n := "originatingCommand".toList) (by decide) hname
  have hspace : (x ++ ['}', ' ']).getLast? = some ' ' := by
    rw [List.getLast?_append]
    rfl
  rw [hsplit]
  exact documentAfter?_spaced (hfront.append hbehind) hspace (hd.balanced? t)

namespace Query

theorem continuedFilter?_eq {scan : Text} {body : Text}
    (h : documentAfter? "originatingCommand: ".toList body = some d)
    (hfilter : (documentAfter? "filter: ".toList d).isSome = true) (hd : IsObject d) :
    continuedFilter? body scan =
      if contains pipelineWord d then pipelineFilter? d scan else findFilter? d := by
  rw [continuedFilter?, h, Option.bind_eq_bind, Option.bind_some, hasPipeline_object hd,
    if_pos hfilter]

def parts (q : Query) : Text × Text := (q.filter, q.stages)

theorem map_parts (verb : Verb) (payload body scan : Text) :
    (of? verb payload body scan).map parts = filterOf? verb payload body scan := by
  rw [of?, Option.map_map]
  exact (congrFun Option.map_id _)

/-- A continuation has the filter and the stages of the find that it names, if there are any. Where
the word for a pipeline stands in the text of the find, it has those of an aggregation instead. -/
theorem extract?_continuation (hb : IsObject b)
    (hmarker : contains "originatingCommand: ".toList b = false) (hd : IsObject d)
    (hfilter : (documentAfter? "filter: ".toList d).isSome = true) (ns t scan : Text) :
    let continued := extract? "getMore".toList ns (continuation b d t) scan
    (contains pipelineWord d = false →
      continued.map parts = (extract? "find".toList ns d scan).map parts) ∧
    (contains pipelineWord d = true →
      continued.map parts = (extract? "aggregate".toList ns d scan).map parts) := by
  intro continued
  have horigin := documentAfter?_continuation hb hmarker hd t
  have hpayload : leadingPayload d = d := by
    have h := hd.leadingPayload (u := []) (by decide) []
    rwa [List.append_nil] at h
  have hcontinued : continued =
      if isExcluded ns then none
      else of? .getMore (leadingPayload (continuation b d t)) (continuation b d t) scan :=
    extract?_name .getMore ns (continuation b d t) scan
  have hread : continuedFilter? (continuation b d t) scan =
      if contains pipelineWord d then pipelineFilter? d scan else findFilter? d :=
    continuedFilter?_eq horigin hfilter hd
  have hof : ∀ verb, extract? verb.name ns d scan =
      if isExcluded ns then none else of? verb d d scan := fun verb => by
    rw [extract?_name, hpayload]
  rw [hcontinued, show "find".toList = Verb.find.name from rfl, hof .find,
    show "aggregate".toList = Verb.aggregate.name from rfl, hof .aggregate]
  cases isExcluded ns with
  | true => exact ⟨fun _ => rfl, fun _ => rfl⟩
  | false =>
      simp only [Bool.false_eq_true, if_false, map_parts]
      simp only [filterOf?, hread]
      constructor
      · intro hword
        rw [hword, if_neg Bool.false_ne_true]
      · intro hword
        rw [hword, if_pos rfl]

theorem extract?_continuation_find :
    let b := "\x7b getMore: 1 \x7d".toList
    let d := "\x7b find: 'c', filter: \x7b a: 1 \x7d, sort: \x7b b: 1 \x7d \x7d".toList
    IsObject b ∧ contains "originatingCommand: ".toList b = false ∧ IsObject d ∧
      (documentAfter? "filter: ".toList d).isSome = true ∧ contains pipelineWord d = false ∧
      (extract? "getMore".toList "db.c".toList (continuation b d []) []).map parts =
        (extract? "find".toList "db.c".toList d []).map parts := by
  intro b d
  have hb : IsObject b := ⟨by decide, by decide⟩
  have hmarker : contains "originatingCommand: ".toList b = false := by decide
  have hd : IsObject d := ⟨by decide +kernel, by decide +kernel⟩
  have hfilter : (documentAfter? "filter: ".toList d).isSome = true := by decide +kernel
  have hword : contains pipelineWord d = false := by decide +kernel
  have h := extract?_continuation hb hmarker hd hfilter "db.c".toList [] []
  exact ⟨hb, hmarker, hd, hfilter, hword, h.1 hword⟩

/-- A filter over a field whose name ends in `pipeline` hides the query from its continuation. -/
theorem continued_query_lost :
    let b := "\x7b getMore: 1 \x7d".toList
    let d := "\x7b find: 'c', filter: \x7b subpipeline: 1 \x7d \x7d".toList
    (IsObject b ∧ contains "originatingCommand: ".toList b = false) ∧
      (IsObject d ∧ (documentAfter? "filter: ".toList d).isSome = true) ∧
      isExcluded "db.c".toList = false ∧
      (extract? "find".toList "db.c".toList d []).map parts =
        some ("\x7b subpipeline: 1 \x7d".toList, []) ∧
      extract? "getMore".toList "db.c".toList (continuation b d []) [] = none := by
  intro b d
  refine ⟨⟨⟨by decide, by decide⟩, by decide⟩, ⟨⟨by decide, by decide⟩, by decide⟩, by decide,
    by decide, ?_⟩
  exact Option.isNone_iff_eq_none.mp (by decide)

end Query

end SlowQuery.Record
