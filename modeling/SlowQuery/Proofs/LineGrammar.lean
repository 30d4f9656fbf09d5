import SlowQuery.Proofs.Lines

namespace SlowQuery.Record

open Text

def Inside (t : Text) : Prop := t ≠ [] ∧ ∀ c ∈ t, isContextChar c = true

def IsDigits (t : Text) : Prop := t ≠ [] ∧ ∀ c ∈ t, c.isDigit = true

/-- The parts of a line, with the white space that is free. -/
@[ext]
structure Layout where
  timestamp : Text
  severity : Text
  gap₁ : Text
  component : Text
  gap₂ : Text
  context : Text
  operation : Text
  ns : Text
  tag : Text
  body : Text
  digits : Text
  timestamp_solid : Solid timestamp
  severity_solid : Solid severity
  gap₁_free : Gap gap₁
  component_word : IsWordRun component
  gap₂_free : Gap gap₂
  context_inside : Inside context
  operation_word : IsWordRun operation
  ns_solid : Solid ns
  tag_solid : Solid tag
  body_line : '\n' ∉ body
  digits_number : IsDigits digits
  digits_lt : digitsValue digits < UInt64.size

namespace Layout

def text (l : Layout) : Text :=
  l.timestamp ++ ' ' :: (l.severity ++ (l.gap₁ ++ (l.component ++ (l.gap₂ ++ '[' :: (l.context ++
    ']' :: ' ' :: (l.operation ++ ' ' :: (l.ns ++ ' ' :: (l.tag ++ ':' :: ' ' :: (l.body ++
      ' ' :: (l.digits ++ ['m', 's']))))))))))

def line (l : Layout) : Line where
  timestamp := l.timestamp
  component := l.component
  operation := l.operation
  ns := l.ns
  body := l.body
  millis := UInt64.ofNatLT (digitsValue l.digits) l.digits_lt

end Layout

section

variable {a r t : Text}

theorem context?_eq_some_iff :
    context? t = some (a, r) ↔ t = '[' :: (a ++ ']' :: r) ∧ Inside a := by
  constructor
  · intro h
    simp only [context?, Option.bind_eq_bind, Option.bind_eq_some_iff, expect?_eq_some_iff] at h
    obtain ⟨u, rfl, h⟩ := h
    split at h
    · cases h
    next x y hne hs =>
      rw [Option.bind_eq_some_iff] at h
      obtain ⟨v, hv, h⟩ := h
      obtain ⟨rfl, rfl⟩ := Prod.mk.inj (Option.some.inj h)
      obtain ⟨rfl, hx, -⟩ := span_eq_iff.mp hs
      rw [expect?_eq_some_iff.mp hv]
      exact ⟨rfl, hne, hx⟩
  · rintro ⟨rfl, ha⟩
    exact context?_append ha r

theorem isTag_iff : isTag t = true ↔ ∃ tag, tag ≠ [] ∧ t = tag ++ [':'] := by
  rw [isTag, Bool.and_eq_true, decide_eq_true_eq, endsWith, List.isSuffixOf_iff_suffix]
  constructor
  · rintro ⟨hlen, tag, rfl⟩
    refine ⟨tag, ?_, rfl⟩
    rintro rfl
    simp at hlen
  · rintro ⟨tag, hne, rfl⟩
    refine ⟨?_, List.suffix_append tag [':']⟩
    rw [List.length_append, List.length_singleton]
    exact Nat.succ_lt_succ (List.length_pos_iff.mpr hne)

theorem duration?_eq_some_iff {digits : Text} {millis : UInt64} :
    duration? digits = some millis ↔
      digits ≠ [] ∧ ∃ h : digitsValue digits < UInt64.size,
        UInt64.ofNatLT (digitsValue digits) h = millis := by
  rw [duration?]
  by_cases h : digits ≠ [] ∧ digitsValue digits < UInt64.size
  · simp [h, UInt64.ofNatLT_eq_ofNat]
  · simp only [h, if_false, reduceCtorEq, false_iff]
    rintro ⟨hne, hlt, -⟩
    exact h ⟨hne, hlt⟩

theorem bodyAndMillis?_eq_some_iff {body : Text} {millis : UInt64} :
    bodyAndMillis? t = some (body, millis) ↔
      ∃ digits, t = body ++ ' ' :: (digits ++ ['m', 's']) ∧ (∀ c ∈ digits, c.isDigit = true) ∧
        duration? digits = some millis ∧ '\n' ∉ body := by
  constructor
  · intro h
    rw [bodyAndMillis?] at h
    split at h
    next back ht =>
      split at h
      next digits body' hs =>
        obtain ⟨hback, hdigits, -⟩ := span_eq_iff.mp hs
        simp only [Option.bind_eq_bind, Option.bind_eq_some_iff] at h
        obtain ⟨n, hn, h⟩ := h
        split at h
        · cases h
        next hline =>
          obtain ⟨rfl, rfl⟩ := Prod.mk.inj (Option.some.inj h)
          refine ⟨digits.reverse, ?_, ?_, hn, ?_⟩
          · have hrev := congrArg List.reverse ht
            simpa [hback] using hrev
          · simpa using hdigits
          · simpa using hline
      next => cases h
    next => cases h
  · rintro ⟨digits, rfl, hdigits, hn, hline⟩
    rw [bodyAndMillis?_append hdigits, hn, Option.bind_some, if_neg hline]

end

variable {t : Text} {m : Line}

theorem exists_layout (h : Line.read? t = some m) : ∃ l : Layout, l.text = t ∧ l.line = m := by
  simp only [Line.read?, Option.bind_eq_bind, Option.bind_eq_some_iff, Prod.exists,
    solid?_eq_some_iff, word?_eq_some_iff, gap?_eq_some_iff, context?_eq_some_iff,
    expect?_eq_some_iff] at h
  obtain ⟨timestamp, _, ⟨rfl, htimestamp, -⟩, _, rfl, severity, _, ⟨rfl, hseverity, -⟩,
    _, ⟨gap₁, hgap₁, rfl, -⟩, component, _, ⟨rfl, hcomponent, -⟩, _, ⟨gap₂, hgap₂, rfl, -⟩,
    context, _, ⟨rfl, hcontext⟩, _, rfl, operation, _, ⟨rfl, hoperation, -⟩, _, rfl,
    ns, _, ⟨rfl, hns, -⟩, _, rfl, run, _, ⟨rfl, hrun, -⟩, rest, rfl, h⟩ := h
  split at h
  next htag =>
    obtain ⟨tag, hne, rfl⟩ := isTag_iff.mp htag
    obtain ⟨⟨body, millis⟩, hb, he⟩ := Option.bind_eq_some_iff.mp h
    obtain ⟨digits, rfl, hdigits, hn, hline⟩ := bodyAndMillis?_eq_some_iff.mp hb
    obtain ⟨hdne, hlt, rfl⟩ := duration?_eq_some_iff.mp hn
    have hsolid : Solid tag := ⟨hne, fun c hc => hrun.2 c (List.mem_append_left _ hc)⟩
    refine ⟨⟨timestamp, severity, gap₁, component, gap₂, context, operation, ns, tag, body, digits,
      htimestamp, hseverity, hgap₁, hcomponent, hgap₂, hcontext, hoperation, hns, hsolid, hline,
      ⟨hdne, hdigits⟩, hlt⟩, ?_, Option.some.inj he⟩
    simp [Layout.text]
  next => cases h

theorem Gap.endsSolid {w : Text} (h : Gap w) (r : Text) :
    EndsRun (fun c => !isBlank c) (w ++ r) :=
  endsRun_append h.1 (fun c hc => by rw [h.2 c hc]; rfl) r

theorem Gap.endsWord {w : Text} (h : Gap w) (r : Text) : EndsRun Text.isWord (w ++ r) :=
  endsRun_append h.1 (fun c hc => isWord_of_blank (h.2 c hc)) r

namespace Layout

theorem solid_run (l : Layout) : Solid (l.tag ++ [':']) := by
  refine ⟨by simp, fun c hc => ?_⟩
  rcases List.mem_append.mp hc with hc | hc
  · exact l.tag_solid.2 c hc
  · rw [List.mem_singleton.mp hc]
    rfl

theorem read?_text (l : Layout) : Line.read? l.text = some l.line := by
  have hspace (r : Text) : EndsRun (fun c => !isBlank c) (' ' :: r) := endsRun_cons rfl r
  have hbody : bodyAndMillis? (l.body ++ ' ' :: (l.digits ++ ['m', 's'])) =
      some (l.body, UInt64.ofNatLT (digitsValue l.digits) l.digits_lt) :=
    bodyAndMillis?_eq_some_iff.mpr ⟨l.digits, rfl, l.digits_number.2,
      duration?_eq_some_iff.mpr ⟨l.digits_number.1, l.digits_lt, rfl⟩, l.body_line⟩
  have htag : isTag (l.tag ++ [':']) = true := isTag_iff.mpr ⟨l.tag, l.tag_solid.1, rfl⟩
  simp only [Line.read?, Option.bind_eq_bind, Option.bind_eq_some_iff, Prod.exists,
    solid?_eq_some_iff, word?_eq_some_iff, gap?_eq_some_iff, context?_eq_some_iff,
    expect?_eq_some_iff]
  refine ⟨l.timestamp, _, ⟨rfl, l.timestamp_solid, hspace _⟩, _, rfl,
    l.severity, _, ⟨rfl, l.severity_solid, l.gap₁_free.endsSolid _⟩,
    _, ⟨l.gap₁, l.gap₁_free, rfl, l.component_word.endsBlank _⟩,
    l.component, _, ⟨rfl, l.component_word, l.gap₂_free.endsWord _⟩,
    _, ⟨l.gap₂, l.gap₂_free, rfl, endsRun_cons rfl _⟩,
    l.context, _, ⟨rfl, l.context_inside⟩, _, rfl,
    l.operation, _, ⟨rfl, l.operation_word, endsRun_cons rfl _⟩, _, rfl,
    l.ns, _, ⟨rfl, l.ns_solid, hspace _⟩, _, rfl,
    l.tag ++ [':'], _, ⟨List.append_cons _ _ _, l.solid_run, hspace _⟩, _, rfl, ?_⟩
  rw [if_pos htag, hbody]
  rfl

theorem duration_inj {body body' digits digits' : Text} (hd : IsDigits digits)
    (hd' : IsDigits digits')
    (h : body ++ ' ' :: (digits ++ ['m', 's']) = body' ++ ' ' :: (digits' ++ ['m', 's'])) :
    body = body' ∧ digits = digits' := by
  have hback : digits.reverse ++ ' ' :: body.reverse = digits'.reverse ++ ' ' :: body'.reverse := by
    simpa using congrArg List.reverse h
  have hdigits : ∀ {ds : Text}, IsDigits ds → ∀ c ∈ ds.reverse, c.isDigit = true :=
    fun hd c hc => hd.2 c (List.mem_reverse.mp hc)
  obtain ⟨he, hr⟩ := run_append_inj (hdigits hd) (hdigits hd') (endsRun_cons rfl _)
    (endsRun_cons rfl _) hback
  exact ⟨List.reverse_inj.mp (List.cons.inj hr).2, List.reverse_inj.mp he⟩

theorem text_injective : Function.Injective Layout.text := by
  intro l k h
  have hsolid : ∀ {a}, Solid a → ∀ c ∈ a, (!isBlank c) = true := fun ha c hc => by rw [ha.2 c hc]; rfl
  obtain ⟨htimestamp, h⟩ := run_append_inj (hsolid l.timestamp_solid) (hsolid k.timestamp_solid)
    (endsRun_cons rfl _) (endsRun_cons rfl _) h
  obtain ⟨hseverity, h⟩ := run_append_inj (hsolid l.severity_solid) (hsolid k.severity_solid)
    (l.gap₁_free.endsSolid _) (k.gap₁_free.endsSolid _) (List.cons.inj h).2
  obtain ⟨hgap₁, h⟩ := run_append_inj l.gap₁_free.2 k.gap₁_free.2 (l.component_word.endsBlank _)
    (k.component_word.endsBlank _) h
  obtain ⟨hcomponent, h⟩ := run_append_inj l.component_word.2 k.component_word.2
    (l.gap₂_free.endsWord _) (k.gap₂_free.endsWord _) h
  obtain ⟨hgap₂, h⟩ := run_append_inj l.gap₂_free.2 k.gap₂_free.2 (endsRun_cons rfl _)
    (endsRun_cons rfl _) h
  obtain ⟨hcontext, h⟩ := run_append_inj l.context_inside.2 k.context_inside.2
    (endsRun_cons rfl _) (endsRun_cons rfl _) (List.cons.inj h).2
  obtain ⟨hoperation, h⟩ := run_append_inj l.operation_word.2 k.operation_word.2
    (endsRun_cons rfl _) (endsRun_cons rfl _) (List.cons.inj (List.cons.inj h).2).2
  obtain ⟨hns, h⟩ := run_append_inj (hsolid l.ns_solid) (hsolid k.ns_solid)
    (endsRun_cons rfl _) (endsRun_cons rfl _) (List.cons.inj h).2
  -- The run without white space ends behind the colon, so the colon is split off afterwards.
  have h := (List.cons.inj h).2
  rw [List.append_cons, List.append_cons k.tag] at h
  obtain ⟨hrun, h⟩ := run_append_inj (hsolid l.solid_run) (hsolid k.solid_run)
    (endsRun_cons rfl _) (endsRun_cons rfl _) h
  obtain ⟨hbody, hdigits⟩ := duration_inj l.digits_number k.digits_number (List.cons.inj h).2
  exact Layout.ext htimestamp hseverity hgap₁ hcomponent hgap₂ hcontext hoperation hns
    (List.append_cancel_right hrun) hbody hdigits

end Layout

/-- A line is read just if it is written in the grammar, and then as the parts that it is written
from. No line can be cut into other parts. -/
theorem read?_eq_some_iff :
    Function.Injective Layout.text ∧
      ∀ t m, Line.read? t = some m ↔ ∃ l : Layout, l.text = t ∧ l.line = m := by
  refine ⟨Layout.text_injective, fun t m => ⟨exists_layout, ?_⟩⟩
  rintro ⟨l, rfl, rfl⟩
  exact l.read?_text

/-- Tags, brackets and durations in the body do not divide the line. -/
example : (Line.read? "t I  NET [c] query a.b x: [y] z: 5ms 07ms".toList).map
    (fun m => (m.ns, m.body, m.millis)) = some ("a.b".toList, "[y] z: 5ms".toList, 7) := by
  decide +kernel

end SlowQuery.Record
