import SlowQuery.Proofs.Tokens

namespace SlowQuery.Payload

open Text

def isDelimiter (c : Char) : Bool := c ∈ [',', '}', ']']

def wordStep : WordScan → (depth : Nat) → Char → Option (WordScan × Nat)
  | .escaped q, d, _ => some (.quoted q, d)
  | .quoted q, d, c =>
    some (if c = '\\' then .escaped q else if c = q then .plain else .quoted q, d)
  | .plain, 0, c => if isDelimiter c then none else some (.plain, if c = '(' then 1 else 0)
  | .plain, d + 1, c =>
    some (if isQuote c then .quoted c else .plain,
      if c = '(' then d + 2 else if c = ')' then d else d + 1)

def wordRun (s : WordScan) (d : Nat) : Text → Option (WordScan × Nat)
  | [] => some (s, d)
  | c :: t => (wordStep s d c).bind fun (s, d) => wordRun s d t

theorem wordRun_append (s : WordScan) (d : Nat) (w u : Text) :
    wordRun s d (w ++ u) = (wordRun s d w).bind fun (s, d) => wordRun s d u := by
  induction w generalizing s d with
  | nil => rfl
  | cons c w ih =>
      simp only [List.cons_append, wordRun]
      cases wordStep s d c with
      | none => rfl
      | some p => exact ih p.1 p.2

theorem bareWord_cons (s : WordScan) (d : Nat) (c : Char) (t : Text) :
    bareWord s d (c :: t) =
      match wordStep s d c with
      | none => .ok ([], c :: t)
      | some (s, d) => (bareWord s d t).map fun (l, r) => (c :: l, r) := by
  cases s with
  | escaped q => rfl
  | quoted q => rfl
  | plain =>
      cases d with
      | succ d => rfl
      | zero =>
          by_cases hc : c ∈ [',', '}', ']']
          · simp only [bareWord, wordStep, isDelimiter, hc, decide_true, if_true]
          · simp only [bareWord, wordStep, isDelimiter, hc, decide_false, if_false, Bool.false_eq_true]

theorem bareWord_run {s s' : WordScan} {d d' : Nat} {w : Text} (h : wordRun s d w = some (s', d'))
    (t : Text) : bareWord s d (w ++ t) = (bareWord s' d' t).map fun (l, r) => (w ++ l, r) := by
  induction w generalizing s d with
  | nil =>
      obtain ⟨rfl, rfl⟩ := Prod.mk.inj (Option.some.inj h)
      rw [List.nil_append]
      cases bareWord s d t <;> rfl
  | cons c w ih =>
      rw [wordRun, Option.bind_eq_some_iff] at h
      obtain ⟨⟨s₁, d₁⟩, hs, hw⟩ := h
      rw [List.cons_append, bareWord_cons, hs]
      simp only [ih hw]
      cases bareWord s' d' t <;> rfl

theorem bareWord_sound {s : WordScan} {d : Nat} {t w r : Text} (h : bareWord s d t = .ok (w, r)) :
    ∃ d', t = w ++ r ∧ wordRun s d w = some (.plain, d') ∧
      (r = [] ∨ d' = 0 ∧ ∃ c r', r = c :: r' ∧ isDelimiter c = true) := by
  induction t generalizing s d w with
  | nil =>
      cases s with
      | plain =>
          obtain ⟨rfl, rfl⟩ := Prod.mk.inj (Except.ok.inj h)
          exact ⟨d, rfl, rfl, .inl rfl⟩
      | quoted | escaped => simp [bareWord] at h
  | cons c t ih =>
      rw [bareWord_cons] at h
      split at h
      next hs =>
        obtain ⟨rfl, rfl⟩ := Prod.mk.inj (Except.ok.inj h)
        cases s with
        | quoted | escaped => simp [wordStep] at hs
        | plain =>
            cases d with
            | succ d => simp [wordStep] at hs
            | zero =>
                refine ⟨0, rfl, rfl, .inr ⟨rfl, c, t, rfl, ?_⟩⟩
                by_cases hc : isDelimiter c = true
                · exact hc
                · simp [wordStep, hc] at hs
      next s₁ d₁ hs =>
        obtain ⟨⟨l, r'⟩, hu, he⟩ := map_eq_ok.mp h
        obtain ⟨rfl, rfl⟩ := Prod.mk.inj he
        obtain ⟨d', ht, hw, hr⟩ := ih hu
        exact ⟨d', by rw [ht]; rfl, by rw [wordRun, hs]; exact hw, hr⟩

theorem isDelimiter_of_blank {c : Char} (h : isBlank c = true) : isDelimiter c = false := by
  have hk := endsKey_of_blank h
  simp only [endsKey, List.mem_cons, List.not_mem_nil, or_false, decide_eq_false_iff_not,
    not_or] at hk
  simp [isDelimiter, hk]

theorem wordStep_blank {c : Char} (h : isBlank c = true) (d : Nat) :
    wordStep .plain d c = some (.plain, d) := by
  have hopen : c ≠ '(' := ne_of_blank h (by decide)
  have hclose : c ≠ ')' := ne_of_blank h (by decide)
  have hquote : isQuote c = false := by
    rw [Bool.eq_false_iff]
    intro hq
    exact ne_of_blank h (isQuote_ne hq).2 rfl
  cases d with
  | zero => simp [wordStep, isDelimiter_of_blank h, hopen]
  | succ d => simp [wordStep, hquote, hopen, hclose]

theorem wordRun_blank {b : Text} (hb : Blank b) (d : Nat) : wordRun .plain d b = some (.plain, d) := by
  induction b with
  | nil => rfl
  | cons c b ih =>
      rw [wordRun, wordStep_blank (hb c List.mem_cons_self)]
      exact ih (List.forall_mem_cons.mp hb).2

def WordScan.Proper : WordScan → Prop
  | .plain => True
  | .quoted q | .escaped q => isQuote q = true

theorem WordScan.Proper.step {s s' : WordScan} {d d' : Nat} {c : Char} (hs : s.Proper)
    (h : wordStep s d c = some (s', d')) : s'.Proper := by
  cases s with
  | escaped q =>
      obtain ⟨rfl, -⟩ := Prod.mk.inj (Option.some.inj h)
      exact hs
  | quoted q =>
      obtain ⟨rfl, -⟩ := Prod.mk.inj (Option.some.inj h)
      split
      · exact hs
      · split
        · trivial
        · exact hs
  | plain =>
      cases d with
      | zero =>
          rw [wordStep] at h
          split at h
          · cases h
          · obtain ⟨rfl, -⟩ := Prod.mk.inj (Option.some.inj h)
            trivial
      | succ d =>
          obtain ⟨rfl, -⟩ := Prod.mk.inj (Option.some.inj h)
          split
          next hq => exact hq
          next => trivial

theorem WordScan.Proper.run {s s' : WordScan} {d d' : Nat} {w : Text} (hs : s.Proper)
    (h : wordRun s d w = some (s', d')) : s'.Proper := by
  induction w generalizing s d with
  | nil =>
      obtain ⟨rfl, -⟩ := Prod.mk.inj (Option.some.inj h)
      exact hs
  | cons c w ih =>
      rw [wordRun, Option.bind_eq_some_iff] at h
      obtain ⟨⟨s₁, d₁⟩, hc, hw⟩ := h
      exact ih (hs.step hc) hw

theorem plain_of_wordRun_blank {b : Text} (hb : Blank b) {s : WordScan} {d d' : Nat}
    (hs : s.Proper) (h : wordRun s d b = some (.plain, d')) : s = .plain ∧ d = d' := by
  induction b generalizing s d with
  | nil =>
      obtain ⟨rfl, rfl⟩ := Prod.mk.inj (Option.some.inj h)
      exact ⟨rfl, rfl⟩
  | cons c b ih =>
      obtain ⟨hc, hb⟩ := List.forall_mem_cons.mp hb
      cases s with
      | plain =>
          rw [wordRun, wordStep_blank hc] at h
          exact ⟨rfl, (ih hb (s := .plain) trivial h).2⟩
      | escaped q => cases (ih hb (s := .quoted q) hs h).1
      | quoted q =>
          have hcq : c ≠ q := ne_of_blank hc (isQuote_ne hs).2
          have hce : c ≠ '\\' := ne_of_blank hc (by decide)
          rw [wordRun, wordStep, if_neg hce, if_neg hcq] at h
          cases (ih hb hs h).1

/-- A bare word that leaves `depth` parentheses open. -/
structure IsWord (depth : Nat) (w : Text) : Prop where
  run : wordRun .plain 0 w = some (.plain, depth)
  first : ∃ c t, w = c :: t ∧ isBlank c = false ∧ isQuote c = false ∧ c ∉ ['/', '{', '[']
  last : EndsSolid w

/-- A scalar as its own text is read. -/
inductive Literal : Scalar → Prop
  | str {q : Char} {inner : Text} (hq : isQuote q = true) (h : encloses q false inner = true) :
      Literal (.str (q :: inner ++ [q]))
  | regex {pattern flags : Text} (hp : encloses '/' false pattern = true)
      (hf : ∀ c ∈ flags, isFlag c = true) : Literal (.regex pattern flags)
  | word {w : Text} (h : IsWord 0 w) : Literal (.ofWord w)

/-- What may follow a scalar: white space, and then a delimiter or nothing. -/
def Stops (t : Text) : Prop := ∀ c r, dropBlank t = c :: r → isDelimiter c = true

theorem Stops.isFlag_head {t r : Text} {c : Char} (h : Stops t) (ht : t = c :: r) :
    isFlag c = false := by
  subst t
  cases hc : isBlank c with
  | true => simp [isFlag, hc]
  | false =>
      have hd := h c r (dropBlank_cons hc r)
      simp only [isDelimiter, decide_eq_true_eq] at hd
      simp only [isFlag, hd, decide_true, Bool.not_true, Bool.and_false]

theorem span_flags {f rest : Text} (hf : ∀ c ∈ f, isFlag c = true) (hr : Stops rest) :
    (f ++ rest).span isFlag = (f, rest) := by
  apply span_append hf
  intro c hc
  obtain ⟨r, hrest⟩ := List.head?_eq_some_iff.mp hc
  exact hr.isFlag_head hrest

@[simp] theorem render_str (raw : Text) : (Scalar.str raw).render = raw := rfl

@[simp] theorem render_regex (pattern flags : Text) :
    (Scalar.regex pattern flags).render = '/' :: pattern ++ '/' :: flags := rfl

theorem ofWord_cases (w : Text) :
    (∃ b, w = (Scalar.bool b).render ∧ Scalar.ofWord w = .bool b) ∨ Scalar.ofWord w = .number w ∨
      Scalar.ofWord w = .date w ∨ Scalar.ofWord w = .handle w ∨ Scalar.ofWord w = .bare w := by
  rw [Scalar.ofWord]
  split
  next h => exact .inl ⟨true, h, rfl⟩
  next =>
    split
    next h => exact .inl ⟨false, h, rfl⟩
    next =>
      right
      split
      · exact .inl rfl
      · split
        · exact .inr (.inr (.inr rfl))
        · dsimp only
          split
          · exact .inl rfl
          · split
            · exact .inr (.inl rfl)
            · split
              · exact .inr (.inr (.inl rfl))
              · exact .inr (.inr (.inr rfl))

@[simp] theorem render_ofWord (w : Text) : (Scalar.ofWord w).render = w := by
  rcases ofWord_cases w with ⟨b, hw, h⟩ | h | h | h | h
  · rw [h, ← hw]
  all_goals rw [h]; rfl

theorem bareWord_stops {rest : Text} (hr : Stops rest) :
    ∃ b r, Blank b ∧ bareWord .plain 0 rest = .ok (b, r) ∧ dropBlank r = dropBlank rest := by
  obtain ⟨b, hb, ht⟩ := exists_dropBlank rest
  refine ⟨b, dropBlank rest, hb, ?_, dropBlank_idem rest⟩
  have hrun := bareWord_run (wordRun_blank hb 0) (dropBlank rest)
  rw [← ht] at hrun
  rw [hrun]
  cases hd : dropBlank rest with
  | nil => simp [bareWord, Except.map]
  | cons c r =>
      have hc := hr c r hd
      simp [bareWord_cons, wordStep, hc, Except.map]

theorem IsWord.trim_append {d : Nat} {w b : Text} (h : IsWord d w) (hb : Blank b) :
    trim (w ++ b) = w := by
  obtain ⟨c, t, hw, hc, -⟩ := h.first
  apply Text.trim_append _ h.last hb
  · rw [hw]
    exact List.cons_ne_nil c t
  · rw [hw]
    exact dropBlank_cons hc t

theorem IsWord.isDelimiter_head {d : Nat} {c : Char} {t : Text} (h : IsWord d (c :: t)) :
    isDelimiter c = false := by
  rw [Bool.eq_false_iff]
  intro hc
  have hrun := h.run
  simp [wordRun, wordStep, hc] at hrun

theorem scalar_cons {c : Char} (t : Text) (hq : isQuote c = false) (hc : c ≠ '/')
    (hd : isDelimiter c = false) :
    scalar (c :: t) = (bareWord .plain 0 (c :: t)).map fun (w, r) => (.ofWord (trim w), r) := by
  have hd' : c ∉ [',', '}', ']'] := by simpa only [isDelimiter, decide_eq_false_iff_not] using hd
  unfold scalar
  split
  next h => cases h
  next h => exact absurd (List.cons.inj h).1 hc
  next h =>
    obtain ⟨rfl, rfl⟩ := List.cons.inj h
    simp only [hq, hd', if_false, Bool.false_eq_true]

theorem scalar_delimiter {c : Char} (t : Text) (hd : isDelimiter c = true) :
    scalar (c :: t) = .error (.unexpected c t) := by
  simp only [isDelimiter, List.mem_cons, List.not_mem_nil, or_false, decide_eq_true_eq] at hd
  rcases hd with rfl | rfl | rfl <;> rfl

theorem scalar_word {d : Nat} {w b rest r : Text} (h : IsWord d w) (hb : Blank b)
    (hread : bareWord .plain d rest = .ok (b, r)) : scalar (w ++ rest) = .ok (.ofWord w, r) := by
  have hw := bareWord_run h.run rest
  rw [hread] at hw
  obtain ⟨c, t, rfl, -, hq, hc⟩ := h.first
  simp only [List.mem_cons, List.not_mem_nil, or_false, not_or] at hc
  rw [List.cons_append] at hw ⊢
  rw [scalar_cons _ hq hc.1 h.isDelimiter_head, hw]
  exact congrArg (fun u => Except.ok (Scalar.ofWord u, r)) (h.trim_append hb)

theorem scalar_quoted {q : Char} (t : Text) (hq : isQuote q = true) :
    scalar (q :: t) = (quotedText q t).map fun (s, r) => (.str s, r) := by
  unfold scalar
  split
  next h => cases h
  next h =>
    rw [(List.cons.inj h).1] at hq
    exact absurd hq (by decide)
  next h =>
    obtain ⟨rfl, rfl⟩ := List.cons.inj h
    rw [if_pos hq]

theorem scalar_regex {pattern flags rest : Text} (hp : encloses '/' false pattern = true)
    (hf : ∀ c ∈ flags, isFlag c = true) (hr : Stops rest) :
    scalar ('/' :: (pattern ++ '/' :: (flags ++ rest))) = .ok (.regex pattern flags, rest) := by
  have hu := upTo_enclosed (by decide) hp (flags ++ rest)
  rw [scalar, hu]
  change Except.ok (Scalar.regex pattern ((flags ++ rest).span isFlag).1,
    ((flags ++ rest).span isFlag).2) = _
  rw [span_flags hf hr]

theorem scalar_literal {s : Scalar} (h : Literal s) {rest : Text} (hr : Stops rest) :
    ∃ r, scalar (s.render ++ rest) = .ok (s, r) ∧ dropBlank r = dropBlank rest := by
  cases h with
  | @str q inner hq hi =>
      refine ⟨rest, ?_, rfl⟩
      rw [render_str, List.append_assoc, List.cons_append, scalar_quoted _ hq,
        List.singleton_append, quotedText_enclosed hq hi]
      rfl
  | @regex pattern flags hp hf =>
      refine ⟨rest, ?_, rfl⟩
      have hs := scalar_regex hp hf hr
      simpa only [render_regex, List.cons_append, List.append_assoc] using hs
  | word h =>
      obtain ⟨b, r, hb, hread, hr'⟩ := bareWord_stops hr
      have hs := scalar_word h hb hread
      exact ⟨r, by rw [render_ofWord]; exact hs, hr'⟩

theorem bareWord_isWord {c : Char} {t u r : Text} (h : bareWord .plain 0 (c :: t) = .ok (u, r))
    (hb : isBlank c = false) (hq : isQuote c = false) (hd : isDelimiter c = false)
    (hc : c ∉ ['/', '{', '[']) :
    ∃ d b, Blank b ∧ c :: t = trim u ++ (b ++ r) ∧ IsWord d (trim u) ∧ (r = [] ∨ d = 0) := by
  obtain ⟨d, ht, hrun, hr⟩ := bareWord_sound h
  have hu : ∃ u', u = c :: u' := by
    cases u with
    | cons x u' => exact ⟨u', by rw [(List.cons.inj ht).1]⟩
    | nil =>
        rcases hr with rfl | ⟨-, x, r', rfl, hx⟩
        · cases ht
        · rw [← (List.cons.inj ht).1, hd] at hx
          cases hx
  obtain ⟨u', rfl⟩ := hu
  have htrim : trim (c :: u') = trimEnd (c :: u') := by
    rw [trim, trimBy, trimEnd, show (c :: u').dropWhile isBlank = c :: u' from dropBlank_cons hb u']
  obtain ⟨b, hbl, hub⟩ := exists_trimEnd (c :: u')
  have hfirst : ∃ w, trimEnd (c :: u') = c :: w := by
    cases hw : trimEnd (c :: u') with
    | cons x w =>
        rw [hw] at hub
        exact ⟨w, by rw [(List.cons.inj hub).1]⟩
    | nil =>
        rw [hw, List.nil_append] at hub
        exact absurd (hub ▸ List.mem_cons_self) (hbl.not_mem hb)
  obtain ⟨w, hw⟩ := hfirst
  rw [hub, wordRun_append, Option.bind_eq_some_iff] at hrun
  obtain ⟨⟨s, d'⟩, hrun, hblank⟩ := hrun
  obtain ⟨rfl, rfl⟩ := plain_of_wordRun_blank hbl (WordScan.Proper.run (s := .plain) trivial hrun) hblank
  refine ⟨d', b, hbl, ?_, ?_, hr.imp_right And.left⟩
  · rw [ht, htrim, ← List.append_assoc, ← hub]
  · rw [htrim]
    exact ⟨hrun, ⟨c, w, hw, hb, hq, hc⟩, endsSolid_trimEnd _⟩

theorem scalar_sound {c : Char} {t r : Text} {s : Scalar} (h : scalar (c :: t) = .ok (s, r))
    (hb : isBlank c = false) (hc : c ≠ '{' ∧ c ≠ '[') :
    ∃ b, Blank b ∧ c :: t = s.render ++ (b ++ r) ∧
      (Literal s ∨ r = [] ∧ ∃ d w, IsWord d w ∧ s = .ofWord w) := by
  by_cases hq : isQuote c = true
  · rw [scalar_quoted t hq] at h
    obtain ⟨⟨w, r'⟩, hw, he⟩ := map_eq_ok.mp h
    obtain ⟨rfl, rfl⟩ := Prod.mk.inj he
    obtain ⟨inner, rfl, ht, hi⟩ := quotedText_sound hw
    exact ⟨[], blank_nil, ht, .inl (.str hq hi)⟩
  · by_cases hs : c = '/'
    · subst hs
      rw [scalar] at h
      obtain ⟨⟨pattern, t'⟩, hu, he⟩ := bind_eq_ok.mp h
      simp only [List.span_eq_takeWhile_dropWhile] at he
      obtain ⟨rfl, rfl⟩ := Prod.mk.inj (Except.ok.inj he)
      obtain ⟨rfl, hp⟩ := upTo_sound hu
      refine ⟨[], blank_nil, ?_, .inl (.regex hp fun c hc => ?_)⟩
      · simp
      · exact List.all_eq_true.mp List.all_takeWhile _ hc
    · have hd : isDelimiter c = false := by
        rw [Bool.eq_false_iff]
        intro hd
        rw [scalar_delimiter t hd] at h
        cases h
      rw [scalar_cons t (Bool.eq_false_iff.mpr hq) hs hd] at h
      obtain ⟨⟨u, r'⟩, hu, he⟩ := map_eq_ok.mp h
      obtain ⟨rfl, rfl⟩ := Prod.mk.inj he
      obtain ⟨d, b, hbl, ht, hw, hr⟩ :=
        bareWord_isWord hu hb (Bool.eq_false_iff.mpr hq) hd (by simp [hs, hc])
      refine ⟨b, hbl, by rw [render_ofWord]; exact ht, ?_⟩
      rcases hr with rfl | rfl
      · exact .inr ⟨rfl, d, _, hw, rfl⟩
      · exact .inl (.word hw)

end SlowQuery.Payload
