import SlowQuery.Proofs.Extended
import SlowQuery.Proofs.Rendering
import SlowQuery.Proofs.Scans

namespace SlowQuery.Payload

open Text

section

variable {t u : Text} {c q stop : Char} {d : Nat}

theorem upTo_ended {escaped : Bool} (h : upTo stop escaped t = .error .ended) :
    ∃ s, encloses stop escaped (t ++ s) = true := by
  induction t generalizing escaped with
  | nil =>
      cases escaped with
      | true => exact ⟨['x'], rfl⟩
      | false => exact ⟨[], rfl⟩
  | cons c t ih =>
      cases escaped with
      | true =>
          have hrest : upTo stop false t = .error .ended := map_eq_error.mp h
          exact ih hrest
      | false =>
          rw [upTo] at h
          split at h
          next hc =>
            obtain ⟨s, hs⟩ := ih (map_eq_error.mp h)
            exact ⟨s, by rw [List.cons_append, encloses, if_pos hc, hs]⟩
          next hc =>
            split at h
            next => cases h
            next hstop =>
              obtain ⟨s, hs⟩ := ih (map_eq_error.mp h)
              exact ⟨s, by simp [encloses, hc, hstop, hs]⟩

theorem bareKey_ended (h : bareKey t = .error .ended) : ∀ c ∈ t, endsKey c = false := by
  induction t with
  | nil => exact List.forall_mem_nil _
  | cons c t ih =>
      rw [bareKey] at h
      split at h
      next => cases h
      next hcolon =>
        split at h
        next => cases h
        next hc =>
          refine List.forall_mem_cons.mpr ⟨?_, ih (map_eq_error.mp h)⟩
          simp only [List.mem_cons, List.not_mem_nil, or_false, not_or] at hc
          simp [endsKey, hcolon, hc]

theorem colon_ended (h : colon t = .error .ended) : Blank t := by
  rw [colon] at h
  split at h
  next hd => exact blank_of_dropBlank hd
  next => split at h <;> cases h

theorem key_ended (h : key t = .error .ended) :
    ∃ s a k w, Blank a ∧ KeyText k w ∧ t ++ s = a ++ w := by
  obtain ⟨a, ha, ht⟩ := exists_dropBlank t
  rw [key] at h
  split at h
  next hd =>
    have hempty : IsBareKey [] := ⟨by simp, rfl, by simp, by simp [EndsSolid]⟩
    exact ⟨[], a, [], [], ha, .bare hempty, by rw [ht, hd]; simp⟩
  next c u hd =>
    rw [hd] at ht
    split at h
    next hq =>
      obtain ⟨s, hs⟩ := upTo_ended (map_eq_error.mp (map_eq_error.mp h))
      exact ⟨s ++ [c], a, _, _, ha, .quoted hq hs, by rw [ht]; simp⟩
    next hq =>
      have hclear := bareKey_ended (map_eq_error.mp h)
      refine ⟨['x'], a, _, _, ha, .bare (k := c :: u ++ ['x']) ⟨?_, ?_, ?_, ?_⟩, by rw [ht]; simp⟩
      · intro e he
        rcases List.mem_append.mp he with he | he
        · exact hclear e he
        · rw [List.mem_singleton.mp he]
          decide
      · exact dropBlank_cons (isBlank_of_dropBlank hd) _
      · intro e v he
        rw [← (List.cons.inj he).1]
        exact Bool.eq_false_iff.mpr hq
      · exact endsSolid_concat _ (by decide)

theorem bareWord_ended {scan : WordScan} (h : bareWord scan d t = .error .ended) :
    ∃ scan' d', wordRun scan d t = some (scan', d') := by
  induction t generalizing scan d with
  | nil => exact ⟨scan, d, rfl⟩
  | cons c t ih =>
      rw [bareWord_cons] at h
      split at h
      next => cases h
      next scan₁ d₁ hs =>
        obtain ⟨scan', d', hrun⟩ := ih (map_eq_error.mp h)
        exact ⟨scan', d', by rw [wordRun, hs]; exact hrun⟩

def closings (d : Nat) : Text := List.replicate d ')' ++ ['x']

theorem wordRun_closings (d : Nat) : wordRun .plain d (closings d) = some (.plain, 0) := by
  induction d with
  | zero => rfl
  | succ d ih => exact ih

theorem exists_closed {scan : WordScan} (hs : scan.Proper) (d : Nat) :
    ∃ s, wordRun scan d (s ++ closings d) = some (.plain, 0) := by
  have hquoted {q : Char} (hq : isQuote q = true) :
      wordRun (.quoted q) d ([q] ++ closings d) = some (.plain, 0) := by
    rw [wordRun_append, wordRun, wordStep, if_neg (isQuote_ne hq).1, if_pos rfl]
    exact wordRun_closings d
  cases scan with
  | plain => exact ⟨[], wordRun_closings d⟩
  | quoted q => exact ⟨[q], hquoted hs⟩
  | escaped q => exact ⟨['x', q], hquoted hs⟩

theorem isWord_closed {s : Text} {scan : WordScan} (hb : isBlank c = false)
    (hq : isQuote c = false) (hc : c ∉ ['/', '{', '['])
    (hrun : wordRun .plain 0 (c :: t) = some (scan, d))
    (hs : wordRun scan d (s ++ closings d) = some (.plain, 0)) :
    IsWord 0 (c :: t ++ (s ++ closings d)) where
  run := by
    rw [wordRun_append, hrun]
    exact hs
  first := ⟨c, _, rfl, hb, hq, hc⟩
  last := by
    rw [closings, ← List.append_assoc, ← List.append_assoc]
    exact endsSolid_concat _ (by decide)

theorem scalar_ended (h : scalar (c :: t) = .error .ended) (hb : isBlank c = false)
    (hc : c ≠ '{' ∧ c ≠ '[') : ∃ s x, Literal x ∧ c :: t ++ s = x.render := by
  by_cases hq : isQuote c = true
  · rw [scalar_quoted t hq] at h
    obtain ⟨s, hs⟩ := upTo_ended (map_eq_error.mp (map_eq_error.mp h))
    exact ⟨s ++ [c], _, .str hq hs, by simp⟩
  · by_cases hslash : c = '/'
    · subst hslash
      rw [scalar] at h
      rcases bind_eq_error.mp h with h | ⟨_, -, h⟩
      · obtain ⟨s, hs⟩ := upTo_ended h
        exact ⟨s ++ ['/'], .regex _ [], .regex hs (List.forall_mem_nil _), by simp⟩
      · cases h
    · have hd : isDelimiter c = false := by
        rw [Bool.eq_false_iff]
        intro hd
        rw [scalar_delimiter t hd] at h
        cases h
      rw [Bool.not_eq_true] at hq
      rw [scalar_cons t hq hslash hd] at h
      obtain ⟨scan, d, hrun⟩ := bareWord_ended (map_eq_error.mp h)
      obtain ⟨s, hs⟩ := exists_closed (WordScan.Proper.run (s := .plain) trivial hrun) d
      exact ⟨_, _, .word (isWord_closed hb hq (by simp [hslash, hc]) hrun hs),
        (render_ofWord _).symm⟩

end

section

variable {t u r : Text} {v : Value} {k : Text} {n : Nat}

/-- With some text behind it, `t` is a value between white space. -/
def BeginsValue (t : Text) : Prop :=
  ∃ s a v w d, Blank a ∧ Blank d ∧ Written (.value v) w ∧ t ++ s = a ++ (w ++ d)

theorem beginsValue_blank (h : Blank t) : BeginsValue t :=
  ⟨['1'], t, _, _, [], h, blank_nil, .scalar literal_one, rfl⟩

theorem beginsValue_of_ok (h : value n t = .ok (v, r)) (hr : Blank r) : BeginsValue t := by
  obtain ⟨a, w, d, ha, hd, rfl, hw, -⟩ := (reader_sound n).1 _ _ _ h
  rcases hw with hw | ⟨k, hw, rfl⟩
  · exact ⟨[], a, v, w, d ++ r, ha, hd.append hr, hw, List.append_nil _⟩
  · obtain ⟨c, u, rfl, hb, hq, hc⟩ := hw.first
    have hrun : wordRun .plain 0 (c :: (u ++ (d ++ r))) = some (.plain, k) := by
      rw [← List.cons_append, wordRun_append, hw.run]
      exact wordRun_blank (hd.append hr) k
    have hword := isWord_closed (s := []) hb hq hc hrun (wordRun_closings k)
    exact ⟨closings k, a, _, _, [], ha, blank_nil, .scalar (.word hword), by simp⟩

theorem BeginsValue.lastMember {a w b : Text} (ha : Blank a) (hk : KeyText k w) (hb : Blank b)
    (h : BeginsValue t) : ∃ s ms, Written (.members ms) (a ++ (w ++ (b ++ ':' :: t)) ++ s) := by
  obtain ⟨s, e, v, x, d, he, hd, hx, ht⟩ := h
  refine ⟨s ++ ['}'], [(k, v)], ?_⟩
  have hw := Written.lastMember ha hk hb he hx hd
  have htext : t ++ (s ++ ['}']) = e ++ (x ++ (d ++ ['}'])) := by
    rw [← List.append_assoc, ht]
    simp
  simpa [htext] using hw

theorem BeginsValue.lastItem (h : BeginsValue t) : ∃ s vs, Written (.items vs) (t ++ s) := by
  obtain ⟨s, e, v, x, d, he, hd, hx, ht⟩ := h
  refine ⟨s ++ [']'], [v], ?_⟩
  have hw := Written.lastItem he hx hd
  rw [← List.append_assoc, ht]
  simpa using hw

end

def ValueEnds (n : Nat) : Prop :=
  ∀ t, 2 * t.length < n → value n t = .error .ended → BeginsValue t

def MembersEnd (n : Nat) : Prop :=
  ∀ t, 2 * t.length + 2 ≤ n → members n t = .error .ended → ∃ s ms, Written (.members ms) (t ++ s)

def ItemsEnd (n : Nat) : Prop :=
  ∀ t, 2 * t.length + 2 ≤ n → items n t = .error .ended → ∃ s vs, Written (.items vs) (t ++ s)

section

variable {n : Nat}

theorem Bracketed.ended {α : Type} {opener closer : Char} {make : List α → Value}
    {parts : Nat → Text → Reading (List α)} (h : Bracketed opener closer parts make) {u : Text}
    (hv : value (n + 1) (opener :: u) = .error .ended) : parts n u = .error .ended := by
  by_cases hclosed : ∃ w, dropBlank u = closer :: w
  · obtain ⟨w, hw⟩ := hclosed
    obtain ⟨b, hb, hu⟩ := exists_dropBlank u
    rw [hu, hw, h.empty hb] at hv
    cases hv
  · rw [h.filled (not_exists.mp hclosed)] at hv
    exact map_eq_error.mp hv

theorem membersEnd_succ (hv : ValueEnds n) (hm : MembersEnd n) : MembersEnd (n + 1) := by
  intro t hn h
  have h₀ := h
  rw [members] at h₀
  rcases bind_eq_error.mp h₀ with hk | ⟨⟨k, t₁⟩, hk, h₁⟩
  · obtain ⟨s, a, k, w, ha, hw, ht⟩ := key_ended hk
    obtain ⟨s', ms, hms⟩ := (beginsValue_blank blank_nil).lastMember ha hw blank_nil
    refine ⟨s ++ (':' :: s'), ms, ?_⟩
    rw [← List.append_assoc, ht]
    simpa using hms
  obtain ⟨a, w, b, ha, hw, hb, rfl⟩ := key_sound hk
  rcases bind_eq_error.mp h₁ with hc | ⟨⟨⟨⟩, t₂⟩, hc, h₂⟩
  · obtain ⟨s, ms, hms⟩ := (beginsValue_blank blank_nil).lastMember ha hw (hb.append (colon_ended hc))
    exact ⟨':' :: s, ms, by simpa using hms⟩
  obtain ⟨b', hb', rfl⟩ := colon_sound hc
  simp only [List.length_append, List.length_cons] at hn
  have hlast (hbegins : BeginsValue t₂) := hbegins.lastMember ha hw (hb.append hb')
  rcases bind_eq_error.mp h₂ with hval | ⟨⟨v, t₃⟩, hval, -⟩
  · simpa using hlast (hv t₂ (by omega) hval)
  rw [members_step hk hc hval] at h
  obtain ⟨e, x, d, he, hd, rfl, -, hx⟩ := (reader_sound n).1 _ _ _ hval
  obtain ⟨d', hd', ht₃⟩ := exists_dropBlank t₃
  split at h
  next hnil => simpa using hlast (beginsValue_of_ok hval (blank_of_dropBlank hnil))
  next c t₄ hcons =>
    rw [hcons] at ht₃
    have hwritten := hx (by rintro rfl; cases hcons)
    split at h
    next hcomma =>
      subst hcomma ht₃
      simp only [List.length_append, List.length_cons] at hn
      obtain ⟨s, ms, hms⟩ := hm t₄ (by omega) (map_eq_error.mp h)
      have hmember := Written.member ha hw (hb.append hb') he hwritten (hd.append hd') hms
      exact ⟨s, _, by simpa using hmember⟩
    next => split at h <;> cases h

theorem itemsEnd_succ (hv : ValueEnds n) (hi : ItemsEnd n) : ItemsEnd (n + 1) := by
  intro t hn h
  have h₀ := h
  rw [items] at h₀
  rcases bind_eq_error.mp h₀ with hval | ⟨⟨v, t₁⟩, hval, -⟩
  · exact (hv t (by omega) hval).lastItem
  rw [items_step hval] at h
  obtain ⟨e, x, d, he, hd, rfl, -, hx⟩ := (reader_sound n).1 _ _ _ hval
  obtain ⟨d', hd', ht₁⟩ := exists_dropBlank t₁
  split at h
  next hnil => exact (beginsValue_of_ok hval (blank_of_dropBlank hnil)).lastItem
  next c t₂ hcons =>
    rw [hcons] at ht₁
    have hwritten := hx (by rintro rfl; cases hcons)
    split at h
    next hcomma =>
      subst hcomma ht₁
      simp only [List.length_append, List.length_cons] at hn
      obtain ⟨s, vs, hvs⟩ := hi t₂ (by omega) (map_eq_error.mp h)
      have hitem := Written.item he hwritten (hd.append hd') hvs
      exact ⟨s, _, by simpa using hitem⟩
    next => split at h <;> cases h

theorem valueEnds_succ (hm : MembersEnd n) (hi : ItemsEnd n) : ValueEnds (n + 1) := by
  intro t hn h
  obtain ⟨b, hb, ht⟩ := exists_dropBlank t
  cases hd : dropBlank t with
  | nil => exact beginsValue_blank (blank_of_dropBlank hd)
  | cons c u =>
      have hc := isBlank_of_dropBlank hd
      rw [hd] at ht
      subst ht
      rw [value_blank hb] at h
      simp only [List.length_append, List.length_cons] at hn
      by_cases hbrace : c = '{'
      · subst hbrace
        obtain ⟨s, ms, hms⟩ := hm u (by omega) (bracketed_object.ended h)
        exact ⟨s, b, _, _, [], hb, blank_nil, .object hms, by simp⟩
      · by_cases hbracket : c = '['
        · subst hbracket
          obtain ⟨s, vs, hvs⟩ := hi u (by omega) (bracketed_array.ended h)
          exact ⟨s, b, _, _, [], hb, blank_nil, .array hvs, by simp⟩
        · rw [value_scalar hc ⟨hbrace, hbracket⟩] at h
          obtain ⟨s, x, hx, hs⟩ := scalar_ended (map_eq_error.mp h) hc ⟨hbrace, hbracket⟩
          exact ⟨s, b, _, _, [], hb, blank_nil, .scalar hx, by rw [← hs]; simp⟩

end

/-- Where the text runs out inside of a part, that part can still be completed. -/
theorem reader_ends (n : Nat) : ValueEnds n ∧ MembersEnd n ∧ ItemsEnd n := by
  induction n with
  | zero => exact ⟨fun _ hn => by omega, fun _ hn => by omega, fun _ hn => by omega⟩
  | succ n ih =>
      obtain ⟨hv, hm, hi⟩ := ih
      exact ⟨valueEnds_succ hm hi, membersEnd_succ hv hm, itemsEnd_succ hv hi⟩

section

variable {t : Text} {c : Char} {p : Nat}

theorem value_extends (t s : Text) :
    Extended t s (value (2 * t.length + 1) t) (value (2 * (t ++ s).length + 1) (t ++ s)) :=
  (reader_extends s _).1 _ t (by rw [List.length_append]; omega)

theorem parse_eq_unexpectedEnd (h : parse t = .error (.unexpectedEnd p)) :
    p = byteLength t ∧ BeginsValue t := by
  unfold parse at h
  dsimp only at h
  split at h
  next hv =>
    have hp : byteLength t = p := by simpa using h
    exact ⟨hp.symm, (reader_ends _).1 t (Nat.lt_succ_self _) hv⟩
  next => cases h
  next => split at h <;> cases h

theorem parse_eq_unexpected (h : parse t = .error (.unexpected c p)) :
    (∃ a r, t = a ++ c :: r ∧ byteLength a = p) ∧
      ∀ s, parse (t ++ s) = .error (.unexpected c p) := by
  unfold parse at h
  dsimp only at h
  split at h
  next => cases h
  next c' r hv =>
    obtain ⟨rfl, hp⟩ : c' = c ∧ byteLength t - byteLength (c' :: r) = p := by simpa using h
    have hcont (s : Text) := value_extends t s
    rw [hv] at hcont
    obtain ⟨a, rfl⟩ := (hcont []).of_refused.1
    rw [byteLength_sub] at hp
    refine ⟨⟨a, r, rfl, hp⟩, fun s => ?_⟩
    have hlonger := (hcont s).of_refused.2
    rw [List.append_assoc, List.cons_append] at hlonger ⊢
    simp only [parse, hlonger, byteLength_sub, hp]
  next => split at h <;> cases h

theorem parse_eq_trailing (h : parse t = .error (.trailing p)) :
    (∃ a c r v, t = a ++ c :: r ∧ byteLength a = p ∧ isBlank c = false ∧ parse a = .ok v) ∧
      ∀ s, parse (t ++ s) = .error (.trailing p) := by
  unfold parse at h
  dsimp only at h
  split at h
  next => cases h
  next => cases h
  next v rest hv =>
    cases hd : dropBlank rest with
    | nil =>
        rw [hd] at h
        cases h
    | cons c r =>
        rw [hd] at h
        have hp : byteLength t - byteLength (c :: r) = p := by simpa using h
        have hcont (s : Text) := value_extends t s
        rw [hv] at hcont
        have hlonger (s : Text) := ((hcont s).of_read (by rintro rfl; cases hd)).2
        obtain ⟨a, w, d, ha, hw, ht, hdoc, -⟩ := (reader_sound _).1 _ _ _ hv
        obtain ⟨b, hb, hrest⟩ := exists_dropBlank rest
        have hsplit : t = (a ++ (w ++ (d ++ b))) ++ c :: r := by
          rw [ht, hrest, hd]
          simp
        have hread : parse (a ++ (w ++ (d ++ b))) = .ok v :=
          parse_eq_ok_iff.mpr ⟨a, w, d ++ b, ha, hw.append hb, rfl, hdoc⟩
        generalize a ++ (w ++ (d ++ b)) = u at hsplit hread
        subst hsplit
        rw [byteLength_sub] at hp
        refine ⟨⟨u, c, r, v, rfl, hp, isBlank_of_dropBlank hd, hread⟩, fun s => ?_⟩
        simp only [parse, hlonger, dropBlank_append_of_cons hd]
        rw [List.append_assoc, List.cons_append, byteLength_sub, hp]

end

/-- A text that ends too early can be completed; every other error names the character at which
reading stopped, and stays the same whatever follows. -/
theorem parse_error_located (t : Text) :
    (∀ p, parse t = .error (.unexpectedEnd p) →
      p = byteLength t ∧ ∃ s v, parse (t ++ s) = .ok v) ∧
    (∀ c p, parse t = .error (.unexpected c p) →
      (∃ a r, t = a ++ c :: r ∧ byteLength a = p) ∧
        ∀ s, parse (t ++ s) = .error (.unexpected c p)) ∧
    ∀ p, parse t = .error (.trailing p) →
      p < byteLength t ∧
        (∃ a c r v, t = a ++ c :: r ∧ byteLength a = p ∧ isBlank c = false ∧ parse a = .ok v) ∧
        ∀ s, parse (t ++ s) = .error (.trailing p) := by
  refine ⟨fun p h => ?_, fun c p h => parse_eq_unexpected h, fun p h => ?_⟩
  · obtain ⟨hp, s, a, v, w, d, ha, hd, hw, ht⟩ := parse_eq_unexpectedEnd h
    exact ⟨hp, s, v, parse_eq_ok_iff.mpr ⟨a, w, d, ha, hd, ht, .inl hw⟩⟩
  · obtain ⟨hread, hstays⟩ := parse_eq_trailing h
    refine ⟨?_, hread, hstays⟩
    obtain ⟨a, c, r, v, rfl, rfl, -⟩ := hread
    have hsize := c.utf8Size_pos
    rw [byteLength_append, byteLength]
    omega

theorem parse_error_located_each :
    (parse "\x7ba: f('x\\".toList = .error (.unexpectedEnd 9) ∧
      ∃ s v, parse ("\x7ba: f('x\\".toList ++ s) = .ok v) ∧
    (parse "\x7bé: 1]".toList = .error (.unexpected ']' 6) ∧
      ∀ s, parse ("\x7bé: 1]".toList ++ s) = .error (.unexpected ']' 6)) ∧
    (parse "[] x".toList = .error (.trailing 3) ∧
      ∀ s, parse ("[] x".toList ++ s) = .error (.trailing 3)) := by
  have hescape : "\x7ba: f('x\\".toList = ['{', 'a', ':', ' ', 'f', '(', '\'', 'x', '\\'] := rfl
  have haccent : "\x7bé: 1]".toList = ['{', 'é', ':', ' ', '1', ']'] := rfl
  have hitems : "[] x".toList = ['[', ']', ' ', 'x'] := rfl
  have hended : parse "\x7ba: f('x\\".toList = .error (.unexpectedEnd 9) := by
    rw [hescape]
    rfl
  have hrefused : parse "\x7bé: 1]".toList = .error (.unexpected ']' 6) := by
    rw [haccent]
    rfl
  have htrailing : parse "[] x".toList = .error (.trailing 3) := by
    rw [hitems]
    rfl
  exact ⟨⟨hended, ((parse_error_located _).1 9 hended).2⟩,
    ⟨hrefused, ((parse_error_located _).2.1 ']' 6 hrefused).2⟩,
    htrailing, ((parse_error_located _).2.2 3 htrailing).2.2⟩

end SlowQuery.Payload
