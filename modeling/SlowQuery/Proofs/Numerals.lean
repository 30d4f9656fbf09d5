import SlowQuery.Proofs.Words

namespace SlowQuery.Payload

open Text

def isNumeral (c : Char) : Bool := isDecimalDigit c || c ∈ ['.', 'e', 'E', '+', '-']

variable {t : Text} {c : Char}

theorem isDecimalDigit_of_blank (h : isBlank c = true) : isDecimalDigit c = false := by
  have hc := toNat_of_blank h
  rw [isDecimalDigit]
  revert hc
  generalize c.toNat = n
  revert n
  decide

theorem isNumeral_ne {d : Char} (h : isNumeral c = true) (hd : isNumeral d = false) : c ≠ d := by
  rintro rfl
  rw [hd] at h
  cases h

theorem isBlank_of_numeral (h : isNumeral c = true) : isBlank c = false := by
  rw [Bool.eq_false_iff]
  intro hb
  simp only [isNumeral, isDecimalDigit_of_blank hb, Bool.false_or, List.mem_cons,
    List.not_mem_nil, or_false, decide_eq_true_eq] at h
  rcases h with rfl | rfl | rfl | rfl | rfl <;> exact absurd hb (by decide)

theorem isNumeral_of_digits (h : ∀ c ∈ t, isDecimalDigit c = true) :
    ∀ c ∈ t, isNumeral c = true := by
  intro c hc
  rw [isNumeral, h c hc, Bool.true_or]

theorem numerals_exponentOrEnd (h : isExponentOrEnd t = true) : ∀ c ∈ t, isNumeral c = true := by
  cases t with
  | nil => exact nofun
  | cons e t =>
      simp only [isExponentOrEnd, Bool.and_eq_true, Bool.or_eq_true, decide_eq_true_eq] at h
      obtain ⟨⟨he, -⟩, hdigits⟩ := h
      have hsign : isNumeral '+' = true ∧ isNumeral '-' = true := by decide
      refine List.forall_mem_cons.mpr ⟨by rcases he with rfl | rfl <;> decide, ?_⟩
      split at hdigits
      · exact List.forall_mem_cons.mpr ⟨hsign.1, isNumeral_of_digits (List.all_eq_true.mp hdigits)⟩
      · exact List.forall_mem_cons.mpr ⟨hsign.2, isNumeral_of_digits (List.all_eq_true.mp hdigits)⟩
      · exact isNumeral_of_digits (List.all_eq_true.mp hdigits)

theorem numerals_append {a r : Text} (ha : ∀ c ∈ a, isDecimalDigit c = true)
    (hr : ∀ c ∈ r, isNumeral c = true) : ∀ c ∈ a ++ r, isNumeral c = true :=
  List.forall_mem_append.mpr ⟨isNumeral_of_digits ha, hr⟩

theorem numerals_unsigned (h : isUnsignedNumber t = true) : ∀ c ∈ t, isNumeral c = true := by
  have hpoint : isNumeral '.' = true := by decide
  obtain ⟨a, r, hspan⟩ : ∃ a r, t.span isDecimalDigit = (a, r) := ⟨_, _, rfl⟩
  obtain ⟨rfl, ha, -⟩ := span_eq_iff.mp hspan
  rw [isUnsignedNumber, hspan] at h
  split at h
  next rest he =>
    obtain ⟨rfl, rfl⟩ := Prod.mk.inj he
    obtain ⟨b, r, hspan⟩ : ∃ b r, rest.span isDecimalDigit = (b, r) := ⟨_, _, rfl⟩
    obtain ⟨rfl, hb, -⟩ := span_eq_iff.mp hspan
    rw [hspan] at h
    split at h
    · cases h
    next he =>
      obtain ⟨rfl, rfl⟩ := Prod.mk.inj he
      exact List.forall_mem_cons.mpr ⟨hpoint, numerals_append hb (numerals_exponentOrEnd h)⟩
  next => cases h
  next digits rest hne he =>
    obtain ⟨rfl, rfl⟩ := Prod.mk.inj he
    have hdigits : ∀ c ∈ rest.takeWhile isDecimalDigit, isDecimalDigit c = true :=
      List.all_eq_true.mp List.all_takeWhile
    have hrest := numerals_append hdigits (numerals_exponentOrEnd h)
    rw [List.takeWhile_append_dropWhile] at hrest
    exact numerals_append ha (List.forall_mem_cons.mpr ⟨hpoint, hrest⟩)
  next digits rest hnil hne he =>
    obtain ⟨rfl, rfl⟩ := Prod.mk.inj he
    exact numerals_append ha (numerals_exponentOrEnd h)

theorem numerals_number (h : isNumber t = true) : t ≠ [] ∧ ∀ c ∈ t, isNumeral c = true := by
  refine ⟨fun ht => (by subst ht; cases h), ?_⟩
  unfold isNumber at h
  split at h
  · exact List.forall_mem_cons.mpr ⟨by decide, numerals_unsigned h⟩
  · exact numerals_unsigned h

theorem wordRun_numerals (h : ∀ c ∈ t, isNumeral c = true) :
    wordRun .plain 0 t = some (.plain, 0) := by
  induction t with
  | nil => rfl
  | cons c t ih =>
      obtain ⟨hc, ht⟩ := List.forall_mem_cons.mp h
      have hne : ∀ d, isNumeral d = false → c ≠ d := fun _ => isNumeral_ne hc
      have hstep : wordStep .plain 0 c = some (.plain, 0) := by
        simp [wordStep, isDelimiter, hne ',' (by decide), hne '}' (by decide),
          hne ']' (by decide), hne '(' (by decide)]
      rw [wordRun, hstep]
      exact ih ht

theorem ofWord_number (h : isNumber t = true) : Scalar.ofWord t = .number t := by
  have htrue : t ≠ "true".toList := by rintro rfl; exact absurd h (by decide)
  have hfalse : t ≠ "false".toList := by rintro rfl; exact absurd h (by decide)
  rw [Scalar.ofWord, if_neg htrue, if_neg hfalse, if_pos h]

theorem literal_number (h : isNumber t = true) : Literal (.number t) := by
  obtain ⟨hne, hchars⟩ := numerals_number h
  rw [← ofWord_number h]
  refine .word ⟨wordRun_numerals hchars, ?_, fun c hc => ?_⟩
  · obtain ⟨c, t, rfl⟩ := List.exists_cons_of_ne_nil hne
    have hc := hchars c List.mem_cons_self
    have hne : ∀ d, isNumeral d = false → c ≠ d := fun _ => isNumeral_ne hc
    refine ⟨c, t, rfl, isBlank_of_numeral hc, ?_, ?_⟩
    · simp [isQuote, hne '"' (by decide), hne '\'' (by decide)]
    · simp [hne '/' (by decide), hne '{' (by decide), hne '[' (by decide)]
  · exact isBlank_of_numeral (hchars c (List.mem_of_getLast? hc))

theorem isWord_bool (b : Bool) : IsWord 0 (Scalar.bool b).render := by
  cases b with
  | true =>
      exact ⟨rfl, ⟨'t', "rue".toList, rfl, by decide, by decide, by decide⟩,
        endsSolid_concat "tru".toList (by decide)⟩
  | false =>
      exact ⟨rfl, ⟨'f', "alse".toList, rfl, by decide, by decide, by decide⟩,
        endsSolid_concat "fals".toList (by decide)⟩

theorem literal_bool (b : Bool) : Literal (.bool b) := by
  have hread : Scalar.ofWord (Scalar.bool b).render = .bool b := by cases b <;> rfl
  rw [← hread]
  exact .word (isWord_bool b)

end SlowQuery.Payload
