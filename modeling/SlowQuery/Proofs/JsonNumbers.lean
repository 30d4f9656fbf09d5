import SlowQuery.Json
import SlowQuery.Proofs.Blanks

namespace SlowQuery

namespace Text

variable {c : Char} {n : Nat}

theorem ofNat_ne_nil (n : Nat) : ofNat n ≠ [] := Nat.toDigits_ne_nil

theorem isDigit_of_mem_ofNat (h : c ∈ ofNat n) : c.isDigit = true :=
  Nat.isDigit_of_mem_toDigits (by decide) (by decide) h

@[simp] theorem digitsValue_ofNat (n : Nat) : digitsValue (ofNat n) = n := by
  rw [digitsValue, ofNat]
  change (Nat.toDigits 10 n).foldl (fun n c => 10 * n + (c.toNat - '0'.toNat)) 0 = n
  rw [← Nat.ofDigitChars_eq_foldl, Nat.ofDigitChars_ten_toDigits]

theorem head?_ofNat (hn : 0 < n) : (ofNat n).head? ≠ some '0' := by
  induction n using Nat.strongRecOn with
  | ind n ih =>
      rw [ofNat, Nat.toDigits_eq_if (by decide)]
      split
      next hlt =>
        rw [List.head?_cons, ne_eq, Option.some_inj, Nat.digitChar_eq_zero]
        omega
      next hle =>
        obtain ⟨d, ds, hd⟩ := List.exists_cons_of_ne_nil (ofNat_ne_nil (n / 10))
        have hhead := ih (n / 10) (by omega) (by omega)
        rw [hd] at hhead
        change (ofNat (n / 10) ++ [(n % 10).digitChar]).head? ≠ some '0'
        rw [hd]
        exact hhead

theorem isDecimalDigit_of_isDigit (h : c.isDigit = true) : isDecimalDigit c = true := by
  simp only [Char.isDigit, Bool.and_eq_true, decide_eq_true_eq, ge_iff_le, UInt32.le_iff_toNat_le]
    at h
  simp only [isDecimalDigit, decimalDigitRanges, Ranges.has, Bool.or_eq_true, Bool.and_eq_true,
    decide_eq_true_eq]
  exact ⟨h.1, .inl h.2⟩

end Text

namespace Json

open Text

variable {c : Char} {i : Int} {t ds r : Text}

theorem isDigit_eq (c : Char) : isDigit c = c.isDigit := by
  simp only [isDigit, Char.isDigit, Char.le_def]

def IsDigits (t : Text) : Prop := t ≠ [] ∧ ∀ c ∈ t, isDigit c = true

theorem isDigits_ofNat (n : Nat) : IsDigits (ofNat n) :=
  ⟨ofNat_ne_nil n, fun c hc => (isDigit_eq c).trans (isDigit_of_mem_ofNat hc)⟩

theorem digits?_append (h : IsDigits t) (hr : EndsRun isDigit r) :
    digits? (t ++ r) = some (t, r) := by
  obtain ⟨c, u, rfl⟩ := List.exists_cons_of_ne_nil h.1
  rw [digits?, span_append h.2 hr]

namespace Numeral

structure WellFormed (n : Numeral) : Prop where
  whole : IsDigits n.whole
  leading : n.whole.head? = some '0' → n.whole = ['0']
  fraction : ∀ ds, n.fraction = some ds → IsDigits ds
  exponent : ∀ negative ds, n.exponent = some (negative, ds) → IsDigits ds

def fractionText : Option Text → Text
  | none => []
  | some ds => '.' :: ds

def exponentText : Option (Bool × Text) → Text
  | none => []
  | some (negative, ds) => 'e' :: (if negative then '-' else '+') :: ds

@[simp] theorem fractionText_none : fractionText none = [] := rfl

@[simp] theorem fractionText_some (ds : Text) : fractionText (some ds) = '.' :: ds := rfl

@[simp] theorem exponentText_none : exponentText none = [] := rfl

@[simp] theorem exponentText_some (negative : Bool) (ds : Text) :
    exponentText (some (negative, ds)) = 'e' :: (if negative then '-' else '+') :: ds := rfl

def text (n : Numeral) : Text :=
  (if n.negative then ['-'] else []) ++
    (n.whole ++ (fractionText n.fraction ++ exponentText n.exponent))

def isPart (c : Char) : Bool := isDigit c || c ∈ ['-', '+', '.', 'e']

variable {n : Numeral}

theorem endsRun_exponentText (e : Option (Bool × Text)) : EndsRun isDigit (exponentText e) := by
  cases e with
  | none => rintro c ⟨⟩
  | some e => exact endsRun_cons (by decide) _

theorem endsRun_fractionText (f : Option Text) (e : Option (Bool × Text)) :
    EndsRun isDigit (fractionText f ++ exponentText e) := by
  cases f with
  | none => exact endsRun_exponentText e
  | some ds => exact endsRun_cons (by decide) _

theorem whole?_append (h : IsDigits t) (hl : t.head? = some '0' → t = ['0'])
    (hr : EndsRun isDigit r) : whole? (t ++ r) = some (t, r) := by
  unfold whole?
  split
  next u hu =>
    -- Behind a leading zero there is no digit, since the zero stands alone.
    have hzero : t = ['0'] := by
      obtain ⟨c, v, rfl⟩ := List.exists_cons_of_ne_nil h.1
      exact hl (by rw [List.head?_cons, (List.cons.inj hu).1])
    subst hzero
    obtain rfl : r = u := (List.cons.inj hu).2
    have hhead : r.head?.any isDigit = false := by
      cases r with
      | nil => rfl
      | cons c r => exact hr c rfl
    rw [hhead, if_neg Bool.false_ne_true]
  next => exact digits?_append h hr

theorem fraction?_append (f : Option Text) (h : ∀ ds, f = some ds → IsDigits ds)
    (e : Option (Bool × Text)) :
    fraction? (fractionText f ++ exponentText e) = some (f, exponentText e) := by
  cases f with
  | none =>
      cases e with
      | none => rfl
      | some e => rfl
  | some ds =>
      rw [fractionText_some, List.cons_append, fraction?,
        digits?_append (h ds rfl) (endsRun_exponentText e)]
      rfl

theorem exponent?_text (e : Option (Bool × Text))
    (h : ∀ negative ds, e = some (negative, ds) → IsDigits ds) :
    exponent? (exponentText e) = some e := by
  cases e with
  | none => rfl
  | some e =>
      obtain ⟨negative, ds⟩ := e
      have hread := digits?_append (h negative ds rfl) (r := []) (by rintro c ⟨⟩)
      rw [List.append_nil] at hread
      cases negative <;> simp [exponent?, exponentDigits?, hread]

theorem read?_text (h : n.WellFormed) : read? n.text = some n := by
  obtain ⟨negative, whole, fraction, exponent⟩ := n
  have hwhole := whole?_append h.whole h.leading (endsRun_fractionText fraction exponent)
  have hfraction := fraction?_append fraction h.fraction exponent
  have hexponent := exponent?_text exponent h.exponent
  cases negative with
  | true => simp [read?, text, hwhole, hfraction, hexponent]
  | false =>
      obtain ⟨d, ds, hd⟩ := List.exists_cons_of_ne_nil h.whole.1
      have hminus : d ≠ '-' := by
        rintro rfl
        exact absurd (h.whole.2 '-' (by rw [hd]; exact List.mem_cons_self)) (by decide)
      simp only at hd
      rw [hd] at hwhole ⊢
      simp only [List.cons_append] at hwhole
      simp [read?, text, hminus, hwhole, hfraction, hexponent]

theorem isPart_of_isDigits (h : IsDigits t) : ∀ c ∈ t, isPart c = true := fun c hc => by
  rw [isPart, h.2 c hc, Bool.true_or]

theorem isPart_text (h : n.WellFormed) : ∀ c ∈ n.text, isPart c = true := by
  obtain ⟨negative, whole, fraction, exponent⟩ := n
  have hpoint : isPart '.' = true ∧ isPart 'e' = true ∧ isPart '-' = true ∧ isPart '+' = true := by
    decide
  refine List.forall_mem_append.mpr ⟨?_, List.forall_mem_append.mpr
    ⟨isPart_of_isDigits h.whole, List.forall_mem_append.mpr ⟨?_, ?_⟩⟩⟩
  · cases negative with
    | true => exact List.forall_mem_singleton.mpr hpoint.2.2.1
    | false => exact List.forall_mem_nil _
  · cases fraction with
    | none => exact List.forall_mem_nil _
    | some ds => exact List.forall_mem_cons.mpr ⟨hpoint.1, isPart_of_isDigits (h.fraction ds rfl)⟩
  · cases exponent with
    | none => exact List.forall_mem_nil _
    | some e =>
        obtain ⟨negative, ds⟩ := e
        refine List.forall_mem_cons.mpr ⟨hpoint.2.1, List.forall_mem_cons.mpr ⟨?_, ?_⟩⟩
        · cases negative with
          | true => exact hpoint.2.2.1
          | false => exact hpoint.2.2.2
        · exact isPart_of_isDigits (h.exponent negative ds rfl)

def ofInt (i : Int) : Numeral := ⟨decide (i < 0), ofNat i.natAbs, none, none⟩

theorem wellFormed_ofInt (i : Int) : (ofInt i).WellFormed where
  whole := isDigits_ofNat i.natAbs
  leading := by
    intro h
    rcases Nat.eq_zero_or_pos i.natAbs with hi | hi
    · rw [ofInt, hi]
      rfl
    · exact absurd h (head?_ofNat hi)
  fraction := nofun
  exponent := nofun

theorem text_ofInt (i : Int) : (ofInt i).text = integerText i := by
  rw [text, integerText]
  by_cases hi : i < 0 <;> simp [ofInt, hi]

end Numeral

theorem number?_integerText (hi : -9223372036854775808 ≤ i) (hi' : i < 18446744073709551616) :
    number? (integerText i) = some (.integer i) := by
  rw [number?, ← Numeral.text_ofInt, Numeral.read?_text (Numeral.wellFormed_ofInt i),
    Option.bind_eq_bind, Option.bind_some]
  simp only [Numeral.ofInt, Numeral.toJson?, digitsValue_ofNat, Option.isSome_none, Bool.or_self,
    Bool.false_eq_true, if_false, decide_eq_true_eq]
  split
  next hneg =>
    have habs : -(i.natAbs : Int) = i := by omega
    rw [if_pos (by omega), habs]
  next hneg =>
    have habs : (i.natAbs : Int) = i := by omega
    have hsize : UInt64.size = 18446744073709551616 := rfl
    rw [if_pos (by omega), habs]

end Json

namespace Decimal

theorem has_zero {b : Binary} (hb : 0 < b.mantissa) (e : Int) : b.interval.has ⟨0, e⟩ = false := by
  have hpow : ∀ k : Int, 0 < pow 2 k := fun k => Nat.pow_pos (by decide)
  have hten : 0 < pow 10 (-e) := Nat.pow_pos (by decide)
  have hlow : 0 < (4 * b.mantissa - if b.narrow then 1 else 2) := by split <;> omega
  have hlow := Nat.mul_pos (Nat.mul_pos hlow (hpow b.scale)) hten
  have hhigh : 0 < 4 * b.mantissa + 2 := by omega
  have hhigh := Nat.mul_pos (Nat.mul_pos hhigh (hpow b.scale)) hten
  simp only [Interval.has, Binary.interval, Nat.zero_mul, Bool.or_eq_false_iff,
    Bool.and_eq_false_iff, decide_eq_false_iff_not, beq_eq_false_iff_ne]
  exact ⟨.inl (Nat.not_lt_zero _), .inr ⟨Nat.ne_of_lt hlow, Nat.ne_of_lt hhigh⟩⟩

theorem pos_of_has {b : Binary} (hb : 0 < b.mantissa) {d : Digits}
    (h : b.interval.has d = true) : 0 < d.digits := by
  refine Nat.pos_of_ne_zero fun hd => ?_
  obtain ⟨digits, exponent⟩ := d
  simp only at hd
  rw [hd, has_zero hb] at h
  cases h

theorem pos_of_onGrid? {b : Binary} (hb : 0 < b.mantissa) {e : Int} {d : Digits}
    (h : b.interval.onGrid? e = some d) : 0 < d.digits := by
  simp only [Interval.onGrid?] at h
  split at h
  · cases h
  next hn _ =>
    obtain rfl := Option.some.inj h
    exact pos_of_has hb hn
  · obtain rfl := Option.some.inj h
    exact Nat.succ_pos _
  next hn _ =>
    split at h
    · obtain rfl := Option.some.inj h
      exact pos_of_has hb hn
    · obtain rfl := Option.some.inj h
      exact Nat.succ_pos _

theorem pos_stripZeros (fuel : Nat) {d : Digits} (h : 0 < d.digits) :
    0 < (stripZeros fuel d).digits := by
  induction fuel generalizing d with
  | zero => exact h
  | succ fuel ih =>
      rw [stripZeros]
      split
      next hten =>
        apply ih
        show 0 < d.digits / 10
        omega
      next => exact h

theorem pos_shortest {b : Binary} (hb : 0 < b.mantissa) : 0 < (shortest b).digits := by
  apply pos_stripZeros
  cases hf : (List.range 17).findSome? fun n : Nat =>
      b.interval.onGrid? (b.interval.magnitude - n - 1) with
  | none => exact Nat.mul_pos hb (Nat.pow_pos (by decide))
  | some d =>
      obtain ⟨n, -, hn⟩ := List.exists_of_findSome?_eq_some hf
      exact pos_of_onGrid? hb hn

end Decimal

namespace Json

open Text Decimal

variable {d : Digits} {t r : Text}

theorem IsDigits.append (h : IsDigits t) (h' : ∀ c ∈ r, isDigit c = true) : IsDigits (t ++ r) :=
  ⟨List.append_ne_nil_of_left_ne_nil h.1 r, List.forall_mem_append.mpr ⟨h.2, h'⟩⟩

theorem isDigit_of_mem_replicate {n : Nat} : ∀ c ∈ List.replicate n '0', isDigit c = true := by
  intro c hc
  rw [List.eq_of_mem_replicate hc]
  decide

theorem isDigit_of_mem_padStart {w n : Nat} : ∀ c ∈ padStart w '0' (ofNat n), isDigit c = true :=
  List.forall_mem_append.mpr ⟨isDigit_of_mem_replicate, (isDigits_ofNat n).2⟩

theorem lt_length_padStart (p n : Nat) : p < (padStart (p + 1) '0' (ofNat n)).length := by
  rw [padStart, List.length_append, List.length_replicate]
  omega

theorem length_of_head?_padStart {p n : Nat} (hp : 0 < p)
    (h : (padStart (p + 1) '0' (ofNat n)).head? = some '0') :
    (padStart (p + 1) '0' (ofNat n)).length = p + 1 := by
  rcases Nat.lt_or_ge p (ofNat n).length with hlong | hshort
  · have hpad : padStart (p + 1) '0' (ofNat n) = ofNat n := by
      rw [padStart, Nat.sub_eq_zero_of_le hlong]
      rfl
    rw [hpad] at h
    rcases Nat.eq_zero_or_pos n with rfl | hn
    · exact absurd hlong (Nat.not_lt.mpr hp)
    · exact absurd h (head?_ofNat hn)
  · rw [padStart, List.length_append, List.length_replicate]
    omega

theorem setPoint_eq {p : Nat} (hp : 0 < p) (n : Nat) :
    ∃ m : Numeral, m.WellFormed ∧ m.negative = false ∧ setPoint p n = m.text := by
  obtain ⟨ds, hds⟩ : ∃ ds, ds = padStart (p + 1) '0' (ofNat n) := ⟨_, rfl⟩
  have hdigits : ∀ c ∈ ds, isDigit c = true := hds ▸ isDigit_of_mem_padStart
  have hlength : p < ds.length := hds ▸ lt_length_padStart p n
  refine ⟨⟨false, ds.take (ds.length - p), some (ds.drop (ds.length - p)), none⟩,
    ⟨⟨?_, fun c hc => hdigits c (List.mem_of_mem_take hc)⟩, ?_, ?_, nofun⟩, rfl, ?_⟩
  · apply List.ne_nil_of_length_pos
    rw [List.length_take]
    omega
  · intro hzero
    rw [List.head?_take, if_neg (by omega)] at hzero
    have hone : ds.length = p + 1 := by
      rw [hds] at hzero ⊢
      exact length_of_head?_padStart hp hzero
    obtain ⟨ds, rfl⟩ := List.head?_eq_some_iff.mp hzero
    rw [hone, Nat.add_sub_cancel_left]
    rfl
  · rintro fs hfs
    obtain rfl := Option.some.inj hfs
    refine ⟨?_, fun c hc => hdigits c (List.mem_of_mem_drop hc)⟩
    apply List.ne_nil_of_length_pos
    rw [List.length_drop]
    omega
  · rw [setPoint, ← hds]
    simp only [if_neg (Nat.ne_of_gt hp)]
    simp [Numeral.text]

theorem positional_eq {n : Nat} (hn : 0 < n) (zeros : Nat) :
    ∃ m : Numeral, m.WellFormed ∧ m.negative = false ∧
      ofNat n ++ List.replicate zeros '0' ++ ".0".toList = m.text := by
  have hdigits := isDigits_ofNat n
  refine ⟨⟨false, ofNat n ++ List.replicate zeros '0', some ['0'], none⟩,
    ⟨hdigits.append isDigit_of_mem_replicate, fun hzero => ?_, ?_, nofun⟩, rfl, ?_⟩
  · obtain ⟨c, ds, hds⟩ := List.exists_cons_of_ne_nil hdigits.1
    have hhead := head?_ofNat hn
    rw [hds] at hhead hzero
    exact absurd hzero hhead
  · rintro fs hfs
    obtain rfl := Option.some.inj hfs
    exact ⟨List.cons_ne_nil _ _, List.forall_mem_singleton.mpr rfl⟩
  · simp [Numeral.text]

theorem scientific_eq {ds : Text} (hds : IsDigits ds) (lead : Int) :
    ∃ m : Numeral, m.WellFormed ∧ m.negative = false ∧
      ds.take 1 ++ (if ds.length = 1 then [] else ['.']) ++ ds.drop 1 ++
        'e' :: (if 0 ≤ lead then '+' else '-') :: ofNat lead.natAbs = m.text := by
  obtain ⟨c, ds, rfl⟩ := List.exists_cons_of_ne_nil hds.1
  obtain ⟨hc, hrest⟩ := List.forall_mem_cons.mp hds.2
  refine ⟨⟨false, [c], if ds = [] then none else some ds,
      some (!decide (0 ≤ lead), ofNat lead.natAbs)⟩,
    ⟨⟨List.cons_ne_nil _ _, List.forall_mem_singleton.mpr hc⟩, ?_, ?_, ?_⟩, rfl, ?_⟩
  · intro hzero
    rw [Option.some.inj hzero]
  · intro fs hfs
    split at hfs
    · cases hfs
    next hne =>
      obtain rfl := Option.some.inj hfs
      exact ⟨hne, hrest⟩
  · rintro negative es hes
    obtain ⟨-, rfl⟩ := Prod.mk.inj (Option.some.inj hes)
    exact isDigits_ofNat _
  · by_cases hsign : 0 ≤ lead <;> cases ds <;> simp [Numeral.text, hsign]

theorem layout_eq (hd : 0 < d.digits) :
    ∃ m : Numeral, m.WellFormed ∧ m.negative = false ∧ layout d = m.text := by
  rw [layout]
  dsimp only
  split
  next =>
    split
    next => exact positional_eq hd d.exponent.toNat
    next hneg => exact setPoint_eq (by omega) d.digits
  next => exact scientific_eq (isDigits_ofNat d.digits) _

theorem realText_eq (x : Float) :
    realText x = "null".toList ∨ ∃ m : Numeral, m.WellFormed ∧ realText x = m.text := by
  rw [realText]
  split
  · exact .inl rfl
  · right
    have hmagnitude : ∃ m : Numeral, m.WellFormed ∧ m.negative = false ∧
        (if (Binary.ofBits x.toBits).mantissa = 0 then "0.0".toList
          else layout (shortest (Binary.ofBits x.toBits))) = m.text := by
      split
      · exact setPoint_eq Nat.one_pos 0
      next hb => exact layout_eq (pos_shortest (Nat.pos_of_ne_zero hb))
    obtain ⟨m, hm, hpositive, htext⟩ := hmagnitude
    dsimp only
    rw [htext]
    split
    · refine ⟨{ m with negative := true }, ⟨hm.whole, hm.leading, hm.fraction, hm.exponent⟩, ?_⟩
      rw [Numeral.text, Numeral.text, hpositive]
      rfl
    · exact ⟨m, hm, rfl⟩

end Json

end SlowQuery
