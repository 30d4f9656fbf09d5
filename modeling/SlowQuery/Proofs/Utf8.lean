import SlowQuery.Proofs.Blanks
import SlowQuery.Proofs.ByteOrder

namespace SlowQuery.Text.Utf8

/-- Two bytes begin a character of this many bytes. The bounds on the second leave out characters
written in more bytes than they need, surrogates, and numbers above those of characters. -/
def Begins (a b : UInt8) (width : Nat) : Prop :=
  128 ≤ b.toNat ∧ b.toNat ≤ 191 ∧
    (width = 2 ∧ 194 ≤ a.toNat ∧ a.toNat ≤ 223 ∨
      width = 3 ∧ 224 ≤ a.toNat ∧ a.toNat ≤ 239 ∧
        (a.toNat = 224 → 160 ≤ b.toNat) ∧ (a.toNat = 237 → b.toNat ≤ 159) ∨
      width = 4 ∧ 240 ≤ a.toNat ∧ a.toNat ≤ 244 ∧
        (a.toNat = 240 → 144 ≤ b.toNat) ∧ (a.toNat = 244 → b.toNat ≤ 143))

variable {a b lo hi : UInt8} {bs tail : Bytes} {w : Nat} {c : Char}

theorem isTail_iff : isTail b = true ↔ 128 ≤ b.toNat ∧ b.toNat ≤ 191 := by
  simp [isTail, UInt8.le_iff_toNat_le]

theorem toNat_ofNat {n : Nat} (h : n < 256) : (UInt8.ofNat n).toNat = n := by
  rw [UInt8.toNat_ofNat', Nat.mod_eq_of_lt h]

theorem toNat_tailByte (n : Nat) : (tailByte n).toNat = n % 64 + 128 := toNat_ofNat (by omega)

theorem lead?_ascii (h : a.toNat ≤ 127) : lead? a = some (0, 0, 1) :=
  if_pos (UInt8.lt_iff_toNat_lt.mpr (Nat.lt_succ_of_le h))

theorem lead?_width (h : lead? a = some (lo, hi, w)) : w = 1 ∧ a.toNat ≤ 127 ∨ 2 ≤ w := by
  rw [lead?] at h
  split at h
  next ha =>
      cases h
      exact .inl ⟨rfl, Nat.le_of_lt_succ (UInt8.lt_iff_toNat_lt.mp ha)⟩
  next =>
      right
      repeat' split at h
      all_goals
        cases h
        try decide

theorem lead?_begins :
    (∃ lo hi, lead? a = some (lo, hi, w + 2) ∧ lo ≤ b ∧ b ≤ hi) ↔ Begins a b (w + 2) := by
  have hsome {x y : UInt8} {n : Nat} :
      (∃ lo hi, some (x, y, n) = some (lo, hi, w + 2) ∧
          lo.toNat ≤ b.toNat ∧ b.toNat ≤ hi.toNat) ↔
        n = w + 2 ∧ x.toNat ≤ b.toNat ∧ b.toNat ≤ y.toNat := by
    constructor
    · rintro ⟨_, _, he, h⟩
      cases he
      exact ⟨rfl, h⟩
    · rintro ⟨rfl, h⟩
      exact ⟨x, y, rfl, h⟩
  simp only [lead?, UInt8.lt_iff_toNat_lt, UInt8.le_iff_toNat_le, ← UInt8.toNat_inj,
    Bool.and_eq_true, decide_eq_true_eq, UInt8.reduceToNat, Begins]
  repeat' split
  all_goals
    simp only [hsome, reduceCtorEq, false_and, exists_false, false_iff, UInt8.reduceToNat]
    omega

theorem step_of_begins (h : Begins a b (w + 2)) {m : Nat} (hm : 128 >>> (w + 2) = m)
    (bs : Bytes) :
    step a (b :: bs) = tails w 2 (64 * (a.toNat % m) + b.toNat % 64) bs := by
  obtain ⟨lo, hi, hl, hb⟩ := lead?_begins.mpr h
  have hin : (decide (lo ≤ b) && decide (b ≤ hi)) = true := by simpa using hb
  simp only [step, hl, if_pos hin, payloadBits, Nat.add_sub_cancel, hm]

theorem step_eq_char (h : step a bs = .char c w) :
    a.toNat ≤ 127 ∧ c = Char.ofNat a.toNat ∧ w = 1 ∨
    ∃ b more m, bs = b :: more ∧ Begins a b (m + 2) ∧
      tails m 2 (64 * (a.toNat % (128 >>> (m + 2))) + b.toNat % 64) more = .char c w := by
  rw [step] at h
  split at h
  next => cases h
  next hl =>
      cases h
      exact .inl ⟨((lead?_width hl).resolve_right (by omega)).2, rfl, rfl⟩
  next lo hi width hne hl =>
      cases bs with
      | nil => cases h
      | cons b more =>
          have hw : 2 ≤ width := (lead?_width hl).resolve_left fun h => hne h.1
          obtain ⟨m, rfl⟩ := Nat.exists_eq_add_of_le' hw
          dsimp only at h
          split at h
          next hin =>
              simp only [Bool.and_eq_true, decide_eq_true_eq] at hin
              exact .inr ⟨b, more, m, rfl, lead?_begins.mp ⟨lo, hi, hl, hin⟩, h⟩
          next => cases h

theorem tails_eq_char {more seen n : Nat} (h : tails (more + 1) seen n bs = .char c w) :
    ∃ b rest, bs = b :: rest ∧ isTail b = true ∧
      tails more (seen + 1) (64 * n + b.toNat % 64) rest = .char c w := by
  cases bs with
  | nil => cases h
  | cons b rest =>
      rw [tails] at h
      split at h
      next hb => exact ⟨b, rest, rfl, hb, h⟩
      next => cases h

theorem toNat_char {n : Nat} (h : n.isValidChar) : (Char.ofNat n).toNat = n := by
  rw [Char.ofNat, dif_pos h]
  rfl

section

variable {d e : UInt8}

theorem encodeChar_of_two (h : Begins a b 2) :
    String.utf8EncodeChar (Char.ofNat (64 * (a.toNat % 32) + b.toNat % 64)) = [a, b] := by
  rw [Begins] at h
  have hc := toNat_char (n := 64 * (a.toNat % 32) + b.toNat % 64) (.inl (by omega))
  rw [encodeChar_two (by omega) (by omega), hc]
  simp only [List.cons.injEq, and_true, ← UInt8.toNat_inj, toNat_tailByte, UInt8.toNat_ofNat']
  omega

theorem encodeChar_of_three (h : Begins a b 3) (hd : isTail d = true) :
    String.utf8EncodeChar
      (Char.ofNat (64 * (64 * (a.toNat % 16) + b.toNat % 64) + d.toNat % 64)) = [a, b, d] := by
  rw [Begins] at h
  rw [isTail_iff] at hd
  have hvalid : (64 * (64 * (a.toNat % 16) + b.toNat % 64) + d.toNat % 64).isValidChar := by
    rw [Nat.isValidChar]
    omega
  have hc := toNat_char hvalid
  rw [encodeChar_three (by omega) (by omega), hc]
  simp only [List.cons.injEq, and_true, ← UInt8.toNat_inj, toNat_tailByte, UInt8.toNat_ofNat']
  omega

theorem encodeChar_of_four (h : Begins a b 4) (hd : isTail d = true) (he : isTail e = true) :
    String.utf8EncodeChar
      (Char.ofNat (64 * (64 * (64 * (a.toNat % 8) + b.toNat % 64) + d.toNat % 64) +
        e.toNat % 64)) = [a, b, d, e] := by
  rw [Begins] at h
  rw [isTail_iff] at hd he
  have hvalid : (64 * (64 * (64 * (a.toNat % 8) + b.toNat % 64) + d.toNat % 64) +
      e.toNat % 64).isValidChar := by
    rw [Nat.isValidChar]
    omega
  have hc := toNat_char hvalid
  rw [encodeChar_four (by omega), hc]
  simp only [List.cons.injEq, and_true, ← UInt8.toNat_inj, toNat_tailByte, UInt8.toNat_ofNat']
  omega

end

theorem encodeChar_of_step (h : step a bs = .char c w) :
    ∃ tail rest, bs = tail ++ rest ∧ String.utf8EncodeChar c = a :: tail ∧
      w = tail.length + 1 := by
  rcases step_eq_char h with ⟨ha, rfl, rfl⟩ | ⟨b, more, m, rfl, hb, ht⟩
  · have hc := toNat_char (n := a.toNat) (.inl (by omega))
    refine ⟨[], bs, rfl, ?_, rfl⟩
    rw [encodeChar_one (by omega), hc, UInt8.ofNat_toNat]
  · match m with
    | 0 =>
        rw [tails] at ht
        cases ht
        exact ⟨[b], more, rfl, encodeChar_of_two hb, rfl⟩
    | 1 =>
        obtain ⟨d, rest, rfl, hd, ht⟩ := tails_eq_char ht
        rw [tails] at ht
        cases ht
        exact ⟨[b, d], rest, rfl, encodeChar_of_three hb hd, rfl⟩
    | 2 =>
        obtain ⟨d, more, rfl, hd, ht⟩ := tails_eq_char ht
        obtain ⟨e, rest, rfl, he, ht⟩ := tails_eq_char ht
        rw [tails] at ht
        cases ht
        exact ⟨[b, d, e], rest, rfl, encodeChar_of_four hb hd he, rfl⟩
    | m + 3 =>
        rw [Begins] at hb
        omega

theorem tails_tailByte (more seen n m : Nat) (bs : Bytes) :
    tails (more + 1) seen n (tailByte m :: bs) = tails more (seen + 1) (64 * n + m % 64) bs := by
  have h : isTail (tailByte m) = true := by
    rw [isTail_iff, toNat_tailByte]
    omega
  have hbits : (m % 64 + 128) % 64 = m % 64 := by omega
  rw [tails, if_pos h, payloadBits, toNat_tailByte, hbits]

theorem step_encodeChar (h : String.utf8EncodeChar c = a :: tail) (rest : Bytes) :
    step a (tail ++ rest) = .char c (tail.length + 1) := by
  have hvalid : c.toNat < 0xD800 ∨ 0xDFFF < c.toNat ∧ c.toNat < 0x110000 := c.valid
  rcases encodeChar_cases c with ⟨hc, ec⟩ | ⟨hc, hc', ec⟩ | ⟨hc, hc', ec⟩ | ⟨hc, -, ec⟩ <;>
    obtain ⟨rfl, rfl⟩ := List.cons.inj (ec.symm.trans h)
  · have ha := toNat_ofNat (n := c.toNat) (by omega)
    have hl : lead? (.ofNat c.toNat) = some (0, 0, 1) := lead?_ascii (by omega)
    simp only [step, hl, ha, Char.ofNat_toNat, List.length_nil]
  · have ha := toNat_ofNat (n := c.toNat / 64 % 32 + 192) (by omega)
    have hb : Begins (.ofNat (c.toNat / 64 % 32 + 192)) (tailByte c.toNat) 2 := by
      rw [Begins, toNat_tailByte, ha]
      omega
    have hn : 64 * ((c.toNat / 64 % 32 + 192) % 32) + (c.toNat % 64 + 128) % 64 = c.toNat := by
      omega
    rw [List.cons_append, step_of_begins (w := 0) (m := 32) hb rfl, tails, ha, toNat_tailByte, hn,
      Char.ofNat_toNat]
    rfl
  · have ha := toNat_ofNat (n := c.toNat / 4096 % 16 + 224) (by omega)
    have hb : Begins (.ofNat (c.toNat / 4096 % 16 + 224)) (tailByte (c.toNat / 64)) 3 := by
      rw [Begins, toNat_tailByte, ha]
      omega
    have hn : 64 * (64 * ((c.toNat / 4096 % 16 + 224) % 16) + (c.toNat / 64 % 64 + 128) % 64) +
        c.toNat % 64 = c.toNat := by
      omega
    rw [List.cons_append, step_of_begins (w := 1) (m := 16) hb rfl, List.cons_append,
      tails_tailByte, tails, ha, toNat_tailByte, hn, Char.ofNat_toNat]
    rfl
  · have ha := toNat_ofNat (n := c.toNat / 262144 % 8 + 240) (by omega)
    have hb : Begins (.ofNat (c.toNat / 262144 % 8 + 240)) (tailByte (c.toNat / 4096)) 4 := by
      rw [Begins, toNat_tailByte, ha]
      omega
    have hn : 64 * (64 * (64 * ((c.toNat / 262144 % 8 + 240) % 8) +
        (c.toNat / 4096 % 64 + 128) % 64) + c.toNat / 64 % 64) + c.toNat % 64 = c.toNat := by
      omega
    rw [List.cons_append, step_of_begins (w := 2) (m := 8) hb rfl, List.cons_append, tails_tailByte,
      List.cons_append, tails_tailByte, tails, ha, toNat_tailByte, hn, Char.ofNat_toNat]
    rfl

theorem encode_cons (c : Char) (t : Text) : encode (c :: t) = String.utf8EncodeChar c ++ encode t :=
  List.flatMap_cons

theorem decodeFrom_skip (i : Nat) (tail rest : Bytes) :
    decodeFrom i tail.length (tail ++ rest) = decodeFrom (i + tail.length) 0 rest := by
  induction tail generalizing i with
  | nil => rfl
  | cons b tail ih =>
      rw [List.length_cons, List.cons_append, decodeFrom, ih]
      congr 1
      omega

theorem decodeFrom_encode (t : Text) (i : Nat) : decodeFrom i 0 (encode t) = .ok t := by
  induction t generalizing i with
  | nil => rfl
  | cons c t ih =>
      obtain ⟨a, tail, he⟩ := List.exists_cons_of_ne_nil (String.utf8EncodeChar_ne_nil (c := c))
      simp only [encode_cons, he, List.cons_append, decodeFrom, step_encodeChar he]
      rw [Nat.add_sub_cancel, decodeFrom_skip, ih]
      rfl

theorem decodeFrom_cons {t : Text} {i : Nat} (h : decodeFrom i 0 (a :: bs) = .ok t) :
    ∃ c w u, step a bs = .char c w ∧ decodeFrom (i + 1) (w - 1) bs = .ok u ∧ t = c :: u := by
  rw [decodeFrom] at h
  split at h
  next c w hs =>
      obtain ⟨u, hu, rfl⟩ := map_eq_ok.mp h
      exact ⟨c, w, u, hs, hu, rfl⟩
  all_goals cases h

theorem encode_of_decodeFrom {t : Text} {i : Nat} (h : decodeFrom i 0 bs = .ok t) :
    bs = encode t := by
  induction t generalizing i bs with
  | nil =>
      cases bs with
      | nil => rfl
      | cons a bs =>
          obtain ⟨_, _, _, -, -, ht⟩ := decodeFrom_cons h
          cases ht
  | cons c t ih =>
      cases bs with
      | nil => cases h
      | cons a bs =>
          obtain ⟨c, w, u, hs, hu, ht⟩ := decodeFrom_cons h
          cases ht
          obtain ⟨tail, rest, rfl, hc, rfl⟩ := encodeChar_of_step hs
          rw [Nat.add_sub_cancel, decodeFrom_skip] at hu
          rw [encode_cons, hc, List.cons_append, ← ih hu]

theorem decode_eq_ok_iff {t : Text} : decode bs = .ok t ↔ bs = encode t := by
  constructor
  · exact encode_of_decodeFrom
  · rintro rfl
    exact decodeFrom_encode t 0

theorem lossyFrom_skip (tail rest : Bytes) :
    lossyFrom tail.length (tail ++ rest) = lossyFrom 0 rest := by
  induction tail with
  | nil => rfl
  | cons b tail ih => rw [List.length_cons, List.cons_append, lossyFrom, ih]

theorem decodeLossy_encode (t : Text) : decodeLossy (encode t) = t := by
  rw [decodeLossy]
  induction t with
  | nil => rfl
  | cons c t ih =>
      obtain ⟨a, tail, he⟩ := List.exists_cons_of_ne_nil (String.utf8EncodeChar_ne_nil (c := c))
      simp only [encode_cons, he, List.cons_append, lossyFrom, step_encodeChar he]
      rw [Nat.add_sub_cancel, lossyFrom_skip, ih]

theorem toNat_of_mem_encodeChar (h : b ∈ String.utf8EncodeChar c) (hb : b.toNat < 128) :
    c.toNat = b.toNat := by
  rcases encodeChar_cases c with ⟨hc, ec⟩ | ⟨-, -, ec⟩ | ⟨-, -, ec⟩ | ⟨-, -, ec⟩ <;> rw [ec] at h
  · rw [List.mem_singleton.mp h, toNat_ofNat (by omega)]
  all_goals
    simp only [List.mem_cons, List.not_mem_nil, or_false, ← UInt8.toNat_inj, toNat_tailByte,
      UInt8.toNat_ofNat'] at h
    omega

theorem mem_of_mem_encode {t : Text} (h : b ∈ encode t) (hb : b.toNat < 128) :
    Char.ofNat b.toNat ∈ t := by
  obtain ⟨c, hc, hbc⟩ := List.mem_flatMap.mp h
  rw [← toNat_of_mem_encodeChar hbc hb, Char.ofNat_toNat]
  exact hc

theorem getLast?_of_encode {t : Text} (h : (encode t).getLast? = some b) (hb : b.toNat < 128) :
    t.getLast? = some (Char.ofNat b.toNat) := by
  rcases List.eq_nil_or_concat t with rfl | ⟨u, c, rfl⟩
  · cases h
  · have hlast : (String.utf8EncodeChar c).getLast? = some b := by
      rw [List.concat_eq_append, encode, List.flatMap_append, List.flatMap_singleton,
        List.getLast?_append, Option.or_eq_some_iff, List.getLast?_eq_none_iff] at h
      exact h.resolve_right fun h => String.utf8EncodeChar_ne_nil h.1
    have hc := toNat_of_mem_encodeChar (List.mem_of_getLast? hlast) hb
    rw [List.concat_eq_append, List.getLast?_concat, ← hc, Char.ofNat_toNat]

end SlowQuery.Text.Utf8
