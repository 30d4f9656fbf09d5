import Mathlib

namespace SlowQuery.Doubles

open Float.Model Float.Model.UnpackedFloat

abbrev double : Format := .binary64

def infinityBits : Nat := 2047 * 2 ^ 52

/-- What the bits through those of positive infinity stand for. -/
inductive StandsFor : Nat → UnpackedFloat → Prop
  | infinity : StandsFor infinityBits (.infinity .positive)
  | zero : StandsFor 0 (.zero .positive)
  | subnormal {m : Nat} (hm : 0 < m) (hlt : m < 2 ^ 52) :
      StandsFor m (.finite .positive m (-1074) hm)
  | normal {e m : Nat} (he : 0 < e) (hlt : e < 2047) (hlt' : m < 2 ^ 52) (hm : 0 < 2 ^ 52 + m) :
      StandsFor (e * 2 ^ 52 + m) (.finite .positive (2 ^ 52 + m) (e - 1075) hm)

inductive Nonnegative : UnpackedFloat → Prop
  | infinity : Nonnegative (.infinity .positive)
  | zero : Nonnegative (.zero .positive)
  | finite {m : Nat} {e : Int} (hm : 0 < m) : Nonnegative (.finite .positive m e hm)

/-- Positive numbers with all bits of the mantissa, far from zero and from infinity. -/
inductive Regular : UnpackedFloat → Prop
  | finite {m : Nat} {e : Int} (hm : 0 < m) (hlow : 2 ^ 52 ≤ m) (hhigh : m < 2 ^ 53)
      (he : -1074 ≤ e) (he' : e ≤ 100) : Regular (.finite .positive m e hm)

variable {b : BitVec double.numBits} {u v : UnpackedFloat} {m n : Nat} {e : Int}

theorem toNat_unpackMantissa : (unpackMantissa b).toNat = b.toNat % 2 ^ 52 := by
  simp [unpackMantissa, double]

theorem toNat_unpackExponent : (unpackExponent b).toNat = b.toNat / 2 ^ 52 % 2 ^ 11 := by
  simp [unpackExponent, double, Nat.shiftRight_eq_div_pow]

theorem toNat_unpackSign : (unpackSign b).toNat = b.toNat / 2 ^ 63 % 2 := by
  simp [unpackSign, double, Nat.shiftRight_eq_div_pow]

theorem toNat_packComponents (e : BitVec 11) (m : BitVec 52) :
    (packComponents double .positive e m).toNat = e.toNat * 2 ^ 52 + m.toNat := by
  have hhigh : (0#1 ++ e).toNat = e.toNat := by
    rw [BitVec.toNat_append]
    simp
  show ((0#1 ++ e) ++ m).toNat = _
  rw [BitVec.toNat_append, hhigh, ← Nat.shiftLeft_add_eq_or_of_lt m.isLt, Nat.shiftLeft_eq]

theorem toNat_packedInfinity : (packedInfinity double .positive).toNat = infinityBits :=
  toNat_packComponents _ _

theorem unpackSign_of_le (h : b.toNat ≤ infinityBits) :
    Sign.ofBitVec (unpackSign b) = .positive := by
  have hsign : unpackSign b = 0#1 := by
    apply BitVec.eq_of_toNat_eq
    rw [toNat_unpackSign, BitVec.toNat_ofNat]
    rw [infinityBits] at h
    omega
  rw [Sign.ofBitVec, if_pos hsign]

theorem standsFor_unpack (h : b.toNat ≤ infinityBits) :
    StandsFor b.toNat (UnpackedFloat.unpack double b) := by
  have hbits : b.toNat = (unpackExponent b).toNat * 2 ^ 52 + (unpackMantissa b).toNat := by
    rw [infinityBits] at h
    rw [toNat_unpackExponent, toNat_unpackMantissa]
    omega
  have hexp : (unpackExponent b).toNat < 2 ^ 11 := (unpackExponent b).isLt
  have hmant : (unpackMantissa b).toNat < 2 ^ 52 := (unpackMantissa b).isLt
  simp only [UnpackedFloat.unpack, unpackSign_of_le h]
  by_cases htop : unpackExponent b = -1#11
  · have he : (unpackExponent b).toNat = 2047 := congrArg BitVec.toNat htop
    have hm : (unpackMantissa b).toNat = 0 := by
      rw [infinityBits] at h
      omega
    rw [if_pos htop, if_pos (BitVec.eq_of_toNat_eq hm), hbits, he, hm]
    exact .infinity
  · have he : (unpackExponent b).toNat ≠ 2047 := fun he => htop (BitVec.eq_of_toNat_eq he)
    rw [if_neg htop]
    by_cases hlow : unpackExponent b = 0#11
    · have he : (unpackExponent b).toNat = 0 := congrArg BitVec.toNat hlow
      rw [if_pos hlow, hbits, he, Nat.zero_mul, Nat.zero_add]
      split
      next hz =>
          rw [hz]
          exact .zero
      next hz =>
          exact .subnormal (Nat.pos_of_ne_zero fun hm => hz (BitVec.eq_of_toNat_eq hm)) hmant
    · have he' : (unpackExponent b).toNat ≠ 0 := fun he => hlow (BitVec.eq_of_toNat_eq he)
      have hm : (1#1 ++ unpackMantissa b).toNat = 2 ^ 52 + (unpackMantissa b).toNat := by
        rw [BitVec.toNat_append, ← Nat.shiftLeft_add_eq_or_of_lt hmant]
        rfl
      simp only [if_neg hlow, hm]
      rw [hbits]
      exact .normal (Nat.pos_of_ne_zero he') (by omega) hmant _

theorem then_compare_eq_lt {d : Int} (h : d < e ∨ d = e ∧ m < n) :
    (compare d e).then (compare m n) = .lt := by
  rcases h with h | ⟨rfl, h⟩
  · rw [Int.compare_eq_lt.mpr h]
    rfl
  · rw [Int.compare_eq_eq.mpr rfl]
    exact Nat.compare_eq_lt.mpr h

theorem StandsFor.compare_lt (hu : StandsFor m u) (hv : StandsFor n v) (h : m < n) :
    u.compare v = some .lt := by
  have hn : n ≤ infinityBits := by
    cases hv <;> rw [infinityBits] <;> omega
  rw [UnpackedFloat.compare.eq_def]
  cases hu with
  | infinity => omega
  | zero => cases hv <;> first | rfl | omega
  | subnormal hm hlt =>
      cases hv with
      | infinity => rfl
      | zero => omega
      | subnormal => exact congrArg some (then_compare_eq_lt (.inr ⟨rfl, h⟩))
      | normal =>
          apply congrArg some (then_compare_eq_lt _)
          omega
  | normal =>
      cases hv with
      | infinity => rfl
      | zero => omega
      | subnormal => omega
      | normal =>
          apply congrArg some (then_compare_eq_lt _)
          omega

theorem StandsFor.isNaN (h : StandsFor n u) : u.isNaN = false := by
  cases h <;> rfl

theorem StandsFor.nonnegative (h : StandsFor n u) : Nonnegative u := by
  cases h with
  | infinity => exact .infinity
  | zero => exact .zero
  | subnormal hm => exact .finite hm
  | normal _ _ _ hm => exact .finite hm

theorem StandsFor.finite (h : StandsFor n u) (hpos : 0 < n) (hlt : n < infinityBits) :
    ∃ m e hm, u = .finite .positive m e hm := by
  cases h with
  | infinity => omega
  | zero => omega
  | subnormal hm => exact ⟨_, _, hm, rfl⟩
  | normal _ _ _ hm => exact ⟨_, _, hm, rfl⟩

theorem biased_eq (e : Int) :
    (e + (double.exponentBias : Int) + ((52 : Nat) : Int)).toNat = (e + 1075).toNat := by
  show (e + 1023 + 52).toNat = _
  omega

theorem Nonnegative.pack_le (h : Nonnegative u) :
    (UnpackedFloat.pack double u).toNat ≤ infinityBits := by
  cases h with
  | infinity => exact Nat.le_of_eq toNat_packedInfinity
  | zero => exact Nat.zero_le _
  | @finite m e hm =>
      have hmant := (BitVec.ofNat 52 m).isLt
      simp only [UnpackedFloat.pack, biased_eq]
      split
      next => exact Nat.le_of_eq toNat_packedInfinity
      next hfits =>
          have hexp : (e + 1075).toNat + 1 < 2 ^ 11 := Nat.lt_of_not_le hfits
          split
          next =>
              rw [toNat_packComponents, BitVec.toNat_ofNat, Nat.mod_eq_of_lt (by omega),
                infinityBits]
              omega
          next =>
              rw [toNat_packComponents, BitVec.toNat_ofNat, Nat.zero_mod, infinityBits]
              omega

theorem Regular.pack_bounds (h : Regular u) :
    0 < (UnpackedFloat.pack double u).toNat ∧
      (UnpackedFloat.pack double u).toNat < infinityBits := by
  cases h with
  | @finite m e hm hlow hhigh he he' =>
      have hlog : m.log2 + 1 = double.mantissaBits := by
        rw [(Nat.log2_eq_iff (by omega)).mpr ⟨hlow, hhigh⟩]
        rfl
      have hexp : (e + 1075).toNat + 1 < 2 ^ 11 := by omega
      have hmant := (BitVec.ofNat 52 m).isLt
      simp only [UnpackedFloat.pack, biased_eq]
      rw [if_neg (Nat.not_le.mpr hexp), if_pos hlog, toNat_packComponents, BitVec.toNat_ofNat,
        Nat.mod_eq_of_lt (by omega), infinityBits]
      omega

theorem mantissa_shiftRight (em : ExtendedMantissa) (s : Nat) :
    (em >>> s).mantissa = em.mantissa / 2 ^ s := by
  show (Nat.repeat ExtendedMantissa.shiftRightOne s em).mantissa = _
  induction s with
  | zero => rw [Nat.repeat, Nat.pow_zero, Nat.div_one]
  | succ s ih =>
      rw [Nat.repeat, ExtendedMantissa.shiftRightOne, ih, Nat.div_div_eq_div_mul, Nat.pow_succ]

theorem mantissa_ofMantissaAndAccuracy (m : Nat) (acc : Accuracy) :
    (ExtendedMantissa.ofMantissaAndAccuracy m acc).mantissa = m := by
  match acc with
  | .exact | .inexact .lt | .inexact .eq | .inexact .gt => rfl

theorem roundedMantissa_bounds (em : ExtendedMantissa) :
    em.mantissa ≤ em.roundedMantissa ∧ em.roundedMantissa ≤ em.mantissa + 1 := by
  rw [ExtendedMantissa.roundedMantissa, Accuracy.roundToNearestEven.eq_def]
  split <;> omega

theorem shiftToTargetExponent_eq (he : -1074 ≤ e) (acc : Accuracy) :
    shiftToTargetExponent double m e acc =
      (ExtendedMantissa.ofMantissaAndAccuracy m acc >>> (m.log2 - 52),
        e + (m.log2 - 52 : Nat)) := by
  have ht : (double.targetExponent (totalExponent m e) - e).toNat = m.log2 - 52 := by
    show (max ((m.log2 : Int) + 1 + e - 53) (-1074) - e).toNat = _
    omega
  rw [shiftToTargetExponent, shiftToExponent]
  simp only [ht]

theorem shift_bounds (hm : 2 ^ 52 ≤ m) :
    2 ^ 52 ≤ m / 2 ^ (m.log2 - 52) ∧ m / 2 ^ (m.log2 - 52) < 2 ^ 53 := by
  have h0 : m ≠ 0 := by omega
  have hl : 52 ≤ m.log2 := (Nat.le_log2 h0).mpr hm
  constructor
  · rw [Nat.le_div_iff_mul_le (Nat.two_pow_pos _), ← Nat.pow_add, Nat.add_sub_cancel' hl]
    exact Nat.log2_self_le h0
  · have hsum : 53 + (m.log2 - 52) = m.log2 + 1 := by omega
    rw [Nat.div_lt_iff_lt_mul (Nat.two_pow_pos _), ← Nat.pow_add, hsum]
    exact Nat.lt_log2_self

theorem nonnegative_round {acc : Accuracy} :
    Nonnegative (roundWithAccuracy double .positive m e acc) := by
  rw [roundWithAccuracy]
  dsimp only
  split
  next => exact .zero
  next => exact .finite _

/-- Rounding can carry into one more bit, which the second shift takes off again. -/
theorem regular_round (hm : 2 ^ 52 ≤ m) (he : -1074 ≤ e) (he' : e + m.log2 ≤ 151)
    (acc : Accuracy) : Regular (roundWithAccuracy double .positive m e acc) := by
  have hl : 52 ≤ m.log2 := (Nat.le_log2 (by omega)).mpr hm
  rw [roundWithAccuracy, shiftToTargetExponent_eq he]
  dsimp only
  generalize hem : ExtendedMantissa.ofMantissaAndAccuracy m acc >>> (m.log2 - 52) = em
  have hq : em.mantissa = m / 2 ^ (m.log2 - 52) := by
    rw [← hem, mantissa_shiftRight, mantissa_ofMantissaAndAccuracy]
  obtain ⟨hqlow, hqhigh⟩ := shift_bounds hm
  obtain ⟨hrlow, hrhigh⟩ := roundedMantissa_bounds em
  generalize em.roundedMantissa = r at hrlow hrhigh
  have hr : 2 ^ 52 ≤ r := by omega
  have hrl : r.log2 < 54 := (Nat.log2_lt (by omega)).mpr (by omega)
  obtain ⟨hlow, hhigh⟩ := shift_bounds hr
  rw [shiftToTargetExponent_eq (by omega)]
  simp only [mantissa_shiftRight, mantissa_ofMantissaAndAccuracy]
  rw [dif_neg (by omega)]
  exact .finite _ hlow hhigh (by omega) (by omega)

theorem nonnegative_ofNat (n : Nat) : Nonnegative (UnpackedFloat.ofNat double n) := by
  rw [UnpackedFloat.ofNat, UnpackedFloat.ofInt, UnpackedFloat.normalize]
  split
  next hneg =>
      have hneg : (n : Int) < 0 := Int.compare_eq_lt.mp hneg
      omega
  next => exact .zero
  next => exact nonnegative_round

theorem ofNat_eq_round (h : 0 < n) :
    UnpackedFloat.ofNat double n =
      roundWithAccuracy double .positive (n <<< (52 - n.log2)) (-(52 - n.log2 : Nat)) .exact := by
  have hpos : compare (n : Int) 0 = .gt := Int.compare_eq_gt.mpr (by omega)
  have hk : (-double.targetExponent (totalExponent n 0)).toNat = 52 - n.log2 := by
    show (-max ((n.log2 : Int) + 1 + 0 - 53) (-1074)).toNat = _
    omega
  rw [UnpackedFloat.ofNat, UnpackedFloat.ofInt, UnpackedFloat.normalize, hpos]
  simp only [UnpackedFloat.round, decreaseExponent, hk, Int.toNat_natCast, Int.zero_sub]

theorem regular_ofNat (h : 0 < n) (h' : n < 2 ^ 64) : Regular (UnpackedFloat.ofNat double n) := by
  have h0 : n ≠ 0 := Nat.pos_iff_ne_zero.mp h
  have hl : n.log2 < 64 := (Nat.log2_lt h0).mpr h'
  have hlow : 2 ^ 52 ≤ n <<< (52 - n.log2) := by
    rw [Nat.shiftLeft_eq]
    calc
      2 ^ 52 ≤ 2 ^ (n.log2 + (52 - n.log2)) := Nat.pow_le_pow_right (by decide) (by omega)
      _ = 2 ^ n.log2 * 2 ^ (52 - n.log2) := Nat.pow_add ..
      _ ≤ n * 2 ^ (52 - n.log2) := Nat.mul_le_mul_right _ (Nat.log2_self_le h0)
  have hhigh : n <<< (52 - n.log2) < 2 ^ 64 := by
    rw [Nat.shiftLeft_eq]
    calc
      n * 2 ^ (52 - n.log2) < 2 ^ (n.log2 + 1) * 2 ^ (52 - n.log2) :=
        Nat.mul_lt_mul_of_pos_right Nat.lt_log2_self (Nat.two_pow_pos _)
      _ = 2 ^ (n.log2 + 1 + (52 - n.log2)) := (Nat.pow_add ..).symm
      _ ≤ 2 ^ 64 := Nat.pow_le_pow_right (by decide) (by omega)
  have hlog : (n <<< (52 - n.log2)).log2 < 64 := (Nat.log2_lt (by omega)).mpr hhigh
  rw [ofNat_eq_round h]
  exact regular_round hlow (by omega) (by omega) _

theorem Nonnegative.div (hu : Nonnegative u) (hm : 0 < m) :
    Nonnegative (UnpackedFloat.div double u (.finite .positive m e hm)) := by
  cases hu with
  | infinity => exact .infinity
  | zero => exact .zero
  | finite => exact nonnegative_round

variable {x y : Float}

theorem toBits_quotient (n : UInt64) {d : UInt64} (hd : 0 < d.toNat) :
    (n.toFloat / d.toFloat).toBits.toNat ≤ infinityBits := by
  obtain ⟨hpos, hlt⟩ := (regular_ofNat hd d.toNat_lt).pack_bounds
  obtain ⟨m, e, hm, hdiv⟩ := (standsFor_unpack (Nat.le_of_lt hlt)).finite hpos hlt
  have hnum := (standsFor_unpack (nonnegative_ofNat n.toNat).pack_le).nonnegative
  have hquot := (hnum.div (e := e) hm).pack_le
  rw [← hdiv] at hquot
  exact hquot

theorem standsFor_toBits (h : x.toBits.toNat ≤ infinityBits) :
    StandsFor x.toBits.toNat x.toModel.unpack :=
  standsFor_unpack h

theorem isNaN_of_le (h : x.toBits.toNat ≤ infinityBits) : x.isNaN = false :=
  (standsFor_toBits h).isNaN

theorem lt_of_toBits_lt (hx : x.toBits.toNat ≤ infinityBits) (hy : y.toBits.toNat ≤ infinityBits)
    (h : x.toBits.toNat < y.toBits.toNat) : x < y := by
  have hc := (standsFor_toBits hx).compare_lt (standsFor_toBits hy) h
  have hlt : x.toModel < y.toModel := by
    show x.toModel.lt y.toModel = true
    rw [Float.Model.lt, UnpackedFloat.lt, hc]
    rfl
  exact decide_eq_true hlt

end SlowQuery.Doubles
