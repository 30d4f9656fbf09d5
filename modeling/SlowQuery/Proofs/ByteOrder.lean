import SlowQuery.Bytes

namespace SlowQuery.Text

theorem atMost_iff {s t : Text} : atMost s t = true ↔ ¬t < s := by
  rw [atMost, Bool.not_eq_true', decide_eq_false_iff_not]

theorem pairwise_mergeSort_atMost {β : Type} {ms : List (Text × β)}
    (h : ms.Pairwise fun a b => a.1 ≠ b.1) :
    (ms.mergeSort fun a b => atMost a.1 b.1).Pairwise fun a b => a.1 < b.1 := by
  have hle : (ms.mergeSort fun a b => atMost a.1 b.1).Pairwise
      fun a b => atMost a.1 b.1 = true := by
    apply List.pairwise_mergeSort
    · intro a b c hab hbc
      have hab := List.not_lt.mp (atMost_iff.mp hab)
      have hbc := List.not_lt.mp (atMost_iff.mp hbc)
      exact atMost_iff.mpr (List.not_lt.mpr (List.le_trans hab hbc))
    · intro a b
      rw [Bool.or_eq_true, atMost_iff, atMost_iff]
      exact List.le_total a.1 b.1
  have hne := (List.mergeSort_perm ms fun a b => atMost a.1 b.1).symm.pairwise h fun h => h.symm
  refine (hle.and hne).imp fun {a b} h => ?_
  rcases List.le_iff_lt_or_eq.mp (List.not_lt.mp (atMost_iff.mp h.1)) with hlt | he
  · exact hlt
  · exact absurd he h.2

/-- The texts with a common beginning stand together, right behind it. -/
theorem prefix_of_between {s t u : Text} (h : s <+: u) (hst : ¬t < s) (htu : ¬u < t) :
    s <+: t := by
  induction s generalizing t u with
  | nil => exact List.nil_prefix
  | cons c s ih =>
      obtain ⟨v, rfl⟩ := h
      cases t with
      | nil => exact absurd (List.nil_lt_cons c s) hst
      | cons d t =>
          obtain ⟨hdc, hts⟩ := not_or.mp (mt List.cons_lt_cons_iff.mpr hst)
          obtain ⟨hcd, hvt⟩ := not_or.mp (mt List.cons_lt_cons_iff.mpr htu)
          obtain rfl : c = d := Char.le_antisymm (Char.not_lt.mp hdc) (Char.not_lt.mp hcd)
          rw [List.cons_prefix_cons]
          exact ⟨rfl, ih ⟨v, rfl⟩ (fun hlt => hts ⟨rfl, hlt⟩) fun hlt => hvt ⟨rfl, hlt⟩⟩

namespace Utf8

def tailByte (n : Nat) : UInt8 := .ofNat (n % 64 + 128)

section

variable {c : Char}

theorem encodeChar_one (h : c.toNat ≤ 0x7F) : String.utf8EncodeChar c = [.ofNat c.toNat] :=
  if_pos h

theorem encodeChar_two (h : 0x7F < c.toNat) (h' : c.toNat ≤ 0x7FF) :
    String.utf8EncodeChar c = [.ofNat (c.toNat / 64 % 32 + 192), tailByte c.toNat] :=
  (if_neg (Nat.not_le.mpr h)).trans (if_pos h')

theorem encodeChar_three (h : 0x7FF < c.toNat) (h' : c.toNat ≤ 0xFFFF) :
    String.utf8EncodeChar c =
      [.ofNat (c.toNat / 4096 % 16 + 224), tailByte (c.toNat / 64), tailByte c.toNat] := by
  have h₀ : ¬ c.toNat ≤ 0x7F := by omega
  exact (if_neg h₀).trans ((if_neg (Nat.not_le.mpr h)).trans (if_pos h'))

theorem encodeChar_four (h : 0xFFFF < c.toNat) :
    String.utf8EncodeChar c =
      [.ofNat (c.toNat / 262144 % 8 + 240), tailByte (c.toNat / 4096), tailByte (c.toNat / 64),
        tailByte c.toNat] := by
  have h₀ : ¬ c.toNat ≤ 0x7F := by omega
  have h₁ : ¬ c.toNat ≤ 0x7FF := by omega
  exact (if_neg h₀).trans ((if_neg h₁).trans (if_neg (Nat.not_le.mpr h)))

end

theorem encodeChar_cases (c : Char) :
    (c.toNat ≤ 0x7F ∧ String.utf8EncodeChar c = [.ofNat c.toNat]) ∨
    (0x7F < c.toNat ∧ c.toNat ≤ 0x7FF ∧
      String.utf8EncodeChar c = [.ofNat (c.toNat / 64 % 32 + 192), tailByte c.toNat]) ∨
    (0x7FF < c.toNat ∧ c.toNat ≤ 0xFFFF ∧
      String.utf8EncodeChar c =
        [.ofNat (c.toNat / 4096 % 16 + 224), tailByte (c.toNat / 64), tailByte c.toNat]) ∨
    (0xFFFF < c.toNat ∧ c.toNat < 0x110000 ∧
      String.utf8EncodeChar c =
        [.ofNat (c.toNat / 262144 % 8 + 240), tailByte (c.toNat / 4096), tailByte (c.toNat / 64),
          tailByte c.toNat]) := by
  have hmax : c.toNat < 0x110000 := by
    rcases c.valid with h | h <;> simp only [Char.toNat] <;> omega
  rcases Nat.lt_or_ge 0x7F c.toNat with h₁ | h₁
  · right
    rcases Nat.lt_or_ge 0x7FF c.toNat with h₂ | h₂
    · right
      rcases Nat.lt_or_ge 0xFFFF c.toNat with h₃ | h₃
      · exact .inr ⟨h₃, hmax, encodeChar_four h₃⟩
      · exact .inl ⟨h₂, h₃, encodeChar_three h₂ h₃⟩
    · exact .inl ⟨h₁, h₂, encodeChar_two h₁ h₂⟩
  · exact .inl ⟨h₁, encodeChar_one h₁⟩

theorem encodeChar_append_lt {c d : Char} (h : c < d) (s t : Bytes) :
    String.utf8EncodeChar c ++ s < String.utf8EncodeChar d ++ t := by
  have hlt : c.toNat < d.toNat := h
  rcases encodeChar_cases c with ⟨hc, ec⟩ | ⟨hc, hc', ec⟩ | ⟨hc, hc', ec⟩ | ⟨hc, hc', ec⟩ <;>
    rcases encodeChar_cases d with ⟨hd, ed⟩ | ⟨hd, hd', ed⟩ | ⟨hd, hd', ed⟩ | ⟨hd, hd', ed⟩ <;>
    rw [ec, ed] <;>
    simp (disch := omega) only [List.cons_append, List.nil_append, List.cons_lt_cons_iff, tailByte,
      UInt8.lt_iff_toNat_lt, UInt8.toNat_ofNat', ← UInt8.toNat_inj, Nat.mod_eq_of_lt,
      Nat.add_lt_add_iff_right, Nat.add_right_cancel_iff] <;>
    omega

theorem encode_lt_encode {s t : Text} (h : s < t) : encode s < encode t := by
  induction s generalizing t with
  | nil =>
      cases t with
      | nil => exact absurd h (List.not_lt_nil [])
      | cons d t =>
          rw [encode, encode, List.flatMap_nil, List.flatMap_cons]
          cases he : String.utf8EncodeChar d with
          | nil => exact absurd he String.utf8EncodeChar_ne_nil
          | cons b bs => exact List.nil_lt_cons b _
  | cons c s ih =>
      cases t with
      | nil => exact absurd h (List.not_lt_nil _)
      | cons d t =>
          simp only [encode, List.flatMap_cons]
          rcases List.cons_lt_cons_iff.mp h with hcd | ⟨rfl, hst⟩
          · exact encodeChar_append_lt hcd _ _
          · exact List.append_left_lt (ih hst)

end Utf8

end SlowQuery.Text
