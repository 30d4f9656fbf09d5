import SlowQuery.Text.Basic

namespace SlowQuery

abbrev Bytes := List UInt8

namespace Bytes

def ofNat : (width : Nat) → Nat → Bytes
  | 0, _ => []
  | w + 1, n => UInt8.ofNat (n % 256) :: ofNat w (n / 256)

def toNat : Bytes → Nat
  | [] => 0
  | b :: bs => b.toNat + 256 * toNat bs

def split? (n : Nat) (bs : Bytes) : Option (Bytes × Bytes) :=
  let (front, rest) := bs.splitAt n
  if front.length = n then some (front, rest) else none

/-- Cuts bytes into pieces of `size`, the last of which may be shorter; pieces of no size are one
piece. -/
def pieces (size : Nat) (bs : Bytes) : List Bytes :=
  if size = 0 ∨ bs.length ≤ size then [bs] else bs.take size :: pieces size (bs.drop size)
termination_by bs.length
decreasing_by
  rw [List.length_drop]
  omega

end Bytes

end SlowQuery

namespace SlowQuery.Text.Utf8

def encode (t : Text) : Bytes := t.flatMap String.utf8EncodeChar

/-- One character read from the front of some bytes. Where there is none, the longest beginning of a
character has a width, or the bytes ran out inside of it. -/
inductive Step where
  | char (c : Char) (width : Nat)
  | invalid (width : Nat)
  | cut

def isTail (b : UInt8) : Bool := 0x80 ≤ b && b ≤ 0xBF

/-- The bytes that may follow a lead byte, and the number of bytes of its character. -/
def lead? (b : UInt8) : Option (UInt8 × UInt8 × Nat) :=
  if b < 0x80 then some (0, 0, 1)
  else if 0xC2 ≤ b && b ≤ 0xDF then some (0x80, 0xBF, 2)
  else if b = 0xE0 then some (0xA0, 0xBF, 3)
  else if b = 0xED then some (0x80, 0x9F, 3)
  else if 0xE1 ≤ b && b ≤ 0xEF then some (0x80, 0xBF, 3)
  else if b = 0xF0 then some (0x90, 0xBF, 4)
  else if 0xF1 ≤ b && b ≤ 0xF3 then some (0x80, 0xBF, 4)
  else if b = 0xF4 then some (0x80, 0x8F, 4)
  else none

def payloadBits (b : UInt8) : Nat := b.toNat % 64

/-- Reads the `more` tail bytes of a character whose first `seen` bytes gave the value `n`. -/
def tails : (more seen n : Nat) → Bytes → Step
  | 0, seen, n, _ => .char (Char.ofNat n) seen
  | _ + 1, _, _, [] => .cut
  | more + 1, seen, n, b :: bs =>
    if isTail b then tails more (seen + 1) (64 * n + payloadBits b) bs else .invalid seen

def step (b : UInt8) (bs : Bytes) : Step :=
  match lead? b with
  | none => .invalid 1
  | some (_, _, 1) => .char (Char.ofNat b.toNat) 1
  | some (lo, hi, width) =>
    match bs with
    | [] => .cut
    | b₁ :: bs =>
      if lo ≤ b₁ && b₁ ≤ hi then
        tails (width - 2) 2 (64 * (b.toNat % (128 >>> width)) + payloadBits b₁) bs
      else .invalid 1

inductive Fault where
  | invalid (width index : Nat)
  | cut (index : Nat)

def Fault.message : Fault → Text
  | .invalid width index =>
    "invalid utf-8 sequence of ".toList ++ ofNat width ++ " bytes from index ".toList ++ ofNat index
  | .cut index => "incomplete utf-8 byte sequence from index ".toList ++ ofNat index

/-- Reads from byte `index` on; `skip` counts the bytes of the last character that are still to be
passed. -/
def decodeFrom : (index skip : Nat) → Bytes → Except Fault Text
  | _, _, [] => .ok []
  | i, k + 1, _ :: bs => decodeFrom (i + 1) k bs
  | i, 0, b :: bs =>
    match step b bs with
    | .char c width => (decodeFrom (i + 1) (width - 1) bs).map (c :: ·)
    | .invalid width => .error (.invalid width i)
    | .cut => .error (.cut i)

def decode (bs : Bytes) : Except Fault Text := decodeFrom 0 0 bs

/-- Reads bytes that may be ill-formed; each longest beginning of a character becomes a replacement
mark. -/
def lossyFrom : (skip : Nat) → Bytes → Text
  | _, [] => []
  | k + 1, _ :: bs => lossyFrom k bs
  | 0, b :: bs =>
    match step b bs with
    | .char c width => c :: lossyFrom (width - 1) bs
    | .invalid width => '\uFFFD' :: lossyFrom (width - 1) bs
    | .cut => ['\uFFFD']

def decodeLossy (bs : Bytes) : Text := lossyFrom 0 bs

end SlowQuery.Text.Utf8
