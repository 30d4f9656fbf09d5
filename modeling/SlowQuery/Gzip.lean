import SlowQuery.Bytes

namespace SlowQuery.Gzip

inductive Fault where
  | cut
  | malformed
deriving DecidableEq

structure Bits where
  /-- What is left of the byte that was begun. -/
  held : Nat
  count : Nat
  rest : Bytes

namespace Bits

def ofBytes (bs : Bytes) : Bits := ⟨0, 0, bs⟩

def size (s : Bits) : Nat := s.count + 8 * s.rest.length

def bit (s : Bits) : Except Fault (Nat × Bits) :=
  match s.count, s.rest with
  | n + 1, rest => .ok (s.held % 2, ⟨s.held / 2, n, rest⟩)
  | 0, [] => .error .cut
  | 0, b :: rest => .ok (b.toNat % 2, ⟨b.toNat / 2, 7, rest⟩)

def number : (n : Nat) → Bits → Except Fault (Nat × Bits)
  | 0, s => .ok (0, s)
  | n + 1, s => do
    let (b, s) ← s.bit
    let (v, s) ← number n s
    pure (b + 2 * v, s)

/-- The bytes from the next byte boundary on. -/
def aligned (s : Bits) : Bytes := s.rest

end Bits

structure Code where
  /-- How many symbols have a code of 1, 2, ... 15 bits. -/
  counts : List Nat
  /-- The symbols in the order of their codes. -/
  symbols : Array Nat

namespace Code

def maxLength : Nat := 15

def symbolsOfLength (lengths : List Nat) (n : Nat) : List Nat :=
  (lengths.zipIdx.filter (·.1 = n)).map (·.2)

/-- The part of all words of 16 bits that codes of these counts take up. -/
def covered (counts : List Nat) : Nat := counts.foldl (fun total n => 2 * (total + n)) 0

/-- From the code length of each symbol, 0 for none. The codes must fill the space of words
exactly, unless there is at most one of them. -/
def ofLengths (lengths : List Nat) : Except Fault Code :=
  let sizes := (List.range maxLength).map (· + 1)
  let groups := sizes.map (symbolsOfLength lengths)
  let counts := groups.map List.length
  if covered counts ≠ UInt16.size ∧ 1 < groups.flatten.length then .error .malformed
  else .ok ⟨counts, groups.flatten.toArray⟩

def fullOfLengths (lengths : List Nat) : Except Fault Code := do
  let code ← ofLengths lengths
  if covered code.counts = UInt16.size then pure code else .error .malformed

/-- `word` are the bits so far, `first` is the first code of this length and `index` the place of
its symbol. -/
def symbolFrom (symbols : Array Nat) :
    (counts : List Nat) → (word first index : Nat) → Bits → Except Fault (Nat × Bits)
  | [], _, _, _, _ => .error .malformed
  | n :: counts, word, first, index, s => do
    let (b, s) ← s.bit
    let word := 2 * word + b
    if word < first + n then
      match symbols[index + (word - first)]? with
      | some symbol => pure (symbol, s)
      | none => .error .malformed
    else symbolFrom symbols counts word (2 * (first + n)) (index + n) s

def symbol (c : Code) (s : Bits) : Except Fault (Nat × Bits) :=
  symbolFrom c.symbols c.counts 0 0 0 s

end Code

def lengthTable : List (Nat × Nat) :=
  [(3, 0), (4, 0), (5, 0), (6, 0), (7, 0), (8, 0), (9, 0), (10, 0), (11, 1), (13, 1), (15, 1),
   (17, 1), (19, 2), (23, 2), (27, 2), (31, 2), (35, 3), (43, 3), (51, 3), (59, 3), (67, 4),
   (83, 4), (99, 4), (115, 4), (131, 5), (163, 5), (195, 5), (227, 5), (258, 0)]

def distanceTable : List (Nat × Nat) :=
  [(1, 0), (2, 0), (3, 0), (4, 0), (5, 1), (7, 1), (9, 2), (13, 2), (17, 3), (25, 3), (33, 4),
   (49, 4), (65, 5), (97, 5), (129, 6), (193, 6), (257, 7), (385, 7), (513, 8), (769, 8),
   (1025, 9), (1537, 9), (2049, 10), (3073, 10), (4097, 11), (6145, 11), (8193, 12), (12289, 12),
   (16385, 13), (24577, 13)]

def lengthOrder : List Nat := [16, 17, 18, 0, 8, 7, 9, 6, 10, 5, 11, 4, 12, 3, 13, 2, 14, 1, 15]

def fixedLengths : List Nat :=
  List.replicate 144 8 ++ List.replicate 112 9 ++ List.replicate 24 7 ++ List.replicate 8 8

structure Codes where
  literals : Code
  distances : Code

def fixedCodes : Except Fault Codes := do
  pure ⟨← Code.ofLengths fixedLengths, ← Code.ofLengths (List.replicate 32 5)⟩

def extended (table : List (Nat × Nat)) (symbol : Nat) (s : Bits) : Except Fault (Nat × Bits) :=
  match table[symbol]? with
  | none => .error .malformed
  | some (base, extra) => do
    let (more, s) ← s.number extra
    pure (base + more, s)

/-- Copies byte for byte, so that a copy may run into itself. Zeros stand before the start of the
output. -/
def copyBack (distance : Nat) : (length : Nat) → Array UInt8 → Array UInt8
  | 0, out => out
  | n + 1, out =>
    let b := if distance ≤ out.size then out.getD (out.size - distance) 0 else 0
    copyBack distance n (out.push b)

/-- The contents of a block up to its end mark. Every symbol takes at least one bit. -/
def contents (codes : Codes) : (fuel : Nat) → Array UInt8 → Bits → Except Fault (Array UInt8 × Bits)
  | 0, _, _ => .error .cut
  | fuel + 1, out, s => do
    let (symbol, s) ← codes.literals.symbol s
    if symbol < 256 then contents codes fuel (out.push (UInt8.ofNat symbol)) s
    else if symbol = 256 then pure (out, s)
    else
      let (length, s) ← extended lengthTable (symbol - 257) s
      let (d, s) ← codes.distances.symbol s
      let (distance, s) ← extended distanceTable d s
      contents codes fuel (copyBack distance length out) s

def sentLengths : (order : List Nat) → Bits → Except Fault (List (Nat × Nat) × Bits)
  | [], s => .ok ([], s)
  | symbol :: order, s => do
    let (n, s) ← s.number 3
    let (rest, s) ← sentLengths order s
    pure ((symbol, n) :: rest, s)

/-- Code lengths, where symbols from 16 on repeat the last length or zero. -/
def codeLengths (code : Code) (wanted : Nat) :
    (fuel : Nat) → Array Nat → Bits → Except Fault (Array Nat × Bits)
  | 0, _, _ => .error .malformed
  | fuel + 1, got, s =>
    if wanted < got.size then .error .malformed
    else if got.size = wanted then .ok (got, s)
    else do
      let (symbol, s) ← code.symbol s
      if symbol < 16 then codeLengths code wanted fuel (got.push symbol) s
      else
        let repeated (value base extra : Nat) : Except Fault (Array Nat × Bits) := do
          let (more, s) ← s.number extra
          codeLengths code wanted fuel (got ++ Array.replicate (base + more) value) s
        if symbol = 16 then
          match got.back? with
          | none => .error .malformed
          | some last => repeated last 3 2
        else if symbol = 17 then repeated 0 3 3
        else repeated 0 11 7

def sentCodes (s : Bits) : Except Fault (Codes × Bits) := do
  let (l, s) ← s.number 5
  let (d, s) ← s.number 5
  let (n, s) ← s.number 4
  let literals := l + 257
  let distances := d + 1
  if 286 < literals ∨ 30 < distances then .error .malformed
  else
    let (sent, s) ← sentLengths (lengthOrder.take (n + 4)) s
    let code ← Code.fullOfLengths ((List.range 19).map fun symbol => (sent.lookup symbol).getD 0)
    let (lengths, s) ← codeLengths code (literals + distances) (literals + distances + 1) #[] s
    let distanceCode ← Code.ofLengths (lengths.toList.drop literals)
    let literalCode ← Code.ofLengths (lengths.toList.take literals)
    pure (⟨literalCode, distanceCode⟩, s)

/-- A block of stored bytes begins at a byte boundary with its length and the complement of its
length. -/
def stored (out : Array UInt8) (s : Bits) : Except Fault (Array UInt8 × Bits) :=
  match Bytes.split? 4 s.aligned with
  | none => .error .cut
  | some (header, bs) =>
    let length := Bytes.toNat (header.take 2)
    if length + Bytes.toNat (header.drop 2) ≠ 65535 then .error .malformed
    else
      match Bytes.split? length bs with
      | none => .error .cut
      | some (front, bs) => .ok (out ++ front.toArray, .ofBytes bs)

def blocks : (fuel : Nat) → Array UInt8 → Bits → Except Fault (Array UInt8 × Bits)
  | 0, _, _ => .error .cut
  | fuel + 1, out, s => do
    let (last, s) ← s.number 1
    let (kind, s) ← s.number 2
    let (out, s) ←
      if kind = 0 then stored out s
      else if kind = 1 then do contents (← fixedCodes) (s.size + 1) out s
      else if kind = 2 then do
        let (codes, s) ← sentCodes s
        contents codes (s.size + 1) out s
      else .error .malformed
    if last = 1 then pure (out, s) else blocks fuel out s

/-- The bytes that compressed data stand for, and the bytes behind the data. -/
def inflate (bs : Bytes) : Except Fault (Array UInt8 × Bytes) := do
  let s := Bits.ofBytes bs
  let (out, s) ← blocks (s.size + 1) #[] s
  pure (out, s.aligned)

def polynomial : UInt32 := 0xEDB88320

def shiftBit (r : UInt32) : UInt32 := if r % 2 = 1 then (r >>> 1) ^^^ polynomial else r >>> 1

def shiftByte (r : UInt32) : UInt32 :=
  shiftBit (shiftBit (shiftBit (shiftBit (shiftBit (shiftBit (shiftBit (shiftBit r)))))))

def updateCheck (r : UInt32) (b : UInt8) : UInt32 := shiftByte (r ^^^ b.toUInt32)

def checksum (bs : Bytes) : UInt32 := bs.foldl updateCheck 0xFFFFFFFF ^^^ 0xFFFFFFFF

def isCompressed : Bytes → Bool
  | 0x1F :: 0x8B :: _ => true
  | _ => false

def front (n : Nat) (bs : Bytes) : Except Fault (Bytes × Bytes) :=
  match Bytes.split? n bs with
  | none => .error .cut
  | some parts => .ok parts

def maxName : Nat := 65535

def zeroEnded (bs : Bytes) : Except Fault (Bytes × Bytes) :=
  match bs.span (· ≠ 0) with
  | (name, zero :: rest) =>
    if maxName < name.length then .error .malformed else .ok (name ++ [zero], rest)
  | (name, []) => if maxName < name.length then .error .malformed else .error .cut

def whenSet (flags bit : UInt8) (field : Bytes → Except Fault (Bytes × Bytes)) (bs : Bytes) :
    Except Fault (Bytes × Bytes) :=
  if flags &&& bit ≠ 0 then field bs else .ok ([], bs)

def extraField (bs : Bytes) : Except Fault (Bytes × Bytes) := do
  let (size, bs) ← front 2 bs
  let (data, bs) ← front (Bytes.toNat size) bs
  pure (size ++ data, bs)

def header (bs : Bytes) : Except Fault Bytes := do
  let (start, bs) ← front 10 bs
  match start with
  | 0x1F :: 0x8B :: 8 :: flags :: _ =>
    if flags &&& 0xE0 ≠ 0 then .error .malformed
    else
      let (extra, bs) ← whenSet flags 4 extraField bs
      let (name, bs) ← whenSet flags 8 zeroEnded bs
      let (comment, bs) ← whenSet flags 16 zeroEnded bs
      let (check, bs) ← whenSet flags 2 (front 2) bs
      let sum := (checksum (start ++ extra ++ name ++ comment)).toNat % UInt16.size
      if flags &&& 2 ≠ 0 ∧ Bytes.toNat check ≠ sum then .error .malformed else pure bs
  | _ => .error .malformed

def member (bs : Bytes) : Except Fault (Bytes × Bytes) := do
  let bs ← header bs
  let (out, bs) ← inflate bs
  let (trailer, bs) ← front 8 bs
  let contents := out.toList
  let sum := (checksum contents).toNat
  let size := contents.length % UInt32.size
  if Bytes.toNat (trailer.take 4) = sum ∧ Bytes.toNat (trailer.drop 4) = size then
    pure (contents, bs)
  else .error .malformed

/-- The contents of all members in a row. A member takes more than one byte, which bounds the
fuel. -/
def members : (fuel : Nat) → Bytes → Except Fault Bytes
  | 0, _ => .error .cut
  | fuel + 1, bs => do
    let (contents, rest) ← member bs
    if rest = [] then pure contents else pure (contents ++ (← members fuel rest))

def decompress (bs : Bytes) : Except Fault Bytes := members (bs.length + 1) bs

end SlowQuery.Gzip
