namespace SlowQuery

abbrev Text := List Char

namespace Text

def byteLength : Text → Nat
  | [] => 0
  | c :: t => c.utf8Size + byteLength t

/-- The text from a byte offset on; none past the end or inside a character. -/
def fromByte? : Nat → Text → Option Text
  | 0, t => some t
  | _ + 1, [] => none
  | n + 1, c :: t => if c.utf8Size ≤ n + 1 then fromByte? (n + 1 - c.utf8Size) t else none

def startsWith (p t : Text) : Bool := p.isPrefixOf t

def endsWith (s t : Text) : Bool := s.isSuffixOf t

def after? (marker : Text) : Text → Option Text
  | [] => if marker.isEmpty then some [] else none
  | c :: t =>
    if startsWith marker (c :: t) then some ((c :: t).drop marker.length) else after? marker t

def position? (marker : Text) : Text → Option Nat
  | [] => if marker.isEmpty then some 0 else none
  | c :: t => if startsWith marker (c :: t) then some 0 else (position? marker t).map (· + 1)

def contains (marker t : Text) : Bool := (after? marker t).isSome

def expect? (c : Char) : Text → Option Text
  | [] => none
  | d :: t => if d = c then some t else none

def splitAt? (sep : Char) : Text → Option (Text × Text)
  | [] => none
  | c :: t => if c = sep then some ([], t) else (splitAt? sep t).map fun (l, r) => (c :: l, r)

/-- The number first counts the characters of a replaced occurrence that are still to be passed. -/
def replaceFrom (old new : Text) : Nat → Text → Text
  | _, [] => []
  | k + 1, _ :: t => replaceFrom old new k t
  | 0, c :: t =>
    if startsWith old (c :: t) then new ++ replaceFrom old new (old.length - 1) t
    else c :: replaceFrom old new 0 t

/-- Replaces every occurrence of a non-empty text, from the left and without overlap. -/
def replace (old new t : Text) : Text := replaceFrom old new 0 t

def trimEndBy (p : Char → Bool) (t : Text) : Text := (t.reverse.dropWhile p).reverse

def trimBy (p : Char → Bool) (t : Text) : Text := trimEndBy p (t.dropWhile p)

def joinWith (sep : Text) (ts : List Text) : Text := List.intercalate sep ts

def ofNat (n : Nat) : Text := Nat.toDigits 10 n

def digitValue (c : Char) : Nat := c.toNat - '0'.toNat

def digitsValue (t : Text) : Nat := t.foldl (fun n c => 10 * n + digitValue c) 0

/-- Alphabetical order, which is also the byte order of the UTF-8 forms. -/
def atMost (s t : Text) : Bool := !decide (t < s)

abbrev Ranges := List (Nat × Nat)

def Ranges.has : Ranges → Nat → Bool
  | [], _ => false
  | (lo, hi) :: rs, n => decide (lo ≤ n) && (decide (n ≤ hi) || Ranges.has rs n)

def blankRanges : Ranges :=
  [(0x09, 0x0D), (0x20, 0x20), (0x85, 0x85), (0xA0, 0xA0), (0x1680, 0x1680), (0x2000, 0x200A),
   (0x2028, 0x2029), (0x202F, 0x202F), (0x205F, 0x205F), (0x3000, 0x3000)]

def isBlank (c : Char) : Bool := blankRanges.has c.toNat

def dropBlank (t : Text) : Text := t.dropWhile isBlank

def trimEnd (t : Text) : Text := trimEndBy isBlank t

def trim (t : Text) : Text := trimBy isBlank t

def solid? (t : Text) : Option (Text × Text) :=
  match t.span (fun c => !isBlank c) with
  | ([], _) => none
  | run => some run

def gap? (t : Text) : Option Text :=
  match t with
  | c :: r => if isBlank c then some (dropBlank r) else none
  | [] => none

def decimalDigitRanges : Ranges :=
  [(0x30, 0x39), (0x660, 0x669), (0x6F0, 0x6F9), (0x7C0, 0x7C9), (0x966, 0x96F), (0x9E6, 0x9EF),
   (0xA66, 0xA6F), (0xAE6, 0xAEF), (0xB66, 0xB6F), (0xBE6, 0xBEF), (0xC66, 0xC6F), (0xCE6, 0xCEF),
   (0xD66, 0xD6F), (0xDE6, 0xDEF), (0xE50, 0xE59), (0xED0, 0xED9), (0xF20, 0xF29),
   (0x1040, 0x1049), (0x1090, 0x1099), (0x17E0, 0x17E9), (0x1810, 0x1819), (0x1946, 0x194F),
   (0x19D0, 0x19D9), (0x1A80, 0x1A89), (0x1A90, 0x1A99), (0x1B50, 0x1B59), (0x1BB0, 0x1BB9),
   (0x1C40, 0x1C49), (0x1C50, 0x1C59), (0xA620, 0xA629), (0xA8D0, 0xA8D9), (0xA900, 0xA909),
   (0xA9D0, 0xA9D9), (0xA9F0, 0xA9F9), (0xAA50, 0xAA59), (0xABF0, 0xABF9), (0xFF10, 0xFF19),
   (0x104A0, 0x104A9), (0x10D30, 0x10D39), (0x10D40, 0x10D49), (0x11066, 0x1106F),
   (0x110F0, 0x110F9), (0x11136, 0x1113F), (0x111D0, 0x111D9), (0x112F0, 0x112F9),
   (0x11450, 0x11459), (0x114D0, 0x114D9), (0x11650, 0x11659), (0x116C0, 0x116C9),
   (0x116D0, 0x116E3), (0x11730, 0x11739), (0x118E0, 0x118E9), (0x11950, 0x11959),
   (0x11BF0, 0x11BF9), (0x11C50, 0x11C59), (0x11D50, 0x11D59), (0x11DA0, 0x11DA9),
   (0x11F50, 0x11F59), (0x16130, 0x16139), (0x16A60, 0x16A69), (0x16AC0, 0x16AC9),
   (0x16B50, 0x16B59), (0x16D70, 0x16D79), (0x1CCF0, 0x1CCF9), (0x1D7CE, 0x1D7FF),
   (0x1E140, 0x1E149), (0x1E2F0, 0x1E2F9), (0x1E4F0, 0x1E4F9), (0x1E5F1, 0x1E5FA),
   (0x1E950, 0x1E959), (0x1FBF0, 0x1FBF9)]

def isDecimalDigit (c : Char) : Bool := decimalDigitRanges.has c.toNat

end Text

end SlowQuery
