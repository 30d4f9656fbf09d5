import SlowQuery.Decimal

namespace SlowQuery

inductive Json where
  | null
  | bool (value : Bool)
  | integer (n : Int)
  | real (x : Float)
  | string (t : Text)
  | array (items : List Json)
  | object (members : List (Text × Json))

namespace Json

open Text

instance : Inhabited Json := ⟨.null⟩

/-- Puts a member in its place, over an earlier one of the same name. -/
def insertMember (name : Text) (v : Json) : List (Text × Json) → List (Text × Json)
  | [] => [(name, v)]
  | (k, w) :: ms =>
    if name = k then (name, v) :: ms
    else if name < k then (name, v) :: (k, w) :: ms
    else (k, w) :: insertMember name v ms

def ofMembers (ms : List (Text × Json)) : Json :=
  .object (ms.foldl (fun acc (name, v) => insertMember name v acc) [])

def member? (name : Text) : Json → Option Json
  | .object ms => ms.lookup name
  | _ => none

def asString? : Json → Option Text
  | .string t => some t
  | _ => none

/-- A number cut into its parts; the fraction is none where there is no point. -/
structure Numeral where
  negative : Bool
  whole : Text
  fraction : Option Text
  /-- Whether the exponent is negative, and its digits. -/
  exponent : Option (Bool × Text)

def isDigit (c : Char) : Bool := '0' ≤ c && c ≤ '9'

def digits? (t : Text) : Option (Text × Text) :=
  match t.span isDigit with
  | ([], _) => none
  | run => some run

def whole? : Text → Option (Text × Text)
  | '0' :: t => if t.head?.any isDigit then none else some (['0'], t)
  | t => digits? t

def fraction? : Text → Option (Option Text × Text)
  | '.' :: t => (digits? t).map fun (ds, r) => (some ds, r)
  | t => some (none, t)

def exponentDigits? (negative : Bool) (t : Text) : Option (Option (Bool × Text)) :=
  match digits? t with
  | some (ds, []) => some (some (negative, ds))
  | _ => none

def exponent? : Text → Option (Option (Bool × Text))
  | [] => some none
  | e :: t =>
    if e = 'e' || e = 'E' then
      match t with
      | '+' :: t => exponentDigits? false t
      | '-' :: t => exponentDigits? true t
      | t => exponentDigits? false t
    else none

def Numeral.read? (t : Text) : Option Numeral := do
  let (negative, t) := match t with
    | '-' :: t => (true, t)
    | t => (false, t)
  let (whole, t) ← whole? t
  let (fraction, t) ← fraction? t
  let exponent ← exponent? t
  pure ⟨negative, whole, fraction, exponent⟩

/-- Appends digits to a significand as long as it fits in 64 bits; also gives the digits that are
left. -/
def extend : Nat → Text → Nat × Text
  | n, [] => (n, [])
  | n, c :: t =>
    let n' := 10 * n + digitValue c
    if n' < UInt64.size then extend n' t else (n, c :: t)

def tenTo (e : Nat) : Float := Float.ofScientific 1 false e

/-- A significand times a power of ten; none beyond the floating range. -/
def scale? (significand : Nat) (e : Int) : Option Float :=
  let f := significand.toFloat
  if significand = 0 then some f
  else if 308 < e then none
  else if 0 ≤ e then
    let x := f * tenTo e.toNat
    if x.isInf then none else some x
  else if -308 ≤ e then some (f / tenTo (-e).toNat)
  else if -616 ≤ e then some (f / tenTo 308 / tenTo (-e - 308).toNat)
  else some 0

def negateIf (negative : Bool) (x : Float) : Float := if negative then -x else x

/-- Digits that no longer fit count as zeros before the point and not at all behind it. -/
def Numeral.real? (n : Numeral) : Option Float :=
  let (significand, dropped) := extend 0 n.whole
  let (significand, rest) := extend significand (n.fraction.getD [])
  let kept := (n.fraction.getD []).length - rest.length
  let exponent : Int := match n.exponent with
    | none => 0
    | some (negative, ds) => if negative then -(digitsValue ds : Int) else digitsValue ds
  (scale? significand (dropped.length - kept + exponent)).map (negateIf n.negative)

def Numeral.toJson? (n : Numeral) : Option Json :=
  let whole := digitsValue n.whole
  if n.fraction.isSome || n.exponent.isSome then n.real?.map .real
  else if n.negative then
    if 0 < whole ∧ whole ≤ 9223372036854775808 then some (.integer (-whole)) else n.real?.map .real
  else if whole < UInt64.size then some (.integer whole)
  else n.real?.map .real

def number? (t : Text) : Option Json := do (← Numeral.read? t).toJson?

/-- Exponents of the leading digit that are written with a point and no exponent. -/
def positionalFrom : Int := -5

def positionalBelow : Int := 16

def layout (d : Decimal.Digits) : Text :=
  let ds := ofNat d.digits
  let lead := d.exponent + ds.length - 1
  if positionalFrom ≤ lead ∧ lead < positionalBelow then
    if 0 ≤ d.exponent then ds ++ List.replicate d.exponent.toNat '0' ++ ".0".toList
    else Decimal.setPoint (-d.exponent).toNat d.digits
  else
    let point := if ds.length = 1 then [] else ['.']
    let sign := if 0 ≤ lead then '+' else '-'
    ds.take 1 ++ point ++ ds.drop 1 ++ 'e' :: sign :: ofNat lead.natAbs

/-- The fewest digits that read back; what is not finite is written as null. -/
def realText (x : Float) : Text :=
  if x.isNaN || x.isInf then "null".toList
  else
    let b := Decimal.Binary.ofBits x.toBits
    let magnitude := if b.mantissa = 0 then "0.0".toList else layout (Decimal.shortest b)
    if Decimal.isNegative x then '-' :: magnitude else magnitude

def integerText (n : Int) : Text := if n < 0 then '-' :: ofNat n.natAbs else ofNat n.natAbs

def escape (c : Char) : Text :=
  if c = '"' then ['\\', '"']
  else if c = '\\' then ['\\', '\\']
  else if c = '\x08' then ['\\', 'b']
  else if c = '\x0c' then ['\\', 'f']
  else if c = '\n' then ['\\', 'n']
  else if c = '\r' then ['\\', 'r']
  else if c = '\t' then ['\\', 't']
  else if c.toNat < 0x20 then "\\u00".toList ++ Decimal.padStart 2 '0' (Nat.toDigits 16 c.toNat)
  else [c]

def stringText (t : Text) : Text := '"' :: t.flatMap escape ++ ['"']

mutual

def compact : Json → Text
  | .null => "null".toList
  | .bool true => "true".toList
  | .bool false => "false".toList
  | .integer n => integerText n
  | .real x => realText x
  | .string t => stringText t
  | .array vs => '[' :: compactItems vs ++ [']']
  | .object ms => '{' :: compactMembers ms ++ ['}']

def compactItems : List Json → Text
  | [] => []
  | [v] => compact v
  | v :: vs => compact v ++ ',' :: compactItems vs

def compactMembers : List (Text × Json) → Text
  | [] => []
  | [(k, v)] => stringText k ++ ':' :: compact v
  | (k, v) :: ms => stringText k ++ ':' :: (compact v ++ ',' :: compactMembers ms)

end

def newline (level : Nat) : Text := '\n' :: List.replicate (2 * level) ' '

mutual

def pretty (level : Nat) : Json → Text
  | .array [] => "[]".toList
  | .object [] => ['{', '}']
  | .array vs => '[' :: prettyItems (level + 1) vs ++ newline level ++ [']']
  | .object ms => '{' :: prettyMembers (level + 1) ms ++ newline level ++ ['}']
  | .null => "null".toList
  | .bool true => "true".toList
  | .bool false => "false".toList
  | .integer n => integerText n
  | .real x => realText x
  | .string t => stringText t

def prettyItems (level : Nat) : List Json → Text
  | [] => []
  | [v] => newline level ++ pretty level v
  | v :: vs => newline level ++ pretty level v ++ ',' :: prettyItems level vs

def prettyMembers (level : Nat) : List (Text × Json) → Text
  | [] => []
  | [(k, v)] => newline level ++ stringText k ++ ':' :: ' ' :: pretty level v
  | (k, v) :: ms =>
    newline level ++ stringText k ++ ':' :: ' ' :: (pretty level v ++ ',' :: prettyMembers level ms)

end

end Json

end SlowQuery
