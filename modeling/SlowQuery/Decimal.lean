import SlowQuery.Text.Basic

namespace SlowQuery.Decimal

/-- The magnitude `mantissa * 2 ^ scale`. -/
structure Binary where
  mantissa : Nat
  scale : Int
  /-- The neighbour below is half as far away as the neighbour above. -/
  narrow : Bool

def Binary.ofBits (bits : UInt64) : Binary :=
  let e : Nat := (bits >>> 52 &&& 0x7FF).toNat
  let f : Nat := (bits &&& 0xFFFFFFFFFFFFF).toNat
  if e = 0 then ⟨f, -1074, false⟩
  else ⟨0x10000000000000 + f, (e : Int) - 1075, f == 0 && decide (1 < e)⟩

def isNegative (x : Float) : Bool := x.toBits >>> 63 == 1

/-- Powers with a negative exponent count as 1, so that `2 ^ e = pow 2 e / pow 2 (-e)`. -/
def pow (base : Nat) (e : Int) : Nat := Nat.pow base e.toNat

def roundDiv (num den : Nat) : Nat :=
  let n := num / den
  let twice := 2 * (num % den)
  if twice < den ∨ (twice = den ∧ n % 2 = 0) then n else n + 1

def padStart (width : Nat) (fill : Char) (t : Text) : Text :=
  List.replicate (width - t.length) fill ++ t

def setPoint (places n : Nat) : Text :=
  let ds := padStart (places + 1) '0' (Text.ofNat n)
  let whole := ds.take (ds.length - places)
  if places = 0 then whole else whole ++ '.' :: ds.drop (ds.length - places)

def fixed (places : Nat) (x : Float) : Text :=
  if x.isNaN then "NaN".toList
  else
    let b := Binary.ofBits x.toBits
    let magnitude :=
      if x.isInf then "inf".toList
      else
        let units := b.mantissa * pow 2 b.scale * Nat.pow 10 places
        setPoint places (roundDiv units (pow 2 (-b.scale)))
    if isNegative x then '-' :: magnitude else magnitude

/-- The value `digits * 10 ^ exponent`. -/
structure Digits where
  digits : Nat
  exponent : Int

/-- The value and the ends of its interval, as numerators over one denominator. -/
structure Interval where
  low : Nat
  value : Nat
  high : Nat
  den : Nat
  closed : Bool

def Binary.interval (b : Binary) : Interval where
  low := (4 * b.mantissa - if b.narrow then 1 else 2) * pow 2 b.scale
  value := 4 * b.mantissa * pow 2 b.scale
  high := (4 * b.mantissa + 2) * pow 2 b.scale
  den := 4 * pow 2 (-b.scale)
  closed := b.mantissa % 2 == 0

def Interval.has (i : Interval) (d : Digits) : Bool :=
  let x := d.digits * pow 10 d.exponent * i.den
  let low := i.low * pow 10 (-d.exponent)
  let high := i.high * pow 10 (-d.exponent)
  (decide (low < x) && decide (x < high)) || (i.closed && (x == low || x == high))

/-- The least `k` with the value below `10 ^ k`. -/
def Interval.magnitude (i : Interval) : Int :=
  if i.den ≤ i.value then (Nat.toDigits 10 (i.value / i.den)).length
  else
    let l := (Nat.toDigits 10 (i.den / i.value)).length
    if i.value * Nat.pow 10 (l - 1) = i.den then 2 - l else 1 - l

/-- The decimal with the last place `10 ^ e` that reads back, if one of the two nearest to the
value does. -/
def Interval.onGrid? (i : Interval) (e : Int) : Option Digits :=
  let num := i.value * pow 10 (-e)
  let den := i.den * pow 10 e
  let n := num / den
  match i.has ⟨n, e⟩, i.has ⟨n + 1, e⟩ with
  | false, false => none
  | true, false => some ⟨n, e⟩
  | false, true => some ⟨n + 1, e⟩
  | true, true =>
    let twice := 2 * (num % den)
    if twice < den ∨ (twice = den ∧ n % 2 = 0) then some ⟨n, e⟩ else some ⟨n + 1, e⟩

def stripZeros : (fuel : Nat) → Digits → Digits
  | 0, d => d
  | fuel + 1, d => if d.digits % 10 = 0 then stripZeros fuel ⟨d.digits / 10, d.exponent + 1⟩ else d

/-- Seventeen digits always read back. -/
def shortest (b : Binary) : Digits :=
  let i := b.interval
  let found := (List.range 17).findSome? fun (n : Nat) => i.onGrid? (i.magnitude - n - 1)
  stripZeros 17 (found.getD ⟨b.mantissa * pow 2 b.scale, 0⟩)

end SlowQuery.Decimal
