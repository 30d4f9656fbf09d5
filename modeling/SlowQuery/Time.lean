import SlowQuery.Decimal

namespace SlowQuery.Time

open Text

structure Date where
  year : Int
  month : Nat
  day : Nat

def isLeap (year : Int) : Bool := year % 4 = 0 && (year % 100 ≠ 0 || year % 400 = 0)

def monthLength (year : Int) (month : Nat) : Nat :=
  if month = 2 then if isLeap year then 29 else 28
  else if month = 4 ∨ month = 6 ∨ month = 9 ∨ month = 11 then 30
  else 31

def Date.isValid (d : Date) : Bool :=
  1 ≤ d.month && d.month ≤ 12 && 1 ≤ d.day && d.day ≤ monthLength d.year d.month

/-- Years are counted from the first of March, so that a leap day ends its year; 146097 days make
400 years. -/
def Date.toDay (d : Date) : Int :=
  let y := if d.month ≤ 2 then d.year - 1 else d.year
  let month : Int := (d.month + 9) % 12
  y * 365 + y / 4 - y / 100 + y / 400 + (153 * month + 2) / 5 + (d.day - 1) - 719468

def Date.ofDay (day : Int) : Date :=
  let shifted := day + 719468
  let era := shifted / 146097
  let d := shifted % 146097
  let y := (d - d / 1460 + d / 36524 - d / 146096) / 365
  let dayOfYear := d - (365 * y + y / 4 - y / 100)
  let m := (5 * dayOfYear + 2) / 153
  let month := if m < 10 then m + 3 else m - 9
  let year := y + era * 400 + if month ≤ 2 then 1 else 0
  ⟨year, month.toNat, (dayOfYear - (153 * m + 2) / 5 + 1).toNat⟩

structure Instant where
  /-- Since the beginning of day 0 in universal time. -/
  seconds : Int
  /-- From one second on inside a leap second, which counts as part of the second before it. -/
  nanos : Nat
deriving DecidableEq

namespace Instant

def before (a b : Instant) : Bool :=
  a.seconds < b.seconds || (a.seconds = b.seconds && a.nanos < b.nanos)

def earlier (a b : Instant) : Instant := if b.before a then b else a

def later (a b : Instant) : Instant := if a.before b then b else a

end Instant

structure Stamp where
  date : Date
  hour : Nat
  minute : Nat
  second : Nat
  nanos : Nat
  offset : Int

def firstDay : Int := Date.toDay ⟨-262143, 1, 1⟩

def lastDay : Int := Date.toDay ⟨262142, 12, 31⟩

def billion : Nat := 1000000000

/-- Second 60 is a leap second. Days outside of the calendar's range, in either time, give no
instant. -/
def Stamp.instant? (s : Stamp) : Option Instant :=
  let day := s.date.toDay
  let leap := if s.second = 60 then 1 else 0
  let seconds : Int :=
    day * 86400 + s.hour * 3600 + s.minute * 60 + (s.second - leap : Nat) - s.offset * 60
  let inRange (d : Int) : Bool := firstDay ≤ d && d ≤ lastDay
  if s.date.isValid && s.hour < 24 && s.minute < 60 && s.second ≤ 60 && s.offset.natAbs < 24 * 60
      && inRange day && inRange (seconds / 86400) then
    some ⟨seconds, s.nanos + leap * billion⟩
  else none

def number? (least most : Nat) (t : Text) : Option (Nat × Text) :=
  let ds := (t.take most).takeWhile Char.isDigit
  if ds.length < least then none else some (digitsValue ds, t.drop ds.length)

/-- An optional fraction of a second in billionths; digits beyond the ninth are dropped. -/
def fraction? : Text → Option (Nat × Text)
  | '.' :: t =>
    match t.span Char.isDigit with
    | ([], _) => none
    | (ds, t) => some (digitsValue (ds ++ List.replicate (9 - ds.length) '0' |>.take 9), t)
  | t => some (0, t)

def sign? : Text → Option (Int × Text)
  | '+' :: t => some (1, t)
  | '-' :: t => some (-1, t)
  | '\u2212' :: t => some (-1, t)
  | _ => none

/-- An offset in minutes; `separator?` passes what stands between hours and minutes. -/
def offset? (separator? : Text → Option Text) (t : Text) : Option (Int × Text) := do
  let (sign, t) ← sign? t
  let (hours, t) ← number? 2 2 t
  let t ← separator? t
  let (minutes, t) ← number? 2 2 t
  if minutes < 60 then some (sign * (hours * 60 + minutes), t) else none

def timeAndOffset? (least : Nat) (zone? : Text → Option (Int × Text)) (date : Date) (t : Text) :
    Option Stamp := do
  let (hour, t) ← number? least 2 t
  let t ← expect? ':' t
  let (minute, t) ← number? least 2 t
  let t ← expect? ':' t
  let (second, t) ← number? least 2 t
  let (nanos, t) ← fraction? t
  let (offset, t) ← zone? t
  if t = [] then some { date, hour, minute, second, nanos, offset } else none

def strictZone? : Text → Option (Int × Text)
  | 'Z' :: t => some (0, t)
  | 'z' :: t => some (0, t)
  | t => offset? (expect? ':') t

def strictStamp? (t : Text) : Option Stamp := do
  let (year, t) ← number? 4 4 t
  let t ← expect? '-' t
  let (month, t) ← number? 2 2 t
  let t ← expect? '-' t
  let (day, t) ← number? 2 2 t
  match t with
  | c :: t =>
    if c = 'T' ∨ c = 't' ∨ c = ' ' then timeAndOffset? 2 strictZone? ⟨year, month, day⟩ t else none
  | [] => none

def looseYear? : Text → Option (Int × Text)
  | '+' :: t => (number? 1 t.length t).map fun (n, t) => ((n : Int), t)
  | '-' :: t => (number? 1 t.length t).map fun (n, t) => (-(n : Int), t)
  | t => (number? 1 4 t).map fun (n, t) => ((n : Int), t)

def looseZone? (t : Text) : Option (Int × Text) :=
  offset? (fun t => some (t.dropWhile fun c => c = ':' || isBlank c)) t

/-- Fields may be short, and the offset needs no colon. -/
def looseStamp? (t : Text) : Option Stamp := do
  let (year, t) ← looseYear? t
  let t ← expect? '-' t
  let (month, t) ← number? 1 2 t
  let t ← expect? '-' t
  let (day, t) ← number? 1 2 t
  let t ← expect? 'T' t
  timeAndOffset? 1 looseZone? ⟨year, month, day⟩ t

def Instant.read? (t : Text) : Option Instant :=
  ((strictStamp? t).bind Stamp.instant?) <|> ((looseStamp? t).bind Stamp.instant?)

def twoDigits (n : Nat) : Text := Decimal.padStart 2 '0' (ofNat n)

def yearText (year : Int) : Text :=
  let digits := Decimal.padStart 4 '0' (ofNat year.natAbs)
  if year < 0 then '-' :: digits else if 9999 < year then '+' :: digits else digits

/-- Universal time to the millisecond; what is finer is cut off. -/
def Instant.text (i : Instant) : Text :=
  let date := Date.ofDay (i.seconds / 86400)
  let time := (i.seconds % 86400).toNat
  let second := time % 60 + i.nanos / billion
  let millis := i.nanos % billion / 1000000
  yearText date.year ++ '-' :: twoDigits date.month ++ '-' :: twoDigits date.day
    ++ 'T' :: twoDigits (time / 3600) ++ ':' :: twoDigits (time / 60 % 60)
    ++ ':' :: twoDigits second ++ '.' :: Decimal.padStart 3 '0' (ofNat millis) ++ ['Z']

end SlowQuery.Time
