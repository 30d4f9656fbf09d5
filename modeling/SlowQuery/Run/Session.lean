import SlowQuery.Shape.Table

namespace SlowQuery.Run

open Text Payload

structure SlowOp where
  millis : UInt64
  line : Text
deriving DecidableEq

structure SlowList where
  capacity : UInt64
  entries : List SlowOp := []

namespace SlowList

def defaultCapacity : UInt64 := 10

def empty (capacity : UInt64) : SlowList := { capacity }

/-- Whether the list is full of operations that took at least as long. -/
def refuses (l : SlowList) (millis : UInt64) : Bool :=
  decide (l.capacity.toNat ≤ l.entries.length) && l.entries.getLast?.any (millis ≤ ·.millis)

/-- Equal durations stay in order of arrival. -/
def add (l : SlowList) (millis : UInt64) (line : Text) : SlowList :=
  if l.capacity = 0 ∨ l.refuses millis then l
  else
    let held : List SlowOp := l.entries ++ [⟨millis, line⟩]
    { l with entries := (held.mergeSort fun a b => b.millis ≤ a.millis).take l.capacity.toNat }

end SlowList

structure Session where
  dbLines : List Text := []
  /-- The startup options, as indented JSON where they can be read. -/
  configOptions : Option Text := none
  dbPath : Option Text := none
deriving DecidableEq

structure Summary where
  totalLines : UInt64 := 0
  matchedLines : UInt64 := 0
  aggregatedLines : UInt64 := 0
  skippedLines : UInt64 := 0
  startDate : Option Text := none
  endDate : Option Text := none
deriving DecidableEq

structure Result where
  shapes : List Shape.Stats := []
  slowOps : List SlowOp := []
  session : Session := {}
  summary : Summary := {}
deriving DecidableEq

structure Options where
  collscanOnly : Bool := false
  verbose : Bool := false

structure ControlRecord where
  topic : Text
  message : Text

def controlMarker : Text := " CONTROL".toList

/-- The severity is one character or missing. -/
def severity? (t : Text) : Option Text :=
  if startsWith controlMarker t then some t
  else match t with
    | [] => none
    | c :: t => if c ≠ '\n' && startsWith controlMarker t then some t else none

def topic? (t : Text) : Option (Text × Text) := do
  let (word, t) ← word? t
  match t with
  | ':' :: t => some (word ++ [':'], t)
  | t => some (word, t)

def ControlRecord.read? (line : Text) : Option ControlRecord := do
  let (_, t) ← solid? line
  let t ← expect? ' ' t
  let t ← severity? t
  let t ← gap? (t.drop controlMarker.length)
  let t ← expect? '[' t
  let (_, t) ← word? t
  let t ← expect? ']' t
  let t ← expect? ' ' t
  let (topic, t) ← topic? t
  let message ← expect? ' ' t
  if '\n' ∈ message then none else some ⟨topic, message⟩

namespace Session

def withOptions (s : Session) (raw : Text) : Session :=
  match parse raw with
  | .error _ => { s with configOptions := some raw }
  | .ok document =>
    let json := document.toJson
    let path := do (← (← json.member? "storage".toList).member? "dbPath".toList).asString?
    { s with configOptions := some (json.pretty 0), dbPath := path }

/-- Takes in one line; the flag tells that it held the startup options, which end the reading. -/
def step (s : Session) (line : Text) : Session × Bool :=
  match ControlRecord.read? line with
  | none => (s, false)
  | some r =>
    if r.topic = "options:".toList then (s.withOptions r.message, true)
    else if r.topic = "db".toList then
      ({ s with dbLines := s.dbLines ++ ["db ".toList ++ r.message] }, false)
    else (s, false)

def gatherFrom {ε : Type} (s : Session) : List (Except ε Text) → Except ε Session
  | [] => .ok s
  | .error e :: _ => .error e
  | .ok line :: lines =>
    match s.step line with
    | (s, true) => .ok s
    | (s, false) => gatherFrom s lines

/-- Reads lines, each of which may fail to arrive, up to the record of the startup options. -/
def gather {ε : Type} (lines : List (Except ε Text)) : Except ε Session := gatherFrom {} lines

def ofLines (lines : List Text) : Session :=
  match gather (ε := Empty) (lines.map .ok) with
  | .ok s => s

def isEmpty (s : Session) : Bool := s.dbLines.isEmpty && s.configOptions.isNone

def text (s : Session) : Text :=
  let options := match s.configOptions with
    | some t => "config options:\n".toList ++ t ++ ['\n']
    | none => []
  s.dbLines.flatMap (· ++ ['\n']) ++ options

end Session

end SlowQuery.Run
