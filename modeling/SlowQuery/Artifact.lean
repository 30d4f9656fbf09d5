import SlowQuery.Bytes
import SlowQuery.Run.Session

namespace SlowQuery.Artifact

open Text Run

inductive Corruption where
  | cut
  | cutText
  | notUtf8 (fault : Utf8.Fault)
  | badTag (tag : UInt8)

def Corruption.message : Corruption → Text
  | .cut => "io error: unexpected end of file".toList
  | .cutText => "io error: ".toList
  | .notUtf8 fault => "string is not valid utf8: ".toList ++ fault.message
  | .badTag tag => "tag for enum is not valid, found ".toList ++ ofNat tag.toNat

abbrev Reader (α : Type) := Bytes → Except Corruption (α × Bytes)

def numberBytes (n : UInt64) : Bytes := Bytes.ofNat 8 n.toNat

def readNumber (bs : Bytes) : Except Corruption (UInt64 × Bytes) :=
  match Bytes.split? 8 bs with
  | none => .error .cut
  | some (front, bs) => .ok (UInt64.ofNat (Bytes.toNat front), bs)

def textBytes (t : Text) : Bytes :=
  let body := Utf8.encode t
  numberBytes (UInt64.ofNat body.length) ++ body

def readText (bs : Bytes) : Except Corruption (Text × Bytes) := do
  let (length, bs) ← readNumber bs
  match Bytes.split? length.toNat bs with
  | none => .error .cutText
  | some (front, bs) =>
    match Utf8.decode front with
    | .ok t => .ok (t, bs)
    | .error fault => .error (.notUtf8 fault)

variable {α : Type}

def optionBytes (item : α → Bytes) : Option α → Bytes
  | none => [0]
  | some a => 1 :: item a

def readOption (item : Reader α) : Reader (Option α)
  | [] => .error .cut
  | 0 :: bs => .ok (none, bs)
  | 1 :: bs => do
    let (a, bs) ← item bs
    .ok (some a, bs)
  | tag :: _ => .error (.badTag tag)

def listBytes (item : α → Bytes) (as : List α) : Bytes :=
  numberBytes (UInt64.ofNat as.length) ++ as.flatMap item

def readItems (item : Reader α) : (count : Nat) → Reader (List α)
  | 0, bs => .ok ([], bs)
  | n + 1, bs => do
    let (a, bs) ← item bs
    let (as, bs) ← readItems item n bs
    .ok (a :: as, bs)

def readList (item : Reader α) (bs : Bytes) : Except Corruption (List α × Bytes) := do
  let (count, bs) ← readNumber bs
  readItems item count.toNat bs

def statsBytes (s : Shape.Stats) : Bytes :=
  textBytes s.key.operation ++ textBytes s.key.filter ++ textBytes s.key.scan ++ textBytes s.ns
    ++ textBytes s.index
    ++ numberBytes s.count ++ numberBytes s.total ++ numberBytes s.max ++ numberBytes s.min

def readStats (bs : Bytes) : Except Corruption (Shape.Stats × Bytes) := do
  let (operation, bs) ← readText bs
  let (filter, bs) ← readText bs
  let (scan, bs) ← readText bs
  let (ns, bs) ← readText bs
  let (index, bs) ← readText bs
  let (count, bs) ← readNumber bs
  let (total, bs) ← readNumber bs
  let (max, bs) ← readNumber bs
  let (min, bs) ← readNumber bs
  pure ({ key := ⟨operation, filter, scan⟩, ns, index, count, total, max, min }, bs)

def slowOpBytes (op : SlowOp) : Bytes := numberBytes op.millis ++ textBytes op.line

def readSlowOp (bs : Bytes) : Except Corruption (SlowOp × Bytes) := do
  let (millis, bs) ← readNumber bs
  let (line, bs) ← readText bs
  pure (⟨millis, line⟩, bs)

def sessionBytes (s : Session) : Bytes :=
  listBytes textBytes s.dbLines ++ optionBytes textBytes s.configOptions
    ++ optionBytes textBytes s.dbPath

def readSession (bs : Bytes) : Except Corruption (Session × Bytes) := do
  let (dbLines, bs) ← readList readText bs
  let (configOptions, bs) ← readOption readText bs
  let (dbPath, bs) ← readOption readText bs
  pure ({ dbLines, configOptions, dbPath }, bs)

def summaryBytes (s : Summary) : Bytes :=
  numberBytes s.totalLines ++ numberBytes s.matchedLines ++ numberBytes s.aggregatedLines
    ++ numberBytes s.skippedLines ++ optionBytes textBytes s.startDate
    ++ optionBytes textBytes s.endDate

def readSummary (bs : Bytes) : Except Corruption (Summary × Bytes) := do
  let (totalLines, bs) ← readNumber bs
  let (matchedLines, bs) ← readNumber bs
  let (aggregatedLines, bs) ← readNumber bs
  let (skippedLines, bs) ← readNumber bs
  let (startDate, bs) ← readOption readText bs
  let (endDate, bs) ← readOption readText bs
  pure ({ totalLines, matchedLines, aggregatedLines, skippedLines, startDate, endDate }, bs)

def resultBytes (r : Result) : Bytes :=
  listBytes statsBytes r.shapes ++ listBytes slowOpBytes r.slowOps ++ sessionBytes r.session
    ++ summaryBytes r.summary

def readResult (bs : Bytes) : Except Corruption (Result × Bytes) := do
  let (shapes, bs) ← readList readStats bs
  let (slowOps, bs) ← readList readSlowOp bs
  let (session, bs) ← readSession bs
  let (summary, bs) ← readSummary bs
  pure ({ shapes, slowOps, session, summary }, bs)

def mark : Bytes := [0x51, 0x53, 0x48, 0x50]

def version : Nat := 1

def header : Bytes := mark ++ Bytes.ofNat 4 version

inductive Fault where
  | tooShort (length : Nat)
  | noMark
  | otherVersion (version : Nat)
  | corrupt (why : Corruption)

def Fault.message : Fault → Text
  | .tooShort length =>
    ".enc artifact truncated to ".toList ++ ofNat length ++ " bytes, header alone is ".toList
      ++ ofNat header.length
  | .noMark => "not a .enc artifact: missing QSHP header".toList
  | .otherVersion v =>
    ".enc artifact format version ".toList ++ ofNat v ++ " is not readable by this build".toList
  | .corrupt why => "corrupt .enc artifact body: ".toList ++ why.message

def encode (r : Result) : Bytes := header ++ resultBytes r

/-- Bytes behind the result have no meaning. -/
def decode (bs : Bytes) : Except Fault Result :=
  match Bytes.split? header.length bs with
  | none => .error (.tooShort bs.length)
  | some (head, body) =>
    let v := Bytes.toNat (head.drop mark.length)
    if head.take mark.length ≠ mark then .error .noMark
    else if v ≠ version then .error (.otherVersion v)
    else
      match readResult body with
      | .ok (r, _) => .ok r
      | .error why => .error (.corrupt why)

end SlowQuery.Artifact
