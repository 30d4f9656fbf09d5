import SlowQuery.Run.Session

namespace SlowQuery.Run

open Text

structure ReportLine where
  ns : Text
  command : Text
  queryPattern : Text
  count : UInt64
  min : UInt64
  max : UInt64
  average : Float
  total : UInt64
  isCollectionScan : Bool
  indexUsed : Text

def ReportLine.of (s : Shape.Stats) : ReportLine where
  ns := s.ns
  command := s.key.operation
  queryPattern := s.key.filter
  count := s.count
  min := s.min
  max := s.max
  average := s.average
  total := s.total
  isCollectionScan := s.isCollectionScan
  indexUsed := s.index

def ReportLine.members (l : ReportLine) : List (Text × Json) :=
  [("namespace".toList, .string l.ns),
   ("command".toList, .string l.command),
   ("queryPattern".toList, .string l.queryPattern),
   ("count".toList, .integer l.count.toNat),
   ("minMilliseconds".toList, .integer l.min.toNat),
   ("maxMilliseconds".toList, .integer l.max.toNat),
   ("averageMilliseconds".toList, .real l.average),
   ("totalMilliseconds".toList, .integer l.total.toNat),
   ("isCollectionScan".toList, .bool l.isCollectionScan),
   ("indexUsed".toList, .string l.indexUsed)]

def report (shapes : List Shape.Stats) : List ReportLine :=
  (shapes.mergeSort fun a b => decide (b.averageRank ≤ a.averageRank)).map .of

def reportText (lines : List ReportLine) : Text :=
  let objects := lines.map fun l => (Json.object l.members).compact
  let last := if lines.isEmpty then [] else ['\n']
  "[\n".toList ++ joinWith ",\n".toList objects ++ last ++ "]\n".toList

/-- A duration in a unit that suits it; below one second it stays in milliseconds. -/
def durationText (millis : Float) : Text :=
  let inUnit (width : Nat) (size : Float) (unit : Char) : Text :=
    Decimal.padStart width ' ' (Decimal.fixed 1 (millis / size)) ++ [unit]
  if millis ≥ 3600000 then inUnit 4 3600000 'h'
  else if millis ≥ 60000 then inUnit 3 60000 'm'
  else if millis ≥ 1000 then inUnit 3 1000 's'
  else Decimal.padStart 6 ' ' (Decimal.fixed 0 millis)

def slowOpText (op : SlowOp) : Text :=
  let duration := trim (durationText op.millis.toFloat)
  op.line ++ " (".toList ++ duration ++ ") ".toList ++ ofNat op.millis.toNat ++ "ms".toList

def summaryText (options : Options) (r : Result) : Text :=
  let session := if options.verbose then [r.session.text] else []
  let slow :=
    if options.verbose && !r.slowOps.isEmpty then
      ("Ops slower than 10 seconds (list top ".toList ++ ofNat r.slowOps.length ++ "):".toList)
        :: r.slowOps.map slowOpText ++ [['\n']]
    else []
  joinWith ['\n'] (session ++ slow ++ [reportText (report r.shapes)])

end SlowQuery.Run
