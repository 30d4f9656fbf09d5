import SlowQuery.Gzip
import SlowQuery.Run.Session
import SlowQuery.Time

namespace SlowQuery.Run

open Text

def lineFeed : UInt8 := 10

def carriageReturn : UInt8 := 13

def chomp (bs : Bytes) : Bytes := if bs.getLast? = some carriageReturn then bs.dropLast else bs

/-- Cuts bytes behind each line feed, where `line` is what the first line begins with, in reverse; a
last line without a line feed keeps all its bytes. -/
def byteLines : (line : Bytes) → Bytes → List Bytes
  | [], [] => []
  | line, [] => [line.reverse]
  | line, b :: bs =>
    if b = lineFeed then chomp line.reverse :: byteLines [] bs else byteLines (b :: line) bs

def linesOf (bs : Bytes) : List Text := (byteLines [] bs).map Text.Utf8.decodeLossy

/-- Reads a piece of an input behind the begun line `line`, whose bytes are in reverse: gives the
lines that end in the piece, and the line that goes on behind it. -/
def feed : (line : Bytes) → (piece : Bytes) → List Bytes × Bytes
  | line, [] => ([], line)
  | line, b :: bs =>
    if b = lineFeed then
      let (lines, line') := feed [] bs
      (chomp line.reverse :: lines, line')
    else feed (b :: line) bs

def pieceLines : (line : Bytes) → (pieces : List Bytes) → List Bytes
  | line, [] => byteLines line []
  | line, piece :: pieces =>
    let (lines, line') := feed line piece
    lines ++ pieceLines line' pieces

/-- The lines of an input that arrives in pieces. A line, and even a character, may begin in one
piece and end in another. -/
def linesOfPieces (pieces : List Bytes) : List Text :=
  (pieceLines [] pieces).map Text.Utf8.decodeLossy

def readLines (file : Bytes) : Except Gzip.Fault (List Text) :=
  if Gzip.isCompressed file then (Gzip.decompress file).map linesOf else .ok (linesOf file)

structure State where
  options : Options
  table : Shape.Table := {}
  slow : SlowList := .empty SlowList.defaultCapacity
  matched : UInt64 := 0
  aggregated : UInt64 := 0
  skipped : UInt64 := 0
  start : Option Time.Instant := none
  stop : Option Time.Instant := none

/-- What a line contributes to the statistics. -/
structure Sample where
  key : Shape.Key
  ns : Text
  millis : UInt64
  index : Text
  instant : Option Time.Instant

/-- The sample of a record; none if its filter cannot be found or read. -/
def Sample.of? (line : Text) (r : Record.Line) : Option Sample := do
  let scan := Record.scanType line
  let query ← Record.Query.extract? r.operation r.ns r.body scan
  let shape ← (Shape.canonicalize query.filter).toOption
  pure
    { key := ⟨query.verb.name, shape ++ query.stages, scan⟩
      ns := r.ns
      millis := r.millis
      index := Record.indexUsed line scan
      instant := Time.Instant.read? r.timestamp }

namespace State

def new (options : Options) : State := { options }

def count (s : State) (line : Text) (sample : Sample) : State :=
  { s with
    table := s.table.add sample.key sample.ns sample.millis sample.index
    slow := s.slow.add sample.millis line
    aggregated := s.aggregated + 1
    start := (sample.instant.map fun i => (s.start.map (·.earlier i)).getD i) <|> s.start
    stop := (sample.instant.map fun i => (s.stop.map (·.later i)).getD i) <|> s.stop }

def ingest (s : State) (line : Text) : State :=
  match Record.Line.read? line with
  | none => s
  | some r =>
    let s := { s with matched := s.matched + 1 }
    if s.options.collscanOnly && Record.scanType line ≠ Record.collectionScan then s
    else
      match Sample.of? line r with
      | none => { s with skipped := s.skipped + 1 }
      | some sample => s.count line sample

def finish (s : State) (total : UInt64) (session : Session) : Result where
  shapes := s.table.sorted
  slowOps := s.slow.entries
  session
  summary :=
    { totalLines := total
      matchedLines := s.matched
      aggregatedLines := s.aggregated
      skippedLines := s.skipped
      startDate := s.start.map (·.text)
      endDate := s.stop.map (·.text) }

end State

def analyzeLines (options : Options) (lines : List Text) : Result :=
  let state := lines.foldl State.ingest (State.new options)
  state.finish (UInt64.ofNat lines.length) (Session.ofLines lines)

end SlowQuery.Run
