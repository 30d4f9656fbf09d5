import SlowQuery.Shape.Passes
import SlowQuery.Text.Word

namespace SlowQuery.Record

open Text Payload

def collectionScan : Text := "COLLSCAN".toList

def scanType (line : Text) : Text := if contains collectionScan line then collectionScan else []

def indexScanKey : Text := "planSummary: IXSCAN".toList

/-- The key pattern of an index scan, or the name of a plan that takes the place of an index. -/
def indexUsed (line scan : Text) : Text :=
  let named (plan : Text) : Bool := contains ("planSummary: ".toList ++ plan) line
  let keys := ((documentAfter? indexScanKey line).map Shape.stageText).getD []
  let index :=
    if keys ≠ [] then keys
    else if named "EOF".toList then "EOF".toList
    else if named "IDHACK".toList then "IDHACK".toList
    else []
  if scan = [] && named "COUNT_SCAN".toList then "COUNT_SCAN".toList else index

structure Line where
  timestamp : Text
  component : Text
  operation : Text
  ns : Text
  body : Text
  millis : UInt64

def isContextChar (c : Char) : Bool := c != ']' && !isBlank c

def context? (t : Text) : Option (Text × Text) := do
  let t ← expect? '[' t
  match t.span isContextChar with
  | ([], _) => none
  | (context, t) => do
    let t ← expect? ']' t
    pure (context, t)

/-- A tag is a run without white space of which a part stands before the colon that ends it. -/
def isTag (run : Text) : Bool := decide (1 < run.length) && endsWith [':'] run

def duration? (digits : Text) : Option UInt64 :=
  let n := digitsValue digits
  if digits ≠ [] ∧ n < UInt64.size then some (UInt64.ofNat n) else none

/-- The body and the duration. The duration ends the line and stands behind the last space. -/
def bodyAndMillis? (t : Text) : Option (Text × UInt64) :=
  match t.reverse with
  | 's' :: 'm' :: back =>
    match back.span Char.isDigit with
    | (digits, ' ' :: body) => do
      let millis ← duration? digits.reverse
      if '\n' ∈ body then none else some (body.reverse, millis)
    | _ => none
  | _ => none

def Line.read? (t : Text) : Option Line := do
  let (timestamp, t) ← solid? t
  let t ← expect? ' ' t
  let (_, t) ← solid? t
  let t ← gap? t
  let (component, t) ← word? t
  let t ← gap? t
  let (_, t) ← context? t
  let t ← expect? ' ' t
  let (operation, t) ← word? t
  let t ← expect? ' ' t
  let (ns, t) ← solid? t
  let t ← expect? ' ' t
  let (tag, t) ← solid? t
  let t ← expect? ' ' t
  if isTag tag then
    let (body, millis) ← bodyAndMillis? t
    pure { timestamp, component, operation, ns, body, millis }
  else none

/-- The operations that carry a query worth grouping. -/
inductive Verb where
  | count
  | distinct
  | delete
  | find
  | remove
  | update
  | aggregate
  | getMore
  | getmore
  | findAndModify
deriving DecidableEq

namespace Verb

def all : List Verb :=
  [.count, .distinct, .delete, .find, .remove, .update, .aggregate, .getMore, .getmore,
   .findAndModify]

def name : Verb → Text
  | .count => "count".toList
  | .distinct => "distinct".toList
  | .delete => "delete".toList
  | .find => "find".toList
  | .remove => "remove".toList
  | .update => "update".toList
  | .aggregate => "aggregate".toList
  | .getMore => "getMore".toList
  | .getmore => "getmore".toList
  | .findAndModify => "findAndModify".toList

def ofName? (t : Text) : Option Verb := all.find? (·.name = t)

end Verb

structure Query where
  verb : Verb
  filter : Text
  /-- A text such as `, sort: ...` that the shape carries behind the filter. -/
  stages : Text

def oplog : Text := "local.oplog.rs".toList

/-- The log of operations and the command pseudo-collections hold no queries of their own. -/
def isExcluded (ns : Text) : Bool := ns = oplog || endsWith ".$cmd".toList ns

def isVerbChar (c : Char) : Bool := c.isAlphanum || c = '_'

/-- The verb and the document of a command, behind its marker if there is one. -/
def unwrapCommand? (payload : Text) : Option (Text × Text) := do
  let inner := (after? "command: ".toList payload).getD payload
  let (verb, rest) ← splitAt? ' ' inner
  let document := dropBlank rest
  if verb ≠ [] && verb.all isVerbChar && startsWith ['{'] document && endsWith ['}'] document then
    some (verb, document)
  else none

/-- A pipeline is a member, so something stands before its key. -/
def hasPipeline (t : Text) : Bool := (position? "pipeline:".toList t).any (0 < ·)

/-- The filter of a find with the shape of its sort; none if the sort cannot be read. -/
def findFilter? (payload : Text) : Option (Text × Text) := do
  let filter := (documentAfter? "filter: ".toList payload).getD "\x7b \x7d".toList
  match documentAfter? "sort: ".toList payload with
  | none => some (filter, [])
  | some sort =>
    match Shape.sortSignature sort with
    | .ok signature => some (filter, ", sort: ".toList ++ signature)
    | .error _ => none

/-- Where the filter is not a named member, the payload itself is taken from its first brace on. -/
def writeFilter? (payload : Text) : Option Text :=
  let named :=
    if contains "query: ".toList payload then documentAfter? "query: ".toList payload
    else documentAfter? "q: ".toList payload
  named <|> (after? ['{'] payload).map ('{' :: ·)

def groupKey : Text := "$group: ".toList

def sortKey : Text := "$sort: ".toList

/-- The first grouping, unless a sort precedes it, and the first sort. -/
def pipelineStages (t : Text) : Text :=
  let groupFirst :=
    match position? groupKey t, position? sortKey t with
    | none, _ => false
    | some _, none => true
    | some g, some s => decide (g < s)
  let stage (label key : Text) : Text :=
    match documentAfter? key t with
    | some document => label ++ Shape.stageText document
    | none => []
  (if groupFirst then stage ", group: ".toList groupKey else []) ++ stage ", sort: ".toList sortKey

def matchMarker : Text := "pipeline: [ \x7b $match: ".toList

def sortMarker : Text := "pipeline: [ \x7b $sort: ".toList

/-- The operand of a leading match or sort; a collection scan has a shape without one. -/
def pipelineFilter? (t scan : Text) : Option (Text × Text) :=
  match documentAfter? matchMarker t <|> documentAfter? sortMarker t with
  | some first => some (first, pipelineStages t)
  | none => if scan = collectionScan then some (['{', '}'], []) else none

def continuedFilter? (body scan : Text) : Option (Text × Text) := do
  let origin ← documentAfter? "originatingCommand: ".toList body
  if hasPipeline origin then pipelineFilter? origin scan
  else if (documentAfter? "filter: ".toList origin).isSome then findFilter? origin
  else none

def filterOf? (verb : Verb) (payload body scan : Text) : Option (Text × Text) :=
  match verb with
  | .find => findFilter? payload
  | .count | .distinct => (documentAfter? "query: ".toList payload).map (·, [])
  | .delete =>
    if contains "writeConcern:".toList payload then none else (writeFilter? payload).map (·, [])
  | .update | .remove | .findAndModify => (writeFilter? payload).map (·, [])
  | .aggregate => pipelineFilter? payload scan
  | .getmore =>
    if hasPipeline payload then pipelineFilter? payload scan else continuedFilter? body scan
  | .getMore => continuedFilter? body scan

/-- The query of a record; none where there is none worth grouping. -/
def Query.extract? (operation ns body scan : Text) : Option Query := do
  if isExcluded ns then none
  else
    let payload := leadingPayload body
    let (name, payload) ←
      if operation = "command".toList then unwrapCommand? payload else some (operation, payload)
    let verb ← Verb.ofName? name
    let (filter, stages) ← filterOf? verb payload body scan
    pure { verb, filter, stages }

end SlowQuery.Record
