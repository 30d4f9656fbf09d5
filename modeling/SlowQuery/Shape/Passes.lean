import SlowQuery.Payload.Parser

namespace SlowQuery.Shape

open Text Payload

def isEnumerationKey (k : Text) : Bool := k = "$in".toList || k = "$nin".toList

def isRegexKey (k : Text) : Bool := k = "$regex".toList

def isRoutingKey (k : Text) : Bool := k = "shardVersion".toList

/-- An operand that lists values, whatever their number, becomes the elided enumeration. -/
def elideOperand? : Value → Option Value
  | .array _ | .elided => some .elided
  | _ => none

mutual

def truncateEnumerations : Value → Value
  | .object ms => .object (truncateMembers ms)
  | .array vs => .array (truncateItems vs)
  | .elided => .elided
  | .scalar s => .scalar s

def truncateMembers : List (Text × Value) → List (Text × Value)
  | [] => []
  | (k, v) :: ms =>
    let elided := if isEnumerationKey k then elideOperand? v else none
    (k, elided.getD (truncateEnumerations v)) :: truncateMembers ms

def truncateItems : List Value → List Value
  | [] => []
  | v :: vs => truncateEnumerations v :: truncateItems vs

end

def redactScalar : Scalar → Scalar
  | .regex _ flags => .regex "regex".toList flags
  | s => s

mutual

/-- Redacts the operands of `$regex`; other regular expressions keep their flags only. -/
def redactRegexes : Value → Value
  | .object ms => .object (redactMembers ms)
  | .array vs => .array (redactItems vs)
  | .elided => .elided
  | .scalar s => .scalar (redactScalar s)

def redactMembers : List (Text × Value) → List (Text × Value)
  | [] => []
  | (k, v) :: ms =>
    (k, if isRegexKey k then .scalar .redacted else redactRegexes v) :: redactMembers ms

def redactItems : List Value → List Value
  | [] => []
  | v :: vs => redactRegexes v :: redactItems vs

end

def placeholdLiteral : Scalar → Scalar
  | .str _ | .number _ | .bool _ | .date _ => .placeholder
  | s => s

def replaceLiterals : Value → Value := Value.mapScalars placeholdLiteral

def placeholdHandle : Scalar → Scalar
  | .handle _ => .placeholder
  | s => s

def replaceHandles : Value → Value := Value.mapScalars placeholdHandle

mutual

def stripRouting : Value → Value
  | .object ms => .object (stripMembers ms)
  | .array vs => .array (stripItems vs)
  | .elided => .elided
  | .scalar s => .scalar s

def stripMembers : List (Text × Value) → List (Text × Value)
  | [] => []
  | (k, v) :: ms =>
    if isRoutingKey k then stripMembers ms else (k, stripRouting v) :: stripMembers ms

def stripItems : List Value → List Value
  | [] => []
  | v :: vs => stripRouting v :: stripItems vs

end

/-- Operators and names with white space inside name no field. -/
def namesField (k : Text) : Bool := !startsWith ['$'] k && !k.any isBlank

def firstOfEach : (seen : List Text) → List (Text × Value) → List (Text × Value)
  | _, [] => []
  | seen, (k, v) :: ms =>
    if seen.contains k then firstOfEach seen ms else (k, v) :: firstOfEach (k :: seen) ms

/-- The named fields of the top level in alphabetical order; the first of equal names stays. -/
def reorderFields : Value → Value
  | .object ms =>
    .object ((firstOfEach [] (ms.filter (namesField ·.1))).mergeSort (fun a b => atMost a.1 b.1))
  | v => v

def normalizeValues (v : Value) : Value :=
  replaceHandles (stripRouting (replaceLiterals (redactRegexes (truncateEnumerations v))))

def canonicalize (filter : Text) : Except ParseError Text :=
  (parse filter).map fun v => (reorderFields (normalizeValues v)).render

/-- The shape of a sort document, whose order of keys has a meaning and is kept. -/
def sortSignature (sort : Text) : Except ParseError Text :=
  (parse sort).map fun v => (normalizeValues v).render

def foldUnit : Scalar → Scalar
  | .number raw =>
    if raw = "1.0".toList then .number ['1']
    else if raw = "-1.0".toList then .number ['-', '1']
    else .number raw
  | s => s

/-- The text of a stage or of the keys of an index: literals stay, but a floating one is written as
an integer. Where the text is no document, the same is done on the text. -/
def stageText (raw : Text) : Text :=
  match parse raw with
  | .ok v => (v.mapScalars foldUnit).render
  | .error _ => replace "1.0".toList ['1'] raw

end SlowQuery.Shape
