import SlowQuery.Json

namespace SlowQuery.Payload

open Text

inductive Scalar where
  /-- The text keeps its quotes. -/
  | str (raw : Text)
  | number (raw : Text)
  | bool (value : Bool)
  | date (raw : Text)
  /-- A value made by a server or a driver: an object id, a UUID, a timestamp or binary data. -/
  | handle (raw : Text)
  | regex (pattern flags : Text)
  /-- A regular expression of which not even the flags are kept. -/
  | redacted
  | bare (raw : Text)
  | placeholder
deriving DecidableEq

def Scalar.render : Scalar → Text
  | .str raw | .number raw | .date raw | .handle raw | .bare raw => raw
  | .bool true => "true".toList
  | .bool false => "false".toList
  | .regex pattern flags => '/' :: pattern ++ '/' :: flags
  | .redacted => "/.../.../".toList
  | .placeholder => ['1']

inductive Value where
  | object (members : List (Text × Value))
  | array (items : List Value)
  /-- An enumeration whose elements were dropped. -/
  | elided
  | scalar (s : Scalar)

namespace Value

instance : Inhabited Value := ⟨.elided⟩

mutual

def render : Value → Text
  | .object ms => '{' :: renderMembers ms ++ ['}']
  | .array vs => '[' :: renderItems vs ++ [']']
  | .elided => "[...]".toList
  | .scalar s => s.render

def renderMembers : List (Text × Value) → Text
  | [] => []
  | [(k, v)] => k ++ ':' :: ' ' :: render v
  | (k, v) :: ms => k ++ ':' :: ' ' :: (render v ++ ',' :: ' ' :: renderMembers ms)

def renderItems : List Value → Text
  | [] => []
  | [v] => render v
  | v :: vs => render v ++ ',' :: ' ' :: renderItems vs

end

mutual

def mapScalars (f : Scalar → Scalar) : Value → Value
  | .object ms => .object (mapMembers f ms)
  | .array vs => .array (mapItems f vs)
  | .elided => .elided
  | .scalar s => .scalar (f s)

def mapMembers (f : Scalar → Scalar) : List (Text × Value) → List (Text × Value)
  | [] => []
  | (k, v) :: ms => (k, mapScalars f v) :: mapMembers f ms

def mapItems (f : Scalar → Scalar) : List Value → List Value
  | [] => []
  | v :: vs => mapScalars f v :: mapItems f vs

end

def field? (name : Text) : Value → Option Value
  | .object ms => ms.lookup name
  | _ => none

end Value

def isExponentOrEnd : Text → Bool
  | [] => true
  | e :: t =>
    let digits := match t with
      | '+' :: ds => ds
      | '-' :: ds => ds
      | ds => ds
    (e = 'e' || e = 'E') && !digits.isEmpty && digits.all isDecimalDigit

def isUnsignedNumber (t : Text) : Bool :=
  match t.span isDecimalDigit with
  | ([], '.' :: rest) =>
    match rest.span isDecimalDigit with
    | ([], _) => false
    | (_, rest) => isExponentOrEnd rest
  | ([], _) => false
  | (_, '.' :: rest) => isExponentOrEnd (rest.dropWhile isDecimalDigit)
  | (_, rest) => isExponentOrEnd rest

def isNumber : Text → Bool
  | '-' :: t => isUnsignedNumber t
  | t => isUnsignedNumber t

def numberConstructors : List Text :=
  ["NumberLong".toList, "NumberInt".toList, "NumberDecimal".toList]

def dateConstructors : List Text := ["new Date".toList, "Date".toList, "ISODate".toList]

def handleConstructors : List Text :=
  ["ObjectId".toList, "UUID".toList, "Timestamp".toList, "BinData".toList]

/-- A bare word is read as a literal by its spelling or by the constructor that it calls. -/
def Scalar.ofWord (word : Text) : Scalar :=
  if word = "true".toList then .bool true
  else if word = "false".toList then .bool false
  else if isNumber word then .number word
  else
    match splitAt? '(' word with
    | none => .bare word
    | some (called, _) =>
      let constructor := trim called
      if numberConstructors.contains constructor then .number word
      else if dateConstructors.contains constructor then .date word
      else if handleConstructors.contains constructor then .handle word
      else .bare word

/-- Takes off a pair of equal quotes, and the backslash before each quote inside. -/
def unquote (t : Text) : Text :=
  let paired := match t with
    | '"' :: _ :: _ => endsWith ['"'] t
    | '\'' :: _ :: _ => endsWith ['\''] t
    | _ => false
  if paired then replace ['\\', '\''] ['\''] (replace ['\\', '"'] ['"'] (t.drop 1).dropLast) else t

def Scalar.toJson : Scalar → Json
  | .str raw => .string (unquote raw)
  | .bool b => .bool b
  | .number raw => (Json.number? raw).getD (.string raw)
  | .bare raw => if raw = "null".toList then .null else .string raw
  | s => .string s.render

namespace Value

mutual

def toJson : Value → Json
  | .object ms => .ofMembers (memberJsons ms)
  | .array vs => .array (itemJsons vs)
  | .elided => .string "...".toList
  | .scalar s => s.toJson

def memberJsons : List (Text × Value) → List (Text × Json)
  | [] => []
  | (k, v) :: ms => (unquote k, toJson v) :: memberJsons ms

def itemJsons : List Value → List Json
  | [] => []
  | v :: vs => toJson v :: itemJsons vs

end

end Value

end SlowQuery.Payload
