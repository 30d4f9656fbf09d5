import SlowQuery.Shape.Table

namespace SlowQuery.Advice

open Text Payload

inductive ProviderError where
  | badNamespace (ns : Text)
  | failed (why : Text)

def ProviderError.message : ProviderError → Text
  | .badNamespace ns => "namespace ".toList ++ quoted ns ++ " has no collection part".toList
  | .failed why => "provider failure: ".toList ++ why

def splitNamespace (ns : Text) : Except ProviderError (Text × Text) :=
  match splitAt? '.' ns with
  | some (database, collection) =>
    if database ≠ [] ∧ collection ≠ [] then .ok (database, collection)
    else .error (.badNamespace ns)
  | none => .error (.badNamespace ns)

def isKeyQuote (c : Char) : Bool := c = '"' || c = '\''

/-- The names at the top of a document, without operators. -/
def topNames : Value → List Text
  | .object ms => ((ms.map (·.1)).filter (!startsWith ['$'] ·)).map (trimBy isKeyQuote)
  | _ => []

def namesIn (document : Text) : List Text :=
  match parse document with
  | .ok v => topNames v
  | .error _ => []

/-- The fields of the filter and of the sort behind it, in order of first appearance. -/
def fieldsOf (shape : Text) : List Text :=
  match balanced? shape with
  | none => []
  | some (filter, rest) =>
    let sort := match documentAfter? "sort: ".toList rest with
      | some document => namesIn document
      | none => []
    (namesIn filter ++ sort).eraseDups

structure FieldCardinality where
  field : Text
  distinct : UInt64

structure Cardinality where
  sampleSize : UInt64
  fields : List FieldCardinality

structure Plan where
  winningPlan : Text
  keysExamined : UInt64
  docsExamined : UInt64
  millis : UInt64

structure ShapeProvider where
  cardinality :
    (database collection : Text) → (fields : List Text) → Except ProviderError Cardinality
  explain : Shape.Stats → Except ProviderError Plan

structure ShapeReview where
  ns : Text
  operation : Text
  filter : Text
  fields : List Text
  cardinality : Option Cardinality
  plan : Option Plan

def reviewShape (provider : ShapeProvider) (s : Shape.Stats) : ShapeReview :=
  let fields := fieldsOf s.key.filter
  let cardinality : Except ProviderError Cardinality := do
    let (database, collection) ← splitNamespace s.ns
    provider.cardinality database collection fields
  { ns := s.ns
    operation := s.key.operation
    filter := s.key.filter
    fields
    cardinality := cardinality.toOption
    plan := (provider.explain s).toOption }

def reviewShapes (provider : ShapeProvider) (shapes : List Shape.Stats) : List ShapeReview :=
  shapes.map (reviewShape provider)

structure Access where
  host : Text
  ops : UInt64

structure Index where
  name : Text
  keys : List (Text × Text)
  isShardKey : Bool
  accesses : List Access

namespace Index

def keyText (i : Index) : Text :=
  let members := i.keys.map fun (field, direction) => field ++ ": ".toList ++ direction
  "\x7b ".toList ++ joinWith ", ".toList members ++ " \x7d".toList

/-- The keys without direction and without the end, so that a leading part of an index is a leading
part of the text. -/
def effectiveKey (i : Index) : Text :=
  replace ": -1".toList ": 1".toList (i.keyText.take (i.keyText.length - 2))

def totalOps (i : Index) : UInt64 := i.accesses.foldr (·.ops + ·) 0

end Index

inductive Status where
  | normal
  | shardKey
  | redundant
  | unused
deriving DecidableEq

def Status.marker : Status → Char
  | .normal => ' '
  | .shardKey => '*'
  | .redundant => 'x'
  | .unused => '?'

structure Finding where
  ns : Text
  name : Text
  key : Text
  status : Status
  totalOps : UInt64

def Finding.text (f : Finding) : Text := f.status.marker :: ' ' :: f.ns ++ ' ' :: f.key

/-- The index that every collection has. -/
def idKey : Text := "\x7b _id: 1 \x7d".toList

def statusOf (i : Index) (next : Option Index) : Status :=
  if i.isShardKey then .shardKey
  else if i.keyText = idKey then .normal
  else if next.any fun n => startsWith i.effectiveKey n.effectiveKey then .redundant
  else if i.totalOps = 0 then .unused
  else .normal

def findingOf (ns : Text) (i : Index) (next : Option Index) : Finding :=
  { ns, name := i.name, key := i.keyText, status := statusOf i next, totalOps := i.totalOps }

def findings (ns : Text) : List Index → List Finding
  | [] => []
  | i :: is => findingOf ns i is.head? :: findings ns is

def assessIndexes (ns : Text) (indexes : List Index) : List Finding :=
  findings ns (indexes.mergeSort fun a b => atMost a.effectiveKey b.effectiveKey)

structure IndexProvider where
  usage : (database : Text) → Except ProviderError (List (Text × List Index))

def reviewIndexes (provider : IndexProvider) (database : Text) :
    Except ProviderError (List Finding) := do
  let collections ← provider.usage database
  let ordered := collections.mergeSort fun a b => atMost a.1 b.1
  pure (ordered.flatMap fun (collection, indexes) =>
    assessIndexes (database ++ '.' :: collection) indexes)

end SlowQuery.Advice
