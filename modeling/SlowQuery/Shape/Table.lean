import SlowQuery.Record

namespace SlowQuery.Shape

open Text

structure Key where
  operation : Text
  filter : Text
  scan : Text
deriving DecidableEq

structure Stats where
  key : Key
  /-- The last one seen. -/
  ns : Text
  /-- The last one seen; empty if none was reported. -/
  index : Text
  count : UInt64
  total : UInt64
  max : UInt64
  min : UInt64
deriving DecidableEq

namespace Stats

def first (key : Key) (ns : Text) (millis : UInt64) (index : Text) : Stats :=
  { key, ns, index, count := 1, total := millis, max := millis, min := millis }

def add (s : Stats) (ns : Text) (millis : UInt64) (index : Text) : Stats :=
  { s with
    ns, index
    count := s.count + 1
    total := s.total + millis
    max := if s.max < millis then millis else s.max
    min := if millis < s.min then millis else s.min }

def average (s : Stats) : Float := s.total.toFloat / s.count.toFloat

def isCollectionScan (s : Stats) : Bool := s.key.scan = Record.collectionScan

/-- Averages are never negative, so their bits order them; an average of nothing comes before all
others. -/
def averageRank (s : Stats) : Nat := if s.average.isNaN then 0 else s.average.toBits.toNat + 1

end Stats

def Key.atMost (a b : Key) : Bool :=
  if a.operation ≠ b.operation then Text.atMost a.operation b.operation
  else if a.filter ≠ b.filter then Text.atMost a.filter b.filter
  else Text.atMost a.scan b.scan

/-- The higher average goes first, and of equal averages the smaller key. -/
def Stats.goesBefore (a b : Stats) : Bool :=
  if a.averageRank ≠ b.averageRank then b.averageRank < a.averageRank else a.key.atMost b.key

def sortByAverage (shapes : List Stats) : List Stats := shapes.mergeSort Stats.goesBefore

structure Table where
  entries : List Stats := []

namespace Table

def empty : Table := {}

def size (t : Table) : Nat := t.entries.length

def isEmpty (t : Table) : Bool := t.entries.isEmpty

def get? (t : Table) (key : Key) : Option Stats := t.entries.find? (·.key = key)

def addTo (key : Key) (ns : Text) (millis : UInt64) (index : Text) : List Stats → List Stats
  | [] => [Stats.first key ns millis index]
  | s :: ss =>
    if s.key = key then s.add ns millis index :: ss else s :: addTo key ns millis index ss

def add (t : Table) (key : Key) (ns : Text) (millis : UInt64) (index : Text) : Table :=
  ⟨addTo key ns millis index t.entries⟩

def sorted (t : Table) : List Stats := sortByAverage t.entries

end Table

end SlowQuery.Shape
