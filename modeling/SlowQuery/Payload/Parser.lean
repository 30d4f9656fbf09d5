import SlowQuery.Payload.Value
import SlowQuery.Text.Printable

namespace SlowQuery.Payload

open Text

inductive Fault where
  | ended
  | unexpected (c : Char) (rest : Text)

abbrev Reading (α : Type) := Except Fault (α × Text)

/-- The text before the first unescaped `stop`, and the text behind it. -/
def upTo (stop : Char) : (escaped : Bool) → Text → Reading Text
  | _, [] => .error .ended
  | true, c :: t => (upTo stop false t).map fun (l, r) => (c :: l, r)
  | false, c :: t =>
    if c = '\\' then (upTo stop true t).map fun (l, r) => (c :: l, r)
    else if c = stop then .ok ([], t)
    else (upTo stop false t).map fun (l, r) => (c :: l, r)

def quotedText (quote : Char) (t : Text) : Reading Text :=
  (upTo quote false t).map fun (inner, rest) => (quote :: inner ++ [quote], rest)

def isQuote (c : Char) : Bool := c = '"' || c = '\''

def needsQuotes (c : Char) : Bool :=
  isBlank c || c ∈ [':', ',', '{', '}', '[', ']', '"', '\'', '\\']

/-- A quoted key loses its quotes where the bare form reads as the same key. -/
def plainKey (quoted : Text) : Text :=
  let inner := (quoted.drop 1).dropLast
  if !inner.isEmpty && !inner.any needsQuotes then inner else quoted

def bareKey : Text → Reading Text
  | [] => .error .ended
  | c :: t =>
    if c = ':' then .ok ([], c :: t)
    else if c ∈ [',', '{', '}', '[', ']'] then .error (.unexpected c t)
    else (bareKey t).map fun (l, r) => (c :: l, r)

def key (t : Text) : Reading Text :=
  match dropBlank t with
  | [] => .error .ended
  | c :: t =>
    if isQuote c then (quotedText c t).map fun (k, r) => (plainKey k, r)
    else (bareKey (c :: t)).map fun (k, r) => (trimEnd k, r)

def colon (t : Text) : Reading Unit :=
  match dropBlank t with
  | [] => .error .ended
  | c :: t => if c = ':' then .ok ((), t) else .error (.unexpected c t)

inductive WordScan where
  | plain
  | quoted (quote : Char)
  | escaped (quote : Char)

/-- A bare word ends before a delimiter outside of parentheses; inside them quoted texts are passed
over. -/
def bareWord : WordScan → (depth : Nat) → Text → Reading Text
  | .plain, _, [] => .ok ([], [])
  | _, _, [] => .error .ended
  | .escaped q, d, c :: t => (bareWord (.quoted q) d t).map fun (l, r) => (c :: l, r)
  | .quoted q, d, c :: t =>
    let next := if c = '\\' then .escaped q else if c = q then .plain else .quoted q
    (bareWord next d t).map fun (l, r) => (c :: l, r)
  | .plain, 0, c :: t =>
    if c ∈ [',', '}', ']'] then .ok ([], c :: t)
    else (bareWord .plain (if c = '(' then 1 else 0) t).map fun (l, r) => (c :: l, r)
  | .plain, d + 1, c :: t =>
    let depth := if c = '(' then d + 2 else if c = ')' then d else d + 1
    (bareWord (if isQuote c then .quoted c else .plain) depth t).map fun (l, r) => (c :: l, r)

def isFlag (c : Char) : Bool := !isBlank c && !(c ∈ [',', '}', ']'])

def scalar (t : Text) : Except Fault (Scalar × Text) :=
  match t with
  | [] => .error .ended
  | '/' :: t => do
    let (pattern, t) ← upTo '/' false t
    let (flags, t) := t.span isFlag
    pure (.regex pattern flags, t)
  | c :: t =>
    if isQuote c then (quotedText c t).map fun (s, r) => (.str s, r)
    else if c ∈ [',', '}', ']'] then .error (.unexpected c t)
    else (bareWord .plain 0 (c :: t)).map fun (w, r) => (.ofWord (trim w), r)

mutual

/-- Every step into a part or on to the next part passes at least one character, which bounds the
fuel. -/
def value : (fuel : Nat) → Text → Reading Value
  | 0, _ => .error .ended
  | fuel + 1, t =>
    match dropBlank t with
    | [] => .error .ended
    | '{' :: t =>
      match dropBlank t with
      | '}' :: t => .ok (.object [], t)
      | t => (members fuel t).map fun (ms, r) => (.object ms, r)
    | '[' :: t =>
      match dropBlank t with
      | ']' :: t => .ok (.array [], t)
      | t => (items fuel t).map fun (vs, r) => (.array vs, r)
    | t => (scalar t).map fun (s, r) => (.scalar s, r)

def members : (fuel : Nat) → Text → Except Fault (List (Text × Value) × Text)
  | 0, _ => .error .ended
  | fuel + 1, t => do
    let (k, t) ← key t
    let ((), t) ← colon t
    let (v, t) ← value fuel t
    match dropBlank t with
    | [] => .error .ended
    | c :: t =>
      if c = ',' then (members fuel t).map fun (ms, r) => ((k, v) :: ms, r)
      else if c = '}' then .ok ([(k, v)], t)
      else .error (.unexpected c t)

def items : (fuel : Nat) → Text → Except Fault (List Value × Text)
  | 0, _ => .error .ended
  | fuel + 1, t => do
    let (v, t) ← value fuel t
    match dropBlank t with
    | [] => .error .ended
    | c :: t =>
      if c = ',' then (items fuel t).map fun (vs, r) => (v :: vs, r)
      else if c = ']' then .ok ([v], t)
      else .error (.unexpected c t)

end

/-- Positions are byte offsets. -/
inductive ParseError where
  | unexpectedEnd (pos : Nat)
  | unexpected (c : Char) (pos : Nat)
  | trailing (pos : Nat)

def ParseError.message : ParseError → Text
  | .unexpectedEnd pos => "unexpected end of payload at byte ".toList ++ ofNat pos
  | .unexpected c pos =>
    "unexpected character ".toList ++ quotedChar c ++ " at byte ".toList ++ ofNat pos
  | .trailing pos => "trailing text after payload at byte ".toList ++ ofNat pos

def parse (t : Text) : Except ParseError Value :=
  let size := byteLength t
  match value (2 * t.length + 1) t with
  | .error .ended => .error (.unexpectedEnd size)
  | .error (.unexpected c rest) => .error (.unexpected c (size - byteLength (c :: rest)))
  | .ok (v, rest) =>
    match dropBlank rest with
    | [] => .ok v
    | rest => .error (.trailing (size - byteLength rest))

inductive Scan where
  | outside
  | inString
  | escaped

/-- The part up to the delimiter that brings the depth to zero, and what follows it. -/
def closeFrom (opener closer : Char) : Scan → (depth : Nat) → Text → Option (Text × Text)
  | _, _, [] => none
  | .escaped, d, c :: t => (closeFrom opener closer .inString d t).map fun (l, r) => (c :: l, r)
  | .inString, d, c :: t =>
    let next := if c = '\\' then .escaped else if c = '"' then .outside else .inString
    (closeFrom opener closer next d t).map fun (l, r) => (c :: l, r)
  | .outside, d, c :: t =>
    if c = '"' then (closeFrom opener closer .inString d t).map fun (l, r) => (c :: l, r)
    else if c = opener then
      (closeFrom opener closer .outside (d + 1) t).map fun (l, r) => (c :: l, r)
    else if c = closer then
      if d ≤ 1 then some ([c], t)
      else (closeFrom opener closer .outside (d - 1) t).map fun (l, r) => (c :: l, r)
    else (closeFrom opener closer .outside d t).map fun (l, r) => (c :: l, r)

/-- The object or array with which the text begins, and what follows it. -/
def balanced? : Text → Option (Text × Text)
  | '{' :: t => closeFrom '{' '}' .outside 0 ('{' :: t)
  | '[' :: t => closeFrom '[' ']' .outside 0 ('[' :: t)
  | _ => none

def closing? (t : Text) (start : Nat) : Option Nat := do
  let (document, _) ← balanced? (← fromByte? start t)
  pure (start + byteLength document)

/-- The text through its first object; the whole text if there is none or it is never closed. -/
def leadingPayload (t : Text) : Text :=
  let (before, rest) := t.span (· != '{')
  match balanced? rest with
  | some (document, _) => before ++ document
  | none => t

def isNameChar (c : Char) : Bool := c.isAlphanum || c = '_' || c = '$' || c = '.'

/-- Looks for the key behind the character `prev`; `skip` characters still belong to the last
occurrence. -/
def documentAfterFrom (key : Text) : (skip : Nat) → (prev : Option Char) → Text → Option Text
  | _, _, [] => none
  | k + 1, _, c :: t => documentAfterFrom key k (some c) t
  | 0, prev, c :: t =>
    if startsWith key (c :: t) then
      let found :=
        if prev.any isNameChar then none else balanced? (dropBlank ((c :: t).drop key.length))
      match found with
      | some (document, _) => some document
      | none => documentAfterFrom key (key.length - 1) (some c) t
    else documentAfterFrom key 0 (some c) t

/-- The first object or array that stands behind the key, where the key does not end a longer
name. -/
def documentAfter? (key t : Text) : Option Text := documentAfterFrom key 0 none t

end SlowQuery.Payload
