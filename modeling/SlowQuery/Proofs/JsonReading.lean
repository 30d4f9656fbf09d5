import SlowQuery.Proofs.JsonNumbers
import Mathlib.Tactic.IntervalCases

namespace SlowQuery.Json

open Text

/-- What JSON text tells: members in the order in which they stand, and numbers by their digits. -/
inductive Tree where
  | null
  | bool (value : Bool)
  | number (n : Numeral)
  | string (t : Text)
  | array (items : List Tree)
  | object (members : List (Text × Tree))

def isSpace (c : Char) : Bool := c ∈ [' ', '\t', '\n', '\r']

def dropSpace (t : Text) : Text := t.dropWhile isSpace

def hexValue? (c : Char) : Option Nat :=
  if c.isDigit then some (c.toNat - '0'.toNat)
  else if 'a' ≤ c ∧ c ≤ 'f' then some (c.toNat - 'a'.toNat + 10)
  else if 'A' ≤ c ∧ c ≤ 'F' then some (c.toNat - 'A'.toNat + 10)
  else none

def unit? : Text → Option (Nat × Text)
  | a :: b :: c :: d :: t => do
    let high := 16 * (← hexValue? a) + (← hexValue? b)
    let low := 16 * (← hexValue? c) + (← hexValue? d)
    pure (256 * high + low, t)
  | _ => none

/-- A character by its number. One beyond the first plane is written as two surrogates, and a
surrogate alone is none. -/
def codePoint? (t : Text) : Option (Char × Text) := do
  let (high, t) ← unit? t
  if 0xD800 ≤ high ∧ high < 0xDC00 then
    let (low, t) ← unit? (← expect? 'u' (← expect? '\\' t))
    if 0xDC00 ≤ low ∧ low < 0xE000 then
      some (.ofNat (0x10000 + 0x400 * (high - 0xD800) + (low - 0xDC00)), t)
    else none
  else if 0xDC00 ≤ high ∧ high < 0xE000 then none
  else some (.ofNat high, t)

def escaped? : Text → Option (Char × Text)
  | '"' :: t => some ('"', t)
  | '\\' :: t => some ('\\', t)
  | '/' :: t => some ('/', t)
  | 'b' :: t => some ('\x08', t)
  | 'f' :: t => some ('\x0c', t)
  | 'n' :: t => some ('\n', t)
  | 'r' :: t => some ('\r', t)
  | 't' :: t => some ('\t', t)
  | 'u' :: t => codePoint? t
  | _ => none

/-- The first character of a string. A control character must be escaped. -/
def character? : Text → Option (Char × Text)
  | [] => none
  | c :: t =>
    if c = '\\' then escaped? t else if c = '"' ∨ c.toNat < 0x20 then none else some (c, t)

def charactersFrom : (fuel : Nat) → Text → Option (Text × Text)
  | 0, _ => none
  | _ + 1, [] => none
  | fuel + 1, c :: t =>
    if c = '"' then some ([], t)
    else do
      let (d, t) ← character? (c :: t)
      let (ds, t) ← charactersFrom fuel t
      pure (d :: ds, t)

def characters? (t : Text) : Option (Text × Text) := charactersFrom t.length t

def isLiteralChar (c : Char) : Bool := c.isAlphanum || c ∈ ['-', '+', '.']

def literal? (word : Text) : Option Tree :=
  if word = "null".toList then some .null
  else if word = "true".toList then some (.bool true)
  else if word = "false".toList then some (.bool false)
  else (Numeral.read? word).map .number

mutual

def value? : (fuel : Nat) → Text → Option (Tree × Text)
  | 0, _ => none
  | fuel + 1, t =>
    match dropSpace t with
    | '"' :: t => (characters? t).map fun (s, r) => (.string s, r)
    | '[' :: t =>
      match dropSpace t with
      | ']' :: t => some (.array [], t)
      | t => (items? fuel t).map fun (vs, r) => (.array vs, r)
    | '{' :: t =>
      match dropSpace t with
      | '}' :: t => some (.object [], t)
      | t => (members? fuel t).map fun (ms, r) => (.object ms, r)
    | t => (literal? (t.takeWhile isLiteralChar)).map fun v => (v, t.dropWhile isLiteralChar)

def items? : (fuel : Nat) → Text → Option (List Tree × Text)
  | 0, _ => none
  | fuel + 1, t => do
    let (v, t) ← value? fuel t
    match dropSpace t with
    | ',' :: t => (items? fuel t).map fun (vs, r) => (v :: vs, r)
    | ']' :: t => some ([v], t)
    | _ => none

def members? : (fuel : Nat) → Text → Option (List (Text × Tree) × Text)
  | 0, _ => none
  | fuel + 1, t => do
    let (k, t) ← characters? (← expect? '"' (dropSpace t))
    let (v, t) ← value? fuel (← expect? ':' (dropSpace t))
    match dropSpace t with
    | ',' :: t => (members? fuel t).map fun (ms, r) => ((k, v) :: ms, r)
    | '}' :: t => some ([(k, v)], t)
    | _ => none

end

/-- Reads a whole text; space may surround the value. -/
def decode (t : Text) : Option Tree := do
  let (v, rest) ← value? (2 * t.length + 1) t
  if dropSpace rest = [] then some v else none

mutual

/-- What the text of a value tells. -/
def tree : Json → Tree
  | .null => .null
  | .bool b => .bool b
  | .integer n => .number (.ofInt n)
  | .real x => (literal? (realText x)).getD .null
  | .string t => .string t
  | .array vs => .array (treeItems vs)
  | .object ms => .object (treeMembers ms)

def treeItems : List Json → List Tree
  | [] => []
  | v :: vs => tree v :: treeItems vs

def treeMembers : List (Text × Json) → List (Text × Tree)
  | [] => []
  | (k, v) :: ms => (k, tree v) :: treeMembers ms

end

variable {c : Char} {t r : Text} {n : Nat}

theorem codePoint?_control (h : n < 0x20) (r : Text) :
    codePoint? ('0' :: '0' :: (Decimal.padStart 2 '0' (Nat.toDigits 16 n) ++ r)) =
      some (.ofNat n, r) := by
  interval_cases n <;> rfl

theorem character?_escape (c : Char) (r : Text) : character? (escape c ++ r) = some (c, r) := by
  rw [escape]
  split
  next h => rw [h]; rfl
  split
  next h => rw [h]; rfl
  split
  next h => rw [h]; rfl
  split
  next h => rw [h]; rfl
  split
  next h => rw [h]; rfl
  split
  next h => rw [h]; rfl
  split
  next h => rw [h]; rfl
  split
  next h =>
    have hcode := codePoint?_control h r
    rw [Char.ofNat_toNat] at hcode
    exact hcode
  next hquote hslash _ _ _ _ _ hcontrol =>
    simp [character?, hquote, hslash, hcontrol]

theorem escape_cons (c : Char) : ∃ d u, escape c = d :: u ∧ d ≠ '"' := by
  rw [escape]
  split_ifs <;> simp_all

theorem charactersFrom_escaped (ht : t.length < n) (r : Text) :
    charactersFrom n (t.flatMap escape ++ '"' :: r) = some (t, r) := by
  induction t generalizing n with
  | nil =>
      cases n with
      | zero => exact absurd ht (Nat.not_lt_zero _)
      | succ n => rfl
  | cons c t ih =>
      cases n with
      | zero => exact absurd ht (Nat.not_lt_zero _)
      | succ n =>
          have hrest := ih (Nat.lt_of_succ_lt_succ ht)
          have hfirst := character?_escape c (t.flatMap escape ++ '"' :: r)
          obtain ⟨d, u, hd, hquote⟩ := escape_cons c
          rw [hd] at hfirst
          rw [List.flatMap_cons, List.append_assoc, hd, List.cons_append, charactersFrom,
            if_neg hquote]
          rw [List.cons_append] at hfirst
          rw [hfirst]
          simp [hrest]

theorem length_le_escaped (t : Text) : t.length ≤ (t.flatMap escape).length := by
  induction t with
  | nil => exact Nat.le_refl 0
  | cons c t ih =>
      obtain ⟨d, u, hd, -⟩ := escape_cons c
      rw [List.flatMap_cons, hd]
      simp only [List.length_append, List.length_cons]
      omega

theorem characters?_escaped (t r : Text) :
    characters? (t.flatMap escape ++ '"' :: r) = some (t, r) := by
  have hlength := length_le_escaped t
  apply charactersFrom_escaped
  rw [List.length_append, List.length_cons]
  omega

theorem dropSpace_cons (h : isSpace c = false) (t : Text) : dropSpace (c :: t) = c :: t := by
  rw [dropSpace, List.dropWhile_cons, if_neg (Bool.eq_false_iff.mp h)]

theorem isLiteralChar_of_isPart (h : Numeral.isPart c = true) : isLiteralChar c = true := by
  simp only [Numeral.isPart, isDigit_eq, Bool.or_eq_true, decide_eq_true_eq, List.mem_cons,
    List.not_mem_nil, or_false] at h
  rcases h with h | rfl | rfl | rfl | rfl
  · rw [isLiteralChar, Char.isAlphanum, h, Bool.or_true, Bool.true_or]
  all_goals decide

structure IsLiteral (word : Text) (v : Tree) : Prop where
  chars : ∀ c ∈ word, isLiteralChar c = true
  read : literal? word = some v

theorem isLiteral_numeral {m : Numeral} (h : m.WellFormed) : IsLiteral m.text (.number m) where
  chars c hc := isLiteralChar_of_isPart (Numeral.isPart_text h c hc)
  read := by
    have hne : ∀ w : Text, Numeral.read? w = none → m.text ≠ w := by
      rintro w hw rfl
      rw [Numeral.read?_text h] at hw
      cases hw
    rw [literal?, if_neg (hne _ rfl), if_neg (hne _ rfl), if_neg (hne _ rfl),
      Numeral.read?_text h]
    rfl

theorem isLiteral_null : IsLiteral "null".toList .null := ⟨List.all_eq_true.mp rfl, rfl⟩

theorem isLiteral_bool (b : Bool) : IsLiteral (compact (.bool b)) (.bool b) := by
  cases b
  · exact ⟨List.all_eq_true.mp rfl, rfl⟩
  · exact ⟨List.all_eq_true.mp rfl, rfl⟩

theorem isLiteral_integer (i : Int) : IsLiteral (integerText i) (.number (.ofInt i)) := by
  rw [← Numeral.text_ofInt]
  exact isLiteral_numeral (Numeral.wellFormed_ofInt i)

theorem isLiteral_real (x : Float) : IsLiteral (realText x) (tree (.real x)) := by
  rw [tree]
  rcases realText_eq x with h | ⟨m, hm, h⟩
  · rw [h]
    exact isLiteral_null
  · rw [h, (isLiteral_numeral hm).read]
    exact isLiteral_numeral hm

theorem isLiteralChar_ne {d : Char} (hc : isLiteralChar c = true) (hd : isLiteralChar d = false) :
    c ≠ d := by
  rintro rfl
  rw [hc] at hd
  cases hd

theorem isSpace_of_literal (hc : isLiteralChar c = true) : isSpace c = false := by
  have hne : ∀ d, isLiteralChar d = false → c ≠ d := fun _ => isLiteralChar_ne hc
  simp only [isSpace, List.mem_cons, List.not_mem_nil, or_false, decide_eq_false_iff_not, not_or]
  exact ⟨hne ' ' rfl, hne '\t' rfl, hne '\n' rfl, hne '\r' rfl⟩

theorem IsLiteral.head {word : Text} {v : Tree} (h : IsLiteral word v) :
    ∃ c u, word = c :: u ∧ isLiteralChar c = true := by
  cases word with
  | nil => cases h.read
  | cons c u => exact ⟨c, u, rfl, h.chars c List.mem_cons_self⟩

theorem value?_literal {word : Text} {v : Tree} (h : IsLiteral word v)
    (hr : EndsRun isLiteralChar r) : value? (n + 1) (word ++ r) = some (v, r) := by
  have hspan := span_append h.chars hr
  rw [List.span_eq_takeWhile_dropWhile, Prod.mk.injEq] at hspan
  have hread := h.read
  obtain ⟨c, u, rfl, hc⟩ := h.head
  rw [List.cons_append] at hspan ⊢
  rw [value?, dropSpace_cons (isSpace_of_literal hc)]
  split
  next h => exact absurd (List.cons.inj h).1 (isLiteralChar_ne hc rfl)
  next h => exact absurd (List.cons.inj h).1 (isLiteralChar_ne hc rfl)
  next h => exact absurd (List.cons.inj h).1 (isLiteralChar_ne hc rfl)
  next => rw [hspan.1, hspan.2, hread, Option.map_some]

def BeginsItem (t : Text) : Prop := ∃ c u, t = c :: u ∧ isSpace c = false ∧ c ≠ ']'

theorem beginsItem_compact (j : Json) : BeginsItem j.compact := by
  have literal {word : Text} {v : Tree} (h : IsLiteral word v) : BeginsItem word := by
    obtain ⟨c, u, hword, hc⟩ := h.head
    exact ⟨c, u, hword, isSpace_of_literal hc, isLiteralChar_ne hc rfl⟩
  cases j with
  | null => exact literal isLiteral_null
  | bool b => exact literal (isLiteral_bool b)
  | integer i => exact literal (isLiteral_integer i)
  | real x => exact literal (isLiteral_real x)
  | string t => exact ⟨'"', _, rfl, by decide, by decide⟩
  | array vs => exact ⟨'[', _, rfl, by decide, by decide⟩
  | object ms => exact ⟨'\x7b', _, rfl, by decide, by decide⟩

theorem BeginsItem.append (h : BeginsItem t) (r : Text) : BeginsItem (t ++ r) := by
  obtain ⟨c, u, rfl, hc⟩ := h
  exact ⟨c, u ++ r, rfl, hc⟩

theorem compactItems_cons (v w : Json) (vs : List Json) :
    compactItems (v :: w :: vs) = v.compact ++ ',' :: compactItems (w :: vs) := rfl

theorem compactMembers_cons (k : Text) (v : Json) (m : Text × Json) (ms : List (Text × Json)) :
    compactMembers ((k, v) :: m :: ms) =
      stringText k ++ ':' :: (v.compact ++ ',' :: compactMembers (m :: ms)) := rfl

theorem beginsItem_compactItems (v : Json) (vs : List Json) :
    BeginsItem (compactItems (v :: vs)) := by
  cases vs with
  | nil => exact beginsItem_compact v
  | cons w vs => exact (beginsItem_compact v).append _

theorem compactMembers_head (k : Text) (v : Json) (ms : List (Text × Json)) :
    ∃ u, compactMembers ((k, v) :: ms) = '"' :: u := by
  cases ms with
  | nil => exact ⟨_, rfl⟩
  | cons m ms => exact ⟨_, rfl⟩

theorem value?_items {vs : List Tree} {t : Text} (h : items? n t = some (vs, r))
    (ht : BeginsItem t) :
    value? (n + 1) ('[' :: t) = some (.array vs, r) := by
  obtain ⟨c, u, rfl, hspace, hc⟩ := ht
  rw [value?, dropSpace_cons (by decide)]
  simp only [dropSpace_cons hspace]
  split
  next h => exact absurd (List.cons.inj h).1 hc
  next => rw [h, Option.map_some]

theorem value?_members {ms : List (Text × Tree)} {u : Text}
    (h : members? n ('"' :: u) = some (ms, r)) :
    value? (n + 1) ('{' :: '"' :: u) = some (.object ms, r) := by
  rw [value?, dropSpace_cons (by decide)]
  simp only [dropSpace_cons (show isSpace '"' = false by decide)]
  change (members? n ('"' :: u)).map _ = _
  rw [h, Option.map_some]

theorem items?_step {v : Tree} (h : value? n t = some (v, r)) :
    items? (n + 1) t =
      match dropSpace r with
      | ',' :: t => (items? n t).map fun (vs, r) => (v :: vs, r)
      | ']' :: t => some ([v], t)
      | _ => none := by
  rw [items?, h]
  rfl

theorem members?_step {v : Tree} {k : Text} (h : value? n t = some (v, r)) :
    members? (n + 1) (stringText k ++ ':' :: t) =
      match dropSpace r with
      | ',' :: t => (members? n t).map fun (ms, r) => ((k, v) :: ms, r)
      | '}' :: t => some ([(k, v)], t)
      | _ => none := by
  rw [stringText, List.append_assoc, List.cons_append, List.singleton_append, members?,
    dropSpace_cons (by decide)]
  simp only [expect?, if_true, Option.bind_eq_bind, Option.bind_some, characters?_escaped,
    dropSpace_cons (show isSpace ':' = false by decide), h]

mutual

/-- In front of anything that does not go on with a word, the text of a value is read as what it
tells. -/
theorem value?_compact : ∀ (j : Json) {n : Nat} {r : Text}, 2 * j.compact.length < n →
    EndsRun isLiteralChar r → value? n (j.compact ++ r) = some (j.tree, r)
  | j, 0, _, hn, _ => absurd hn (Nat.not_lt_zero _)
  | .null, _ + 1, _, _, hr => value?_literal isLiteral_null hr
  | .bool b, _ + 1, _, _, hr => value?_literal (isLiteral_bool b) hr
  | .integer i, _ + 1, _, _, hr => value?_literal (isLiteral_integer i) hr
  | .real x, _ + 1, _, _, hr => value?_literal (isLiteral_real x) hr
  | .string t, _ + 1, r, _, _ => by
      rw [compact, stringText, List.append_assoc, List.cons_append, value?,
        dropSpace_cons (by decide), List.singleton_append]
      simp only [characters?_escaped, Option.map_some, tree]
  | .array [], _ + 1, _, _, _ => rfl
  | .array (v :: vs), n + 1, r, hn, _ => by
      simp only [compact, List.length_append, List.length_cons, List.length_nil] at hn
      have hitems := items?_compact v vs (n := n) (r := r) (by omega)
      rw [compact, List.append_assoc, List.cons_append, List.singleton_append, tree]
      exact value?_items hitems ((beginsItem_compactItems v vs).append _)
  | .object [], _ + 1, _, _, _ => rfl
  | .object ((k, v) :: ms), n + 1, r, hn, _ => by
      simp only [compact, List.length_append, List.length_cons, List.length_nil] at hn
      obtain ⟨u, hhead⟩ := compactMembers_head k v ms
      have hmembers := members?_compact k v ms (n := n) (r := r) (by omega)
      rw [compact, List.append_assoc, List.cons_append, List.singleton_append, tree]
      rw [hhead, List.cons_append] at hmembers ⊢
      exact value?_members hmembers

theorem items?_compact : ∀ (v : Json) (vs : List Json) {n : Nat} {r : Text},
    2 * (compactItems (v :: vs)).length + 1 < n →
      items? n (compactItems (v :: vs) ++ ']' :: r) = some (treeItems (v :: vs), r)
  | _, _, 0, _, hn => absurd hn (Nat.not_lt_zero _)
  | v, [], n + 1, r, hn => by
      simp only [compactItems] at hn
      have hv := value?_compact v (n := n) (r := ']' :: r) (by omega) (endsRun_cons rfl r)
      rw [compactItems, items?_step hv, dropSpace_cons (by decide)]
      rfl
  | v, w :: vs, n + 1, r, hn => by
      simp only [compactItems_cons, List.length_append, List.length_cons] at hn
      have hv := value?_compact v (n := n) (r := ',' :: (compactItems (w :: vs) ++ ']' :: r))
        (by omega) (endsRun_cons rfl _)
      have hvs := items?_compact w vs (n := n) (r := r) (by omega)
      rw [compactItems_cons, List.append_assoc, List.cons_append, items?_step hv,
        dropSpace_cons (by decide)]
      simp only [hvs, Option.map_some]
      rfl

theorem members?_compact : ∀ (k : Text) (v : Json) (ms : List (Text × Json)) {n : Nat} {r : Text},
    2 * (compactMembers ((k, v) :: ms)).length < n →
      members? n (compactMembers ((k, v) :: ms) ++ '}' :: r) =
        some (treeMembers ((k, v) :: ms), r)
  | _, _, _, 0, _, hn => absurd hn (Nat.not_lt_zero _)
  | k, v, [], n + 1, r, hn => by
      simp only [compactMembers, List.length_append, List.length_cons] at hn
      have hv := value?_compact v (n := n) (r := '}' :: r) (by omega) (endsRun_cons rfl r)
      rw [compactMembers, List.append_assoc, List.cons_append, members?_step hv,
        dropSpace_cons (by decide)]
      rfl
  | k, v, (k', v') :: ms, n + 1, r, hn => by
      simp only [compactMembers_cons, List.length_append, List.length_cons] at hn
      have hv := value?_compact v (n := n)
        (r := ',' :: (compactMembers ((k', v') :: ms) ++ '}' :: r)) (by omega) (endsRun_cons rfl _)
      have hms := members?_compact k' v' ms (n := n) (r := r) (by omega)
      rw [compactMembers_cons, List.append_assoc, List.cons_append, List.append_assoc,
        List.cons_append, members?_step hv, dropSpace_cons (by decide)]
      simp only [hms, Option.map_some]
      rfl

end

theorem decode_compact (j : Json) : decode j.compact = some j.tree := by
  have hread := value?_compact j (n := 2 * j.compact.length + 1) (r := []) (Nat.lt_succ_self _)
    (by rintro c ⟨⟩)
  rw [List.append_nil] at hread
  rw [decode, hread]
  rfl

theorem newline_not_mem_escape (c : Char) : '\n' ∉ escape c := by
  have hdigits : ∀ n < 0x20, '\n' ∉ Decimal.padStart 2 '0' (Nat.toDigits 16 n) := by decide
  rw [escape]
  split_ifs with _ _ _ _ hnewline _ _ hcontrol
  any_goals decide
  · exact List.not_mem_append (by decide) (hdigits c.toNat hcontrol)
  · exact fun h => hnewline (List.mem_singleton.mp h).symm

theorem newline_not_mem_string (t : Text) : '\n' ∉ stringText t := by
  have hinner : '\n' ∉ t.flatMap escape := by
    intro h
    obtain ⟨c, -, hc⟩ := List.mem_flatMap.mp h
    exact newline_not_mem_escape c hc
  simp [stringText, hinner]

theorem IsLiteral.newline_not_mem {word : Text} {v : Tree} (h : IsLiteral word v) :
    '\n' ∉ word := fun hmem => by
  have hchar := h.chars '\n' hmem
  exact absurd hchar (by decide)

mutual

theorem newline_not_mem_compact : ∀ j : Json, '\n' ∉ j.compact
  | .null => isLiteral_null.newline_not_mem
  | .bool b => (isLiteral_bool b).newline_not_mem
  | .integer i => (isLiteral_integer i).newline_not_mem
  | .real x => (isLiteral_real x).newline_not_mem
  | .string t => newline_not_mem_string t
  | .array vs => by simp [compact, newline_not_mem_items vs]
  | .object ms => by simp [compact, newline_not_mem_members ms]

theorem newline_not_mem_items : ∀ vs : List Json, '\n' ∉ compactItems vs
  | [] => List.not_mem_nil
  | [v] => newline_not_mem_compact v
  | v :: w :: vs => by
      simp [compactItems_cons, newline_not_mem_compact v, newline_not_mem_items (w :: vs)]

theorem newline_not_mem_members : ∀ ms : List (Text × Json), '\n' ∉ compactMembers ms
  | [] => List.not_mem_nil
  | [(k, v)] => by simp [compactMembers, newline_not_mem_string k, newline_not_mem_compact v]
  | (k, v) :: m :: ms => by
      simp [compactMembers_cons, newline_not_mem_string k, newline_not_mem_compact v,
        newline_not_mem_members (m :: ms)]

end

end SlowQuery.Json
