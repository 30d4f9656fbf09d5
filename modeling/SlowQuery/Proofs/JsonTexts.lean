import SlowQuery.Proofs.Joining
import SlowQuery.Proofs.JsonNumbers
import SlowQuery.Proofs.JsonObjects
import SlowQuery.Proofs.Numerals
import SlowQuery.Proofs.Rendering

namespace SlowQuery

namespace Json

open Text

/-- In JSON text, only a double quote in it is escaped. -/
def PlainText (t : Text) : Prop := ∀ c ∈ t, c ≠ '\\' ∧ 0x20 ≤ c.toNat

instance (t : Text) : Decidable (PlainText t) := List.decidableBAll _ t

/-- Integers of 64 bits, texts without backslashes and control characters, and no floating
numbers. -/
inductive Representable : Json → Prop
  | null : Representable .null
  | bool (b : Bool) : Representable (.bool b)
  | integer {n : Int} (low : -9223372036854775808 ≤ n) (high : n < 18446744073709551616) :
      Representable (.integer n)
  | string {t : Text} (plain : PlainText t) : Representable (.string t)
  | array {vs : List Json} (items : ∀ v ∈ vs, Representable v) : Representable (.array vs)
  | object {ms : List (Text × Json)} (distinct : Distinct ms) (names : ∀ m ∈ ms, PlainText m.1)
      (values : ∀ m ∈ ms, Representable m.2) : Representable (.object ms)

variable {c : Char} {t : Text}

theorem escape_plain (hc : c ≠ '\\' ∧ 0x20 ≤ c.toNat) :
    escape c = if c = '"' then ['\\', '"'] else [c] := by
  have hne : ∀ d : Char, d.toNat < 0x20 → c ≠ d := by
    rintro d hd rfl
    exact absurd hd (Nat.not_lt.mpr hc.2)
  rw [escape]
  split
  · rfl
  · rw [if_neg hc.1, if_neg (hne '\x08' (by decide)), if_neg (hne '\x0c' (by decide)),
      if_neg (hne '\n' (by decide)), if_neg (hne '\r' (by decide)), if_neg (hne '\t' (by decide)),
      if_neg (Nat.not_lt.mpr hc.2)]

theorem flatMap_escape (h : PlainText t) (hq : '"' ∉ t) : t.flatMap escape = t := by
  induction t with
  | nil => rfl
  | cons c t ih =>
      obtain ⟨hc, ht⟩ := List.forall_mem_cons.mp h
      rw [List.mem_cons, not_or] at hq
      rw [List.flatMap_cons, escape_plain hc, if_neg (Ne.symm hq.1), ih ht hq.2,
        List.singleton_append]

theorem backslash_mem_escaped (h : '"' ∈ t) : '\\' ∈ t.flatMap escape :=
  List.mem_flatMap.mpr ⟨'"', h, by decide⟩

theorem eq_joinWith {α : Type} {f : List α → Text} {g : α → Text} (nil : f [] = [])
    (one : ∀ a, f [a] = g a) (more : ∀ a b as, f (a :: b :: as) = g a ++ ',' :: f (b :: as))
    (as : List α) : f as = joinWith [','] (as.map g) := by
  induction as with
  | nil => exact nil
  | cons a as ih =>
      cases as with
      | nil => exact (one a).trans (by simp [joinWith])
      | cons b as =>
          rw [more, ih, joinWith, joinWith, List.map_cons, List.map_cons, List.map_cons,
            List.intercalate_cons_cons]
          simp

theorem compactItems_eq (vs : List Json) : compactItems vs = joinWith [','] (vs.map compact) :=
  eq_joinWith rfl (fun _ => rfl) (fun _ _ _ => rfl) vs

theorem compactMembers_eq (ms : List (Text × Json)) :
    compactMembers ms = joinWith [','] (ms.map fun m => stringText m.1 ++ ':' :: compact m.2) :=
  eq_joinWith rfl (fun _ => rfl) (fun _ _ _ => by simp [compactMembers]) ms

theorem prettyItems_eq (level : Nat) (vs : List Json) :
    prettyItems level vs = joinWith [','] (vs.map fun v => newline level ++ pretty level v) :=
  eq_joinWith rfl (fun _ => rfl) (fun _ _ _ => rfl) vs

theorem prettyMembers_eq (level : Nat) (ms : List (Text × Json)) :
    prettyMembers level ms = joinWith [','] (ms.map fun m =>
      newline level ++ (stringText m.1 ++ ':' :: ' ' :: pretty level m.2)) :=
  eq_joinWith rfl (fun _ => by simp [prettyMembers])
    (fun _ _ _ => by simp [prettyMembers]) ms

end Json

namespace Payload

open Text Json

variable {t u k : Text} {v : Value} {j : Json} {c : Char}

theorem encloses_escaped (h : PlainText t) : encloses '"' false (t.flatMap Json.escape) = true := by
  induction t with
  | nil => rfl
  | cons c t ih =>
      obtain ⟨hc, ht⟩ := List.forall_mem_cons.mp h
      rw [List.flatMap_cons, escape_plain hc]
      split
      · exact ih ht
      next hq => simp [encloses, hc.1, hq, ih ht]

theorem replace_escaped (h : PlainText t) :
    replace ['\\', '"'] ['"'] (t.flatMap Json.escape) = t := by
  rw [replace]
  induction t with
  | nil => rfl
  | cons c t ih =>
      obtain ⟨hc, ht⟩ := List.forall_mem_cons.mp h
      rw [List.flatMap_cons, escape_plain hc]
      split
      next hq => rw [replaceFrom_found (List.cons_ne_nil _ _), ih ht, hq, List.singleton_append]
      next =>
        have hclear : Clear ['\\', '"'] [c] (t.flatMap Json.escape) :=
          clear_of_not_mem fun h => hc.1 (List.mem_singleton.mp h).symm
        rw [replaceFrom_clear hclear, ih ht, List.singleton_append]

theorem unquote_quoted (inner : Text) :
    unquote ('"' :: inner ++ ['"']) =
      replace ['\\', '\''] ['\''] (replace ['\\', '"'] ['"'] inner) := by
  have hends : endsWith ['"'] ('"' :: inner ++ ['"']) = true :=
    List.isSuffixOf_iff_suffix.mpr (List.suffix_append ('"' :: inner) ['"'])
  have hinner : (('"' :: inner ++ ['"']).drop 1).dropLast = inner := by simp
  obtain ⟨d, u, hu⟩ := List.exists_cons_of_ne_nil (l := inner ++ ['"']) (by simp)
  rw [List.cons_append, hu] at hends hinner ⊢
  simp only [unquote, hends, if_true, hinner]

theorem unquote_bare (h : ∀ c u, t = c :: u → isQuote c = false) : unquote t = t := by
  unfold unquote
  dsimp only
  split
  next => exact absurd (h _ _ rfl) (by decide)
  next => exact absurd (h _ _ rfl) (by decide)
  next => rw [if_neg Bool.false_ne_true]

theorem unquote_stringText (h : PlainText t) : unquote (stringText t) = t := by
  have hslash : '\\' ∉ t := fun hmem => (h _ hmem).1 rfl
  rw [stringText, unquote_quoted, replace_escaped h, replace_absent hslash]

theorem unquote_plainKey (h : PlainText k) : unquote (plainKey (stringText k)) = k := by
  rw [plainKey]
  split
  next hplain =>
    have hinner : ((stringText k).drop 1).dropLast = k.flatMap Json.escape := by simp [stringText]
    rw [hinner] at hplain ⊢
    simp only [Bool.and_eq_true, Bool.not_eq_true', List.any_eq_false, Bool.not_eq_true] at hplain
    have hquote : '"' ∉ k := by
      intro hmem
      have hneeds := hplain.2 '\\' (backslash_mem_escaped hmem)
      exact absurd hneeds (by decide)
    have hbare := isBareKey_of_safe hplain.2
    rw [unquote_bare hbare.unquoted, flatMap_escape h hquote]
  next => exact unquote_stringText h

theorem keyText_string (h : PlainText k) : KeyText (plainKey (stringText k)) (stringText k) :=
  .quoted rfl (encloses_escaped h)

theorem literal_string (h : PlainText t) : Literal (.str (stringText t)) :=
  .str rfl (encloses_escaped h)

theorem isNumber_integerText (n : Int) : isNumber (integerText n) = true := by
  have hdigits : ∀ c ∈ ofNat n.natAbs, isDecimalDigit c = true := fun c hc =>
    isDecimalDigit_of_isDigit (isDigit_of_mem_ofNat hc)
  have hspan := span_append (r := []) hdigits (by rintro c ⟨⟩)
  obtain ⟨d, ds, hd⟩ := List.exists_cons_of_ne_nil (ofNat_ne_nil n.natAbs)
  have hunsigned : isUnsignedNumber (ofNat n.natAbs) = true := by
    rw [List.append_nil] at hspan
    rw [isUnsignedNumber, hspan, hd]
    rfl
  rw [integerText]
  split
  · exact hunsigned
  · have hminus : d ≠ '-' := by
      rintro rfl
      exact absurd (hdigits '-' (by rw [hd]; exact List.mem_cons_self)) (by decide)
    rw [hd] at hunsigned ⊢
    unfold isNumber
    split
    next h => exact absurd (List.cons.inj h).1 hminus
    next => exact hunsigned

theorem literal_null : Literal (.bare "null".toList) := by
  have hread : Scalar.ofWord "null".toList = .bare "null".toList := by decide
  rw [← hread]
  exact .word ⟨rfl, ⟨'n', "ull".toList, rfl, by decide, by decide, by decide⟩,
    endsSolid_concat "nul".toList (by decide)⟩

/-- The document holds the value, and both layouts of the value are ways to write it. -/
structure Carries (v : Value) (j : Json) : Prop where
  toJson : v.toJson = j.ordered
  compact : Written (.value v) j.compact
  pretty (level : Nat) : Written (.value v) (j.pretty level)

theorem blank_newline (level : Nat) : Blank (newline level) := by
  refine List.forall_mem_cons.mpr ⟨by decide, fun c hc => ?_⟩
  rw [List.eq_of_mem_replicate hc]
  rfl

section

variable {a d : Text} {w : Json → Text} {f : Text × Json → Value} {g : Json → Value}
variable {ms : List (Text × Json)} {vs : List Json}

theorem written_joinedItems (ha : Blank a) (hd : Blank d) (hvs : vs ≠ [])
    (h : ∀ v ∈ vs, Written (.value (g v)) (w v)) :
    Written (.items (vs.map g)) (joinWith [','] (vs.map fun v => a ++ w v) ++ (d ++ [']'])) := by
  induction vs with
  | nil => exact absurd rfl hvs
  | cons v vs ih =>
      obtain ⟨hv, h⟩ := List.forall_mem_cons.mp h
      cases vs with
      | nil => simpa [joinWith] using Written.lastItem ha hv hd
      | cons v' vs =>
          have hrest := ih (List.cons_ne_nil v' vs) h
          have hitem := Written.item ha hv blank_nil hrest
          simpa [joinWith, List.intercalate_cons_cons] using hitem

theorem written_joinedMembers {b : Text} (ha : Blank a) (hb : Blank b) (hd : Blank d)
    (hms : ms ≠ []) (hk : ∀ m ∈ ms, PlainText m.1) (h : ∀ m ∈ ms, Written (.value (f m)) (w m.2)) :
    Written (.members (ms.map fun m => (plainKey (stringText m.1), f m)))
      (joinWith [','] (ms.map fun m => a ++ (stringText m.1 ++ ':' :: (b ++ w m.2))) ++
        (d ++ ['}'])) := by
  induction ms with
  | nil => exact absurd rfl hms
  | cons m ms ih =>
      obtain ⟨hm, hk⟩ := List.forall_mem_cons.mp hk
      obtain ⟨hv, h⟩ := List.forall_mem_cons.mp h
      have hkey := keyText_string hm
      cases ms with
      | nil => simpa [joinWith] using Written.lastMember ha hkey blank_nil hb hv hd
      | cons m' ms =>
          have hrest := ih (List.cons_ne_nil m' ms) hk h
          have hmember := Written.member ha hkey blank_nil hb hv blank_nil hrest
          simpa [joinWith, List.intercalate_cons_cons] using hmember

theorem itemJsons_map (h : ∀ v ∈ vs, Carries (g v) v) :
    Value.itemJsons (vs.map g) = orderedItems vs := by
  induction vs with
  | nil => rfl
  | cons v vs ih =>
      obtain ⟨hv, h⟩ := List.forall_mem_cons.mp h
      rw [List.map_cons, Value.itemJsons, orderedItems, hv.toJson, ih h]

theorem memberJsons_map (hk : ∀ m ∈ ms, PlainText m.1) (h : ∀ m ∈ ms, Carries (f m) m.2) :
    Value.memberJsons (ms.map fun m => (plainKey (stringText m.1), f m)) = orderedMembers ms := by
  induction ms with
  | nil => rfl
  | cons m ms ih =>
      obtain ⟨hm, hk⟩ := List.forall_mem_cons.mp hk
      obtain ⟨hv, h⟩ := List.forall_mem_cons.mp h
      rw [List.map_cons, Value.memberJsons, orderedMembers, unquote_plainKey hm, hv.toJson, ih hk h]

theorem carries_array (h : ∀ v ∈ vs, Carries (g v) v) :
    Carries (.array (vs.map g)) (.array vs) := by
  refine ⟨by rw [Value.toJson, itemJsons_map h, ordered], ?_, fun level => ?_⟩
  · rw [Json.compact, compactItems_eq]
    cases vs with
    | nil => exact .emptyArray blank_nil
    | cons v vs =>
        have hitems := written_joinedItems blank_nil blank_nil (List.cons_ne_nil v vs)
          fun v hv => (h v hv).compact
        exact .array hitems
  · cases vs with
    | nil => exact .emptyArray blank_nil
    | cons v vs =>
        have hitems := written_joinedItems (blank_newline (level + 1)) (blank_newline level)
          (List.cons_ne_nil v vs) fun v hv => (h v hv).pretty (level + 1)
        rw [← prettyItems_eq] at hitems
        simpa [Json.pretty] using Written.array hitems

theorem carries_object (hd : Distinct ms) (hk : ∀ m ∈ ms, PlainText m.1)
    (h : ∀ m ∈ ms, Carries (f m) m.2) :
    Carries (.object (ms.map fun m => (plainKey (stringText m.1), f m))) (.object ms) := by
  refine ⟨?_, ?_, fun level => ?_⟩
  · rw [Value.toJson, memberJsons_map hk h, ofMembers_eq hd.ordered, ordered]
  · rw [Json.compact, compactMembers_eq]
    cases ms with
    | nil => exact .emptyObject blank_nil
    | cons m ms =>
        have hmembers := written_joinedMembers blank_nil blank_nil blank_nil
          (List.cons_ne_nil m ms) hk fun m hm => (h m hm).compact
        exact .object hmembers
  · cases ms with
    | nil => exact .emptyObject blank_nil
    | cons m ms =>
        have hmembers := written_joinedMembers (blank_newline (level + 1)) blank_space
          (blank_newline level) (List.cons_ne_nil m ms) hk fun m hm => (h m hm).pretty (level + 1)
        simp only [List.singleton_append] at hmembers
        rw [← prettyMembers_eq] at hmembers
        simpa [Json.pretty] using Written.object hmembers

end

theorem carries_scalar {s : Scalar} (h : Literal s) (hj : s.toJson = j.ordered)
    (hc : j.compact = s.render) (hp : ∀ level, j.pretty level = s.render) :
    Carries (.scalar s) j :=
  ⟨hj, hc ▸ .scalar h, fun level => hp level ▸ .scalar h⟩

/-- There is a document that holds the value and that both of its layouts are read as. -/
theorem exists_carries (h : Representable j) : ∃ v, Carries v j := by
  induction h with
  | null => exact ⟨_, carries_scalar literal_null rfl rfl fun _ => rfl⟩
  | bool b =>
      refine ⟨_, carries_scalar (literal_bool b) rfl ?_ fun level => ?_⟩ <;> cases b <;> rfl
  | @integer n low high =>
      have hjson : (Scalar.number (integerText n)).toJson = .integer n := by
        rw [Scalar.toJson, number?_integerText low high, Option.getD_some]
      exact ⟨_, carries_scalar (literal_number (isNumber_integerText n)) hjson rfl fun _ => rfl⟩
  | string plain =>
      have hjson := congrArg Json.string (unquote_stringText plain)
      exact ⟨_, carries_scalar (literal_string plain) hjson rfl fun _ => rfl⟩
  | array _ ih =>
      choose! g hg using ih
      exact ⟨_, carries_array hg⟩
  | object distinct names _ ih =>
      choose! f hf using ih
      exact ⟨_, carries_object distinct names hf⟩

end Payload

end SlowQuery
