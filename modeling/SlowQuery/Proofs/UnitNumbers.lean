import SlowQuery.Proofs.Forgetting
import SlowQuery.Proofs.Joining
import SlowQuery.Proofs.Numerals
import Mathlib.Data.List.Forall2
import Mathlib.Data.List.SplitBy

namespace SlowQuery.Shape

open Text Payload

def unitText : Text := "1.0".toList

def isFigure (c : Char) : Bool := c.isDigit || c = '.'

def alike (c d : Char) : Bool := isFigure c == isFigure d

/-- The longest pieces of a text in which all characters are figures or none is. -/
def runs (t : Text) : List Text := t.splitBy alike

def foldRun (r : Text) : Text := if r = unitText then ['1'] else r

/-- The text with the numeral `1.0` written as an integer, wherever it stands apart from other
figures. -/
def foldRuns (t : Text) : Text := (runs t).flatMap foldRun

/-- The numbers `1.0` and `-1.0` are integers in the second value, in which all else is the same. -/
inductive UnitsFolded : Value → Value → Prop
  | one : UnitsFolded (.scalar (.number "1.0".toList)) (.scalar (.number "1".toList))
  | minusOne : UnitsFolded (.scalar (.number "-1.0".toList)) (.scalar (.number "-1".toList))
  | other {s : Scalar} (h : s ≠ .number "1.0".toList) (hm : s ≠ .number "-1.0".toList) :
      UnitsFolded (.scalar s) (.scalar s)
  | elided : UnitsFolded .elided .elided
  | array {vs ws : List Value} (h : List.Forall₂ UnitsFolded vs ws) :
      UnitsFolded (.array vs) (.array ws)
  | object {ms ns : List (Text × Value)} (hk : ms.map (·.1) = ns.map (·.1))
      (hv : List.Forall₂ UnitsFolded (ms.map (·.2)) (ns.map (·.2))) :
      UnitsFolded (.object ms) (.object ns)

variable {c : Char} {r t : Text} {s : Scalar} {v : Value} {rs : List Text}

section Trees

theorem foldUnit_cases (s : Scalar) :
    (s = .number "1.0".toList ∧ foldUnit s = .number ['1']) ∨
      (s = .number "-1.0".toList ∧ foldUnit s = .number ['-', '1']) ∨
      (s ≠ .number "1.0".toList ∧ s ≠ .number "-1.0".toList ∧ foldUnit s = s) := by
  cases s with
  | number raw =>
      simp only [foldUnit, Scalar.number.injEq, ne_eq]
      split
      next h => exact .inl ⟨h, rfl⟩
      next h =>
        split
        next hm => exact .inr (.inl ⟨hm, rfl⟩)
        next hm => exact .inr (.inr ⟨h, hm, rfl⟩)
  | str | bool | date | handle | regex | redacted | bare | placeholder =>
      exact .inr (.inr ⟨nofun, nofun, rfl⟩)

theorem unitsFolded_mapScalars (v : Value) : UnitsFolded v (v.mapScalars foldUnit) := by
  induction v using Value.induct with
  | object ms ih =>
      rw [Value.mapScalars, mapMembers_eq]
      refine .object (by simp) ?_
      rw [List.map_map, List.forall₂_map_left_iff, List.forall₂_map_right_iff, List.forall₂_same]
      exact ih
  | array vs ih =>
      rw [Value.mapScalars, mapItems_eq]
      refine .array ?_
      rw [List.forall₂_map_right_iff, List.forall₂_same]
      exact ih
  | elided => exact .elided
  | scalar s =>
      rw [Value.mapScalars]
      rcases foldUnit_cases s with ⟨rfl, -⟩ | ⟨rfl, -⟩ | ⟨h, hm, hs⟩
      · exact .one
      · exact .minusOne
      · rw [hs]
        exact .other h hm

theorem literal_minusOne : Literal (.number ['-', '1']) := literal_number (by decide)

theorem literal_foldUnit (h : Literal s) : Literal (foldUnit s) := by
  rcases foldUnit_cases s with ⟨-, hs⟩ | ⟨-, hs⟩ | ⟨-, -, hs⟩ <;> rw [hs]
  · exact literal_one
  · exact literal_minusOne
  · exact h

theorem legible_mapScalars {f : Scalar → Scalar} (hf : ∀ s, Literal s → Literal (f s))
    (h : Legible v) : Legible (v.mapScalars f) := by
  induction h with
  | scalar h => exact .scalar (hf _ h)
  | array _ ih =>
      rw [Value.mapScalars, mapItems_eq]
      refine .array fun x hx => ?_
      obtain ⟨v, hv, rfl⟩ := List.mem_map.mp hx
      exact ih v hv
  | object hk _ ih =>
      rw [Value.mapScalars, mapMembers_eq]
      refine .object (fun x hx => ?_) fun x hx => ?_
      · obtain ⟨m, hm, rfl⟩ := List.mem_map.mp hx
        exact hk m hm
      · obtain ⟨m, hm, rfl⟩ := List.mem_map.mp hx
        exact ih m hm

theorem readable_foldUnit (h : Readable v) : Readable (v.mapScalars foldUnit) := by
  rcases h with h | ⟨d, w, hw, rfl⟩
  · exact .inl (legible_mapScalars (fun _ => literal_foldUnit) h)
  · rw [Value.mapScalars]
    rcases foldUnit_cases (.ofWord w) with ⟨-, hs⟩ | ⟨-, hs⟩ | ⟨-, -, hs⟩ <;> rw [hs]
    · exact .inl (.scalar literal_one)
    · exact .inl (.scalar literal_minusOne)
    · exact .inr ⟨d, w, hw, rfl⟩

theorem stageText_of_document (h : parse t = .ok v) :
    parse (stageText t) = .ok (v.mapScalars foldUnit) := by
  rw [stageText, h]
  exact parse_render (readable_foldUnit (readable_of_parse h))

end Trees

section Runs

theorem unitText_ne_nil : unitText ≠ [] := by decide

theorem isFigure_of_mem_unitText (h : c ∈ unitText) : isFigure c = true := by
  have hall : unitText.all isFigure = true := by decide
  exact List.all_eq_true.mp hall c h

theorem alike_of_isChain (h : (c :: r).IsChain fun c d => alike c d) :
    ∀ d ∈ c :: r, isFigure d = isFigure c := by
  induction r generalizing c with
  | nil => exact List.forall_mem_singleton.mpr rfl
  | cons d r ih =>
      obtain ⟨hcd, hr⟩ := List.isChain_cons_cons.mp h
      have hcd := beq_iff_eq.mp hcd
      refine List.forall_mem_cons.mpr ⟨rfl, fun x hx => ?_⟩
      rw [ih hr x hx, hcd]

theorem replace_run (hr : ∀ d ∈ r, isFigure d = isFigure c)
    (ht : ∀ d ∈ t.head?, isFigure d ≠ isFigure c) (new : Text) :
    replace unitText new (r ++ t) = replace unitText new r ++ replace unitText new t := by
  cases hc : isFigure c with
  | false =>
      have habsent : '1' ∉ r := fun h => by
        have hfigure := hr '1' h
        rw [hc] at hfigure
        exact absurd hfigure (by decide)
      have hclear : Clear unitText r t := clear_of_not_mem habsent
      have hkept : replace unitText new r = r := replace_absent habsent _ new
      rw [hkept, replace, replaceFrom_clear hclear, replace]
  | true =>
      cases t with
      | nil => simp [replace, replaceFrom]
      | cons d t =>
          have hd : d ∉ unitText := fun h => by
            have hne := ht d rfl
            rw [hc] at hne
            exact hne (isFigure_of_mem_unitText h)
          rw [replace, replaceFrom_cut hd (Nat.zero_le _), replace, replace]

theorem replace_flatten (hne : [] ∉ rs) (halike : ∀ r ∈ rs, r.IsChain fun c d => alike c d)
    (hapart : rs.IsChain fun r q => ∃ hr hq, alike (r.getLast hr) (q.head hq) = false)
    (new : Text) :
    replace unitText new rs.flatten = rs.flatMap (replace unitText new) := by
  induction rs with
  | nil => rfl
  | cons r rs ih =>
      rw [List.mem_cons, not_or] at hne
      obtain ⟨hr, hrs⟩ := List.forall_mem_cons.mp halike
      obtain ⟨c, r, rfl⟩ := List.exists_cons_of_ne_nil (Ne.symm hne.1)
      have hfigures := alike_of_isChain hr
      rw [List.isChain_cons] at hapart
      rw [List.flatten_cons, List.flatMap_cons, ← ih hne.2 hrs hapart.2]
      refine replace_run hfigures (fun d hd => ?_) new
      -- What follows begins with the next run, whose first character is of the other kind.
      cases rs with
      | nil => cases hd
      | cons q rs =>
          obtain ⟨_, hq, hends⟩ := hapart.1 q rfl
          obtain ⟨x, q, rfl⟩ := List.exists_cons_of_ne_nil hq
          obtain rfl : x = d := Option.some.inj hd
          rw [alike, hfigures _ (List.getLast_mem _), beq_eq_false_iff_ne] at hends
          exact hends.symm

theorem replace_eq_flatMap_runs (t new : Text) :
    replace unitText new t = (runs t).flatMap (replace unitText new) := by
  obtain ⟨hflatten, hne, halike, hapart⟩ := List.splitBy_eq_iff.mp (rfl : _ = runs t)
  rw [← replace_flatten hne halike hapart, ← hflatten]

theorem length_replace_unitText (t : Text) :
    (replace unitText ['1'] t).length ≤ t.length ∧
      ((replace unitText ['1'] t).length = t.length → ¬unitText <:+: t) := by
  obtain ⟨p, ps, ht, hreplace, hparts⟩ := exists_parts unitText_ne_nil ['1'] t
  have hlength := congrArg List.length ht
  have hthree : unitText.length = 3 := rfl
  have hshort := congrArg List.length hreplace
  rw [length_joinWith] at hlength hshort
  rw [hthree] at hlength
  rw [List.length_singleton, Nat.mul_one] at hshort
  refine ⟨by omega, fun h => ?_⟩
  -- Each occurrence would cost two characters.
  obtain rfl : ps = [] := List.length_eq_zero_iff.mp (by omega)
  have htp : t = p := by simpa [joinWith] using ht
  rw [htp]
  exact hparts p List.mem_cons_self

theorem length_replace_le_foldRun (r : Text) :
    (replace unitText ['1'] r).length ≤ (foldRun r).length := by
  rw [foldRun]
  split
  next h =>
    rw [h]
    decide
  next => exact (length_replace_unitText r).1

theorem replace_eq_foldRun_iff (r : Text) :
    replace unitText ['1'] r = foldRun r ↔ (unitText <:+: r → r = unitText) := by
  rw [foldRun]
  split
  next h =>
    rw [h]
    exact iff_of_true rfl fun _ => rfl
  next h =>
    constructor
    · exact fun he hi => absurd hi ((length_replace_unitText r).2 (congrArg List.length he))
    · exact fun hunit => replace_clear (clear_of_absent unitText_ne_nil fun hi => h (hunit hi)) _

theorem length_flatMap_le {f g : Text → Text} (hle : ∀ r ∈ rs, (f r).length ≤ (g r).length) :
    (rs.flatMap f).length ≤ (rs.flatMap g).length := by
  induction rs with
  | nil => exact Nat.le_refl 0
  | cons r rs ih =>
      obtain ⟨hr, hrs⟩ := List.forall_mem_cons.mp hle
      simpa only [List.flatMap_cons, List.length_append] using Nat.add_le_add hr (ih hrs)

theorem flatMap_eq_iff {f g : Text → Text} (hle : ∀ r ∈ rs, (f r).length ≤ (g r).length) :
    rs.flatMap f = rs.flatMap g ↔ ∀ r ∈ rs, f r = g r := by
  refine ⟨fun h => ?_, List.flatMap_congr⟩
  induction rs with
  | nil => exact nofun
  | cons r rs ih =>
      obtain ⟨hr, hrs⟩ := List.forall_mem_cons.mp hle
      have hrest := length_flatMap_le hrs
      rw [List.flatMap_cons, List.flatMap_cons] at h
      have hlength := congrArg List.length h
      rw [List.length_append, List.length_append] at hlength
      obtain ⟨hhead, htail⟩ := List.append_inj h (by omega)
      exact List.forall_mem_cons.mpr ⟨hhead, ih hrs htail⟩

theorem replace_eq_foldRuns_iff (t : Text) :
    replace unitText ['1'] t = foldRuns t ↔ ∀ r ∈ runs t, unitText <:+: r → r = unitText := by
  rw [replace_eq_flatMap_runs, foldRuns, flatMap_eq_iff fun r _ => length_replace_le_foldRun r]
  exact forall₂_congr fun r _ => replace_eq_foldRun_iff r

end Runs

theorem stageText_of_fault {e : ParseError} (h : parse t = .error e) :
    stageText t = replace unitText ['1'] t := by
  rw [stageText, h]
  rfl

/-- A document is read back with its unit numbers as integers. In a text that is none, every `1.0`
becomes `1`, which changes the unit numbers alone just if no longer run of figures has a `1.0` in
it. -/
theorem stageText_folds_units (raw : Text) :
    (∀ v, parse raw = .ok v → ∃ w, parse (stageText raw) = .ok w ∧ UnitsFolded v w) ∧
    ∀ e, parse raw = .error e →
      (∃ parts, raw = joinWith unitText parts ∧ stageText raw = joinWith ['1'] parts ∧
        ∀ p ∈ parts, ¬unitText <:+: p) ∧
      (stageText raw = foldRuns raw ↔ ∀ r ∈ runs raw, unitText <:+: r → r = unitText) := by
  refine ⟨fun v hv => ⟨_, stageText_of_document hv, unitsFolded_mapScalars v⟩, fun e he => ?_⟩
  rw [stageText_of_fault he]
  obtain ⟨p, ps, hraw, hreplace, hparts⟩ := exists_parts unitText_ne_nil ['1'] raw
  exact ⟨⟨p :: ps, hraw, hreplace, hparts⟩, replace_eq_foldRuns_iff raw⟩

theorem stageText_folds_units_nested :
    let v := Value.array [.array [.scalar (.number "1.0".toList), .scalar (.str "\"1.0\"".toList)],
      .scalar (.number "-1.0".toList)]
    let read := "[[1.0, \"1.0\"], -1.0]".toList
    let broken := "[-1.0, 2.0, 1.0".toList
    parse read = .ok v ∧ (∃ w, parse (stageText read) = .ok w ∧ UnitsFolded v w) ∧
      parse broken = .error (.unexpectedEnd 15) ∧ stageText broken = "[-1, 2.0, 1".toList := by
  intro v read broken
  have hchars : read = ['[', '[', '1', '.', '0', ',', ' ', '"', '1', '.', '0', '"', ']', ',', ' ',
    '-', '1', '.', '0', ']'] := rfl
  have hread : parse read = .ok v := by
    rw [hchars]
    rfl
  have hchars' : broken = ['[', '-', '1', '.', '0', ',', ' ', '2', '.', '0', ',', ' ', '1', '.',
    '0'] := rfl
  have hbroken : parse broken = .error (.unexpectedEnd 15) := by
    rw [hchars']
    rfl
  have hruns : ∀ r ∈ runs broken, unitText <:+: r → r = unitText := by decide
  obtain ⟨-, hstage⟩ := (stageText_folds_units broken).2 _ hbroken
  exact ⟨hread, (stageText_folds_units read).1 v hread, hbroken, hstage.mpr hruns⟩

/-- In a document that is cut short, a number with `1.0` in front of other digits becomes another
number. -/
theorem numeral_shortened :
    let raw := "\x7b..., a: 1.05\x7d".toList
    parse raw = .error (.unexpected ',' 4) ∧ stageText raw = "\x7b..., a: 15\x7d".toList ∧
      foldRuns raw = raw := by
  intro raw
  have hchars : raw = ['{', '.', '.', '.', ',', ' ', 'a', ':', ' ', '1', '.', '0', '5', '}'] := rfl
  have hfault : parse raw = .error (.unexpected ',' 4) := by
    rw [hchars]
    rfl
  refine ⟨hfault, ?_, by decide⟩
  rw [stageText_of_fault hfault]
  decide

end SlowQuery.Shape
