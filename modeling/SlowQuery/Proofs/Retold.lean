import SlowQuery.Proofs.Markers
import SlowQuery.Proofs.Normal
import SlowQuery.Proofs.Scans
import SlowQuery.Record

namespace SlowQuery.Record

open Text Payload Shape

/-- A document begins behind a key of this name, where the key does not end a longer name. -/
def Offers (n : Text) (prev : Option Char) (a : Text) : Prop :=
  ∃ x b c y, a = x ++ (marker n ++ (b ++ c :: y)) ∧ (lastOf prev x).any isNameChar = false ∧
    Blank b ∧ (c = '{' ∨ c = '[')

/-- No search takes anything in the text for a nested command or for a sort. -/
structure Unmarked (a : Text) : Prop where
  command : ¬marker "command".toList <:+: a
  sort : ¬Offers "sort".toList none a

/-- Begins as a command does: a verb, and an object behind it. -/
def CommandLike (t : Text) : Prop :=
  ∃ v b x, v ≠ [] ∧ (∀ c ∈ v, isVerbChar c = true) ∧ Blank b ∧ t = v ++ ' ' :: (b ++ '{' :: x)

/-- The text of a scalar in which a search finds nothing. -/
structure Plain (u : Text) : Prop where
  closed : scanRun .outside u = .outside
  unmarked : Unmarked (u ++ [' '])
  noCommand : ¬CommandLike u

/-- The texts of two documents that differ in the contents of strings only. -/
inductive Retold : Part → Part → Text → Text → Prop
  | literal {s} (h : Literal s) (hs : Plain s.render) :
      Retold (.value (.scalar s)) (.value (.scalar s)) s.render s.render
  | string {a b} (ha : Content a) (hb : Content b) (hma : Unmarked a) (hmb : Unmarked b) :
      Retold (.value (.scalar (.str ('"' :: a ++ ['"'])))) (.value (.scalar (.str ('"' :: b ++ ['"']))))
        ('"' :: a ++ ['"']) ('"' :: b ++ ['"'])
  | emptyObject {b} (hb : Blank b) :
      Retold (.value (.object [])) (.value (.object [])) ('{' :: (b ++ ['}'])) ('{' :: (b ++ ['}']))
  | object {ms ms' t t'} (h : Retold (.members ms) (.members ms') t t') :
      Retold (.value (.object ms)) (.value (.object ms')) ('{' :: t) ('{' :: t')
  | emptyArray {b} (hb : Blank b) :
      Retold (.value (.array [])) (.value (.array [])) ('[' :: (b ++ [']'])) ('[' :: (b ++ [']']))
  | array {vs vs' t t'} (h : Retold (.items vs) (.items vs') t t') :
      Retold (.value (.array vs)) (.value (.array vs')) ('[' :: t) ('[' :: t')
  | lastMember {a k w b c v v' t t' d} (ha : Blank a) (hk : KeyText k w) (hn : IsName k)
      (hb : Blank b) (hc : Blank c) (hv : Retold (.value v) (.value v') t t') (hd : Blank d) :
      Retold (.members [(k, v)]) (.members [(k, v')])
        (a ++ (w ++ (b ++ ':' :: (c ++ (t ++ (d ++ ['}']))))))
        (a ++ (w ++ (b ++ ':' :: (c ++ (t' ++ (d ++ ['}']))))))
  | member {a k w b c v v' t t' d ms ms' u u'} (ha : Blank a) (hk : KeyText k w) (hn : IsName k)
      (hb : Blank b) (hc : Blank c) (hv : Retold (.value v) (.value v') t t') (hd : Blank d)
      (hms : Retold (.members ms) (.members ms') u u') :
      Retold (.members ((k, v) :: ms)) (.members ((k, v') :: ms'))
        (a ++ (w ++ (b ++ ':' :: (c ++ (t ++ (d ++ ',' :: u))))))
        (a ++ (w ++ (b ++ ':' :: (c ++ (t' ++ (d ++ ',' :: u'))))))
  | lastItem {c v v' t t' d} (hc : Blank c) (hv : Retold (.value v) (.value v') t t')
      (hd : Blank d) :
      Retold (.items [v]) (.items [v']) (c ++ (t ++ (d ++ [']']))) (c ++ (t' ++ (d ++ [']'])))
  | item {c v v' t t' d vs vs' u u'} (hc : Blank c) (hv : Retold (.value v) (.value v') t t')
      (hd : Blank d) (hvs : Retold (.items vs) (.items vs') u u') :
      Retold (.items (v :: vs)) (.items (v' :: vs')) (c ++ (t ++ (d ++ ',' :: u)))
        (c ++ (t' ++ (d ++ ',' :: u')))

variable {p p' : Part} {w w' : Text}

theorem encloses_content {a : Text} (ha : Content a) : encloses '"' false a = true := by
  induction a with
  | nil => rfl
  | cons c a ih =>
      obtain ⟨⟨hq, he, -⟩, ha⟩ := List.forall_mem_cons.mp ha
      simp [encloses, hq, he, ih ha]

theorem Retold.symm (h : Retold p p' w w') : Retold p' p w' w := by
  induction h with
  | literal h hs => exact .literal h hs
  | string ha hb hma hmb => exact .string hb ha hmb hma
  | emptyObject hb => exact .emptyObject hb
  | object _ ih => exact .object ih
  | emptyArray hb => exact .emptyArray hb
  | array _ ih => exact .array ih
  | lastMember ha hk hn hb hc _ hd ih => exact .lastMember ha hk hn hb hc ih hd
  | member ha hk hn hb hc _ hd _ ih ihs => exact .member ha hk hn hb hc ih hd ihs
  | lastItem hc _ hd ih => exact .lastItem hc ih hd
  | item hc _ hd _ ih ihs => exact .item hc ih hd ihs

theorem Retold.written (h : Retold p p' w w') : Written p w := by
  induction h with
  | literal h hs => exact .scalar h
  | string ha _ _ _ => exact .scalar (.str rfl (encloses_content ha))
  | emptyObject hb => exact .emptyObject hb
  | object _ ih => exact .object ih
  | emptyArray hb => exact .emptyArray hb
  | array _ ih => exact .array ih
  | lastMember ha hk _ hb hc _ hd ih => exact .lastMember ha hk hb hc ih hd
  | member ha hk _ hb hc _ hd _ ih ihs => exact .member ha hk hb hc ih hd ihs
  | lastItem hc _ hd ih => exact .lastItem hc ih hd
  | item hc _ hd _ ih ihs => exact .item hc ih hd ihs

def SamePart : Part → Part → Prop
  | .value v, .value v' => normalizeValues v = normalizeValues v' ∧ elideOperand? v = elideOperand? v'
  | .members ms, .members ms' =>
    (ms.map fun m => (m.1, normalizeUnder m.1 m.2)) = ms'.map fun m => (m.1, normalizeUnder m.1 m.2)
  | .items vs, .items vs' => vs.map normalizeValues = vs'.map normalizeValues
  | _, _ => False

theorem SamePart.under {v v' : Value} (h : SamePart (.value v) (.value v')) (k : Text) :
    normalizeUnder k v = normalizeUnder k v' := by
  rw [normalizeUnder, normalizeUnder, h.1, h.2]

theorem Retold.same (h : Retold p p' w w') : SamePart p p' := by
  induction h with
  | literal => exact ⟨rfl, rfl⟩
  | string => exact ⟨rfl, rfl⟩
  | emptyObject => exact ⟨rfl, rfl⟩
  | @object ms ms' _ _ _ ih =>
      have hkept := kept_map (f := fun m => (m.1, normalizeUnder m.1 m.2)) fun _ => rfl
      refine ⟨?_, rfl⟩
      simp only [SamePart] at ih
      rw [normalizeValues_object, normalizeValues_object, ← hkept, ← hkept, ih]
  | emptyArray => exact ⟨rfl, rfl⟩
  | array _ ih =>
      refine ⟨?_, rfl⟩
      rw [normalizeValues_array, normalizeValues_array, ih]
  | lastMember _ _ _ _ _ _ _ ih => exact congrArg (fun v => [(_, v)]) (ih.under _)
  | member _ _ _ _ _ _ _ _ ih ihs =>
      simp only [SamePart, List.map_cons]
      rw [ih.under, ihs]
  | lastItem _ _ _ ih => exact congrArg (fun v => [v]) ih.1
  | item _ _ _ _ ih ihs =>
      simp only [SamePart, List.map_cons]
      rw [ih.1, ihs]

theorem scanRun_blank {b : Text} (hb : Blank b) : scanRun .outside b = .outside :=
  scanRun_of_no_quote (hb.not_mem (by decide))

theorem key_cases {k w : Text} (hk : KeyText k w) (hn : IsName k) :
    w = k ∨ ∃ q, isQuote q = true ∧ w = q :: (k ++ [q]) := by
  cases hk with
  | bare => exact .inl rfl
  | @quoted q inner hq h =>
      rcases plainKey_cases q inner with ⟨hp, -⟩ | hp
      · rw [hp]
        exact .inr ⟨q, hq, rfl⟩
      · rw [hp] at hn
        have hc := hn.chars q List.mem_cons_self
        simp only [isQuote, Bool.or_eq_true, decide_eq_true_eq] at hq
        rcases hq with rfl | rfl <;> exact absurd hc (by decide)

theorem content_name {k : Text} (hn : IsName k) : Content k := by
  intro c hc
  have hname := hn.chars c hc
  refine ⟨?_, ?_, ?_⟩ <;> rintro rfl <;> exact absurd hname (by decide)

theorem scanRun_key {k w : Text} (hk : KeyText k w) (hn : IsName k) :
    scanRun .outside w = .outside := by
  have hclear : '"' ∉ k := fun h => (content_name hn _ h).1 rfl
  rcases key_cases hk hn with rfl | ⟨q, hq, rfl⟩
  · exact scanRun_of_no_quote hclear
  · by_cases hd : q = '"'
    · rw [hd]
      exact scanRun_string (content_name hn) []
    · apply scanRun_of_no_quote
      simp [hclear, Ne.symm hd]

section

variable {a b c d k u t t' : Text} {s : Scan}

theorem alike_key (ha : Blank a) (hk : KeyText k u) (hn : IsName k) (hb : Blank b) (hc : Blank c)
    (h : Alike .outside t t' s) :
    Alike .outside (a ++ (u ++ (b ++ ':' :: (c ++ t)))) (a ++ (u ++ (b ++ ':' :: (c ++ t')))) s := by
  have h := h.prepend (scanRun_blank hc)
  have h := h.prepend (u := [':']) rfl
  exact ((h.prepend (scanRun_blank hb)).prepend (scanRun_key hk hn)).prepend (scanRun_blank ha)

theorem alike_delimiter (hd : Blank d) {e : Char} (he : isDelimiter e = true)
    (h : Alike .outside t t' s) : Alike .outside (d ++ e :: t) (d ++ e :: t') s := by
  have hclear : '"' ∉ [e] := by
    rintro hq
    rw [← List.mem_singleton.mp hq] at he
    exact absurd he (by decide)
  exact (h.prepend (scanRun_of_no_quote hclear)).prepend (scanRun_blank hd)

end

theorem Retold.alike (h : Retold p p' w w') : Alike .outside w w' .outside := by
  induction h with
  | @literal s h hs =>
      have hsame := Alike.refl .outside s.render
      rwa [hs.closed] at hsame
  | string ha hb _ _ => exact .string ha hb (.nil _)
  | emptyObject hb => exact Alike.prepend (u := ['{']) rfl (alike_delimiter hb rfl (.nil _))
  | object _ ih => exact ih.prepend (u := ['{']) rfl
  | emptyArray hb => exact Alike.prepend (u := ['[']) rfl (alike_delimiter hb rfl (.nil _))
  | array _ ih => exact ih.prepend (u := ['[']) rfl
  | lastMember ha hk hn hb hc _ hd ih =>
      exact alike_key ha hk hn hb hc (ih.append (alike_delimiter hd rfl (.nil _)))
  | member ha hk hn hb hc _ hd _ ih ihs =>
      exact alike_key ha hk hn hb hc (ih.append (alike_delimiter hd rfl ihs))
  | lastItem hc _ hd ih =>
      exact (ih.append (alike_delimiter hd rfl (.nil _))).prepend (scanRun_blank hc)
  | item hc _ hd _ ih ihs =>
      exact (ih.append (alike_delimiter hd rfl ihs)).prepend (scanRun_blank hc)

end SlowQuery.Record
