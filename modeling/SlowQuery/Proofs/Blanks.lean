import SlowQuery.Text.Basic
import Mathlib.Data.List.TakeDrop

namespace SlowQuery

variable {ε α β : Type} {x : Except ε α}

theorem pure_eq_ok {a b : α} : (pure a : Except ε α) = .ok b ↔ a = b := by
  simp [pure, Except.pure]

theorem map_eq_ok {f : α → β} {b : β} : x.map f = .ok b ↔ ∃ a, x = .ok a ∧ f a = b := by
  cases x <;> simp [Except.map]

theorem bind_eq_ok {f : α → Except ε β} {b : β} :
    x >>= f = .ok b ↔ ∃ a, x = .ok a ∧ f a = .ok b := by
  cases x <;> simp [bind, Except.bind]

theorem map_eq_error {f : α → β} {e : ε} : x.map f = .error e ↔ x = .error e := by
  cases x <;> simp [Except.map]

theorem bind_eq_error {f : α → Except ε β} {e : ε} :
    x >>= f = .error e ↔ x = .error e ∨ ∃ a, x = .ok a ∧ f a = .error e := by
  cases x <;> simp [bind, Except.bind]

end SlowQuery

namespace SlowQuery.Text

def Blank (b : Text) : Prop := ∀ c ∈ b, isBlank c = true

def EndsSolid (t : Text) : Prop := ∀ c, t.getLast? = some c → isBlank c = false

@[simp] theorem blank_nil : Blank [] := by simp [Blank]

theorem Blank.append {a b : Text} (ha : Blank a) (hb : Blank b) : Blank (a ++ b) := by
  intro c hc
  exact (List.mem_append.mp hc).elim (ha c) (hb c)

theorem Blank.not_mem {b : Text} (hb : Blank b) {c : Char} (hc : isBlank c = false) : c ∉ b := by
  intro h
  rw [hb c h] at hc
  cases hc

theorem ne_of_blank {c d : Char} (hc : isBlank c = true) (hd : isBlank d = false) : c ≠ d := by
  rintro rfl
  rw [hc] at hd
  cases hd

def blankCodes : List Nat :=
  [0x09, 0x0A, 0x0B, 0x0C, 0x0D, 0x20, 0x85, 0xA0, 0x1680, 0x2000, 0x2001, 0x2002, 0x2003, 0x2004,
   0x2005, 0x2006, 0x2007, 0x2008, 0x2009, 0x200A, 0x2028, 0x2029, 0x202F, 0x205F, 0x3000]

theorem toNat_of_blank {c : Char} (h : isBlank c = true) : c.toNat ∈ blankCodes := by
  simp only [isBlank, blankRanges, Ranges.has, Bool.and_eq_true, Bool.or_eq_true,
    decide_eq_true_eq, Bool.or_false] at h
  simp only [blankCodes, List.mem_cons, List.not_mem_nil, or_false]
  omega

def EndsRun (p : Char → Bool) (r : Text) : Prop := ∀ c, r.head? = some c → p c = false

section

variable {p : Char → Bool} {a a' r r' t : Text} {c : Char}

theorem endsRun_cons (hc : p c = false) (r : Text) : EndsRun p (c :: r) := by
  rintro _ ⟨⟩
  exact hc

theorem endsRun_append (ha : a ≠ []) (h : ∀ c ∈ a, p c = false) (r : Text) :
    EndsRun p (a ++ r) := by
  obtain ⟨c, a, rfl⟩ := List.exists_cons_of_ne_nil ha
  exact endsRun_cons (h c List.mem_cons_self) (a ++ r)

theorem span_append (ha : ∀ c ∈ a, p c = true) (hr : EndsRun p r) : (a ++ r).span p = (a, r) := by
  have hends : r.takeWhile p = [] ∧ r.dropWhile p = r := by
    cases r with
    | nil => exact ⟨rfl, rfl⟩
    | cons c r => simp [hr c rfl]
  rw [List.span_eq_takeWhile_dropWhile, List.takeWhile_append_of_pos ha,
    List.dropWhile_append_of_pos ha, hends.1, hends.2, List.append_nil]

theorem span_append_cons (ha : ∀ c ∈ a, p c = true) (hc : p c = false) (r : Text) :
    (a ++ c :: r).span p = (a, c :: r) :=
  span_append ha (endsRun_cons hc r)

theorem span_eq_iff : t.span p = (a, r) ↔ t = a ++ r ∧ (∀ c ∈ a, p c = true) ∧ EndsRun p r := by
  constructor
  · intro h
    rw [List.span_eq_takeWhile_dropWhile] at h
    obtain ⟨rfl, rfl⟩ := Prod.mk.inj h
    refine ⟨List.takeWhile_append_dropWhile.symm, fun c hc => ?_, fun c hc => ?_⟩
    · exact List.all_eq_true.mp List.all_takeWhile c hc
    · have hnot := List.head?_dropWhile_not p t
      rw [hc] at hnot
      simpa using hnot
  · rintro ⟨rfl, ha, hr⟩
    exact span_append ha hr

theorem run_append_inj (ha : ∀ c ∈ a, p c = true) (ha' : ∀ c ∈ a', p c = true) (hr : EndsRun p r)
    (hr' : EndsRun p r') (h : a ++ r = a' ++ r') : a = a' ∧ r = r' := by
  have hs := span_append ha hr
  rw [h, span_append ha' hr'] at hs
  exact ⟨(Prod.mk.inj hs).1.symm, (Prod.mk.inj hs).2.symm⟩

end

theorem blank_append_inj {a a' r r' : Text} {c c' : Char} (ha : Blank a) (ha' : Blank a')
    (hc : isBlank c = false) (hc' : isBlank c' = false) (h : a ++ c :: r = a' ++ c' :: r') :
    a = a' ∧ c :: r = c' :: r' :=
  run_append_inj ha ha' (endsRun_cons hc r) (endsRun_cons hc' r') h

@[simp] theorem dropBlank_nil : dropBlank [] = [] := rfl

theorem dropBlank_append {b : Text} (hb : Blank b) (t : Text) : dropBlank (b ++ t) = dropBlank t :=
  List.dropWhile_append_of_pos hb

theorem dropBlank_cons {c : Char} (hc : isBlank c = false) (t : Text) :
    dropBlank (c :: t) = c :: t := by
  simp [dropBlank, hc]

theorem dropBlank_eq_nil {b : Text} (hb : Blank b) : dropBlank b = [] := by
  have h := dropBlank_append hb []
  simpa using h

theorem isBlank_of_dropBlank {t r : Text} {c : Char} (h : dropBlank t = c :: r) :
    isBlank c = false := by
  have hh := List.head?_dropWhile_not isBlank t
  rw [show t.dropWhile isBlank = c :: r from h] at hh
  simpa using hh

theorem exists_dropBlank (t : Text) : ∃ b, Blank b ∧ t = b ++ dropBlank t := by
  refine ⟨t.takeWhile isBlank, ?_, List.takeWhile_append_dropWhile.symm⟩
  intro c hc
  exact List.all_eq_true.mp List.all_takeWhile c hc

theorem blank_of_dropBlank {t : Text} (h : dropBlank t = []) : Blank t := by
  obtain ⟨b, hb, ht⟩ := exists_dropBlank t
  rw [ht, h, List.append_nil]
  exact hb

theorem dropBlank_suffix (t : Text) : dropBlank t <:+ t := List.dropWhile_suffix isBlank

theorem dropBlank_append_of_cons {t r : Text} {c : Char} (h : dropBlank t = c :: r) (s : Text) :
    dropBlank (t ++ s) = c :: (r ++ s) := by
  obtain ⟨b, hb, ht⟩ := exists_dropBlank t
  rw [ht, h, List.append_assoc, dropBlank_append hb, List.cons_append,
    dropBlank_cons (isBlank_of_dropBlank h)]

theorem dropBlank_append_ne {t : Text} {c : Char} (hne : dropBlank t ≠ [])
    (h : ∀ u, dropBlank t ≠ c :: u) (s u : Text) : dropBlank (t ++ s) ≠ c :: u := by
  obtain ⟨e, w, he⟩ := List.exists_cons_of_ne_nil hne
  rw [dropBlank_append_of_cons he]
  intro hc
  exact h w (by rw [he, (List.cons.inj hc).1])

theorem dropBlank_idem (t : Text) : dropBlank (dropBlank t) = dropBlank t := by
  cases h : dropBlank t with
  | nil => rfl
  | cons c r => exact dropBlank_cons (isBlank_of_dropBlank h) r

theorem exists_trimEnd (t : Text) : ∃ b, Blank b ∧ t = trimEnd t ++ b := by
  obtain ⟨b, hb, ht⟩ := exists_dropBlank t.reverse
  refine ⟨b.reverse, fun c hc => hb c (List.mem_reverse.mp hc), ?_⟩
  have h := congrArg List.reverse ht
  simpa [trimEnd, trimEndBy, dropBlank] using h

theorem endsSolid_trimEnd (t : Text) : EndsSolid (trimEnd t) := by
  intro c hc
  have h := List.head?_dropWhile_not isBlank t.reverse
  rw [trimEnd, trimEndBy, List.getLast?_reverse] at hc
  rw [hc] at h
  simpa using h

theorem endsSolid_concat {c : Char} (t : Text) (hc : isBlank c = false) : EndsSolid (t ++ [c]) := by
  intro d hd
  rw [List.getLast?_concat] at hd
  rwa [← Option.some.inj hd]

theorem EndsSolid.eq_nil {t b : Text} (h : EndsSolid (t ++ b)) (hb : Blank b) : b = [] := by
  rcases List.eq_nil_or_concat b with rfl | ⟨b, c, rfl⟩
  · rfl
  · have hc := h c (by rw [List.concat_eq_append, ← List.append_assoc, List.getLast?_concat])
    rw [hb c (by simp)] at hc
    cases hc

theorem trimEnd_append {w b : Text} (hw : EndsSolid w) (hb : Blank b) : trimEnd (w ++ b) = w := by
  have h : dropBlank (b.reverse ++ w.reverse) = w.reverse := by
    rw [dropBlank_append (fun c hc => hb c (List.mem_reverse.mp hc))]
    cases hr : w.reverse with
    | nil => rfl
    | cons c r =>
        apply dropBlank_cons
        apply hw
        rw [← List.head?_reverse, hr, List.head?_cons]
  rw [trimEnd, trimEndBy, List.reverse_append]
  simpa [dropBlank] using congrArg List.reverse h

theorem trim_append {w b : Text} (hfirst : dropBlank w = w) (hlast : EndsSolid w) (hb : Blank b)
    (hne : w ≠ []) : trim (w ++ b) = w := by
  obtain ⟨c, r, rfl⟩ := List.exists_cons_of_ne_nil hne
  have hc := isBlank_of_dropBlank hfirst
  have h := trimEnd_append hlast hb
  simpa [trim, trimBy, trimEnd, hc] using h

end SlowQuery.Text
