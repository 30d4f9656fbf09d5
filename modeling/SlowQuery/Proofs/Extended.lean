import SlowQuery.Proofs.Reading

namespace SlowQuery.Payload

open Text

/-- What a reader makes of `t`, and what it makes of `t` in front of `s`. Where it came to the end
of `t`, the second may be anything. -/
inductive Extended {α : Type} (t s : Text) : Reading α → Reading α → Prop
  | read {a r} (hne : r ≠ []) (hr : r <:+ t) : Extended t s (.ok (a, r)) (.ok (a, r ++ s))
  | refused {c r} (hr : c :: r <:+ t) :
      Extended t s (.error (.unexpected c r)) (.error (.unexpected c (r ++ s)))
  | exhausted {a y} : Extended t s (.ok (a, [])) y
  | ended {y} : Extended t s (.error .ended) y

section

variable {α β : Type} {t u r s : Text} {x y : Except Fault (α × Text)} {a : α} {c : Char}

theorem Extended.rest (hr : r <:+ t) : Extended t s (.ok (a, r)) (.ok (a, r ++ s)) := by
  cases r with
  | nil => exact .exhausted
  | cons c r => exact .read (List.cons_ne_nil c r) hr

theorem Extended.of_refused (h : Extended t s (.error (.unexpected c r)) y) :
    c :: r <:+ t ∧ y = .error (.unexpected c (r ++ s)) := by
  cases h with
  | refused hr => exact ⟨hr, rfl⟩

theorem Extended.of_read (h : Extended t s (.ok (a, r)) y) (hne : r ≠ []) :
    r <:+ t ∧ y = .ok (a, r ++ s) := by
  cases h with
  | read _ hr => exact ⟨hr, rfl⟩
  | exhausted => exact absurd rfl hne

theorem Extended.mono (h : Extended t s x y) (ht : t <:+ u) : Extended u s x y := by
  cases h with
  | read hne hr => exact .read hne (hr.trans ht)
  | refused hr => exact .refused (hr.trans ht)
  | exhausted => exact .exhausted
  | ended => exact .ended

theorem Extended.map (f : α → β) (h : Extended t s x y) :
    Extended t s (x.map fun (a, r) => (f a, r)) (y.map fun (a, r) => (f a, r)) := by
  cases h with
  | read hne hr => exact .read hne hr
  | refused hr => exact .refused hr
  | exhausted => exact .exhausted
  | ended => exact .ended

theorem Extended.bind {f g : α × Text → Except Fault (β × Text)} (h : Extended t s x y)
    (hnil : ∀ a z, Extended t s (f (a, [])) z)
    (hf : ∀ a r, Extended r s (f (a, r)) (g (a, r ++ s))) :
    Extended t s (x >>= f : Except Fault (β × Text)) (y >>= g : Except Fault (β × Text)) := by
  cases h with
  | read hne hr => exact (hf _ _).mono hr
  | refused hr => exact .refused hr
  | exhausted => exact hnil _ _
  | ended => exact .ended

end

variable (t s : Text)

theorem extended_upTo (stop : Char) (escaped : Bool) :
    Extended t s (upTo stop escaped t) (upTo stop escaped (t ++ s)) := by
  induction t generalizing escaped with
  | nil => cases escaped <;> exact .ended
  | cons c t ih =>
      have ht : t <:+ c :: t := List.suffix_cons c t
      have further (e : Bool) := ((ih e).map (c :: ·)).mono ht
      cases escaped with
      | true => exact further false
      | false =>
          rw [List.cons_append, upTo, upTo]
          split
          next => exact further true
          next =>
            split
            next => exact .rest ht
            next => exact further false

theorem extended_quotedText (q : Char) :
    Extended t s (quotedText q t) (quotedText q (t ++ s)) :=
  (extended_upTo t s q false).map fun inner => q :: inner ++ [q]

theorem extended_bareKey : Extended t s (bareKey t) (bareKey (t ++ s)) := by
  induction t with
  | nil => exact .ended
  | cons c t ih =>
      rw [List.cons_append, bareKey, bareKey]
      split
      next => exact .rest List.suffix_rfl
      next =>
        split
        next => exact .refused List.suffix_rfl
        next => exact (ih.map (c :: ·)).mono (List.suffix_cons c t)

theorem extended_key : Extended t s (key t) (key (t ++ s)) := by
  cases hd : dropBlank t with
  | nil =>
      rw [key, hd]
      exact .ended
  | cons c u =>
      have ht : c :: u <:+ t := hd ▸ dropBlank_suffix t
      rw [key, hd, key, dropBlank_append_of_cons hd]
      dsimp only
      split
      next =>
        have hq := (extended_quotedText u s c).map plainKey
        exact hq.mono ((List.suffix_cons c u).trans ht)
      next => exact ((extended_bareKey (c :: u) s).map trimEnd).mono ht

theorem extended_colon : Extended t s (colon t) (colon (t ++ s)) := by
  cases hd : dropBlank t with
  | nil =>
      rw [colon, hd]
      exact .ended
  | cons c u =>
      have ht : c :: u <:+ t := hd ▸ dropBlank_suffix t
      rw [colon, hd, colon, dropBlank_append_of_cons hd]
      dsimp only
      split
      next => exact .rest ((List.suffix_cons c u).trans ht)
      next => exact .refused ht

theorem extended_bareWord (scan : WordScan) (d : Nat) :
    Extended t s (bareWord scan d t) (bareWord scan d (t ++ s)) := by
  induction t generalizing scan d with
  | nil =>
      cases scan with
      | plain => exact .exhausted
      | quoted | escaped => exact .ended
  | cons c t ih =>
      rw [List.cons_append, bareWord_cons, bareWord_cons]
      split
      next => exact .rest List.suffix_rfl
      next => exact ((ih _ _).map (c :: ·)).mono (List.suffix_cons c t)

theorem extended_flags (pattern : Text) :
    Extended t s (.ok (Scalar.regex pattern (t.span isFlag).1, (t.span isFlag).2))
      (.ok (Scalar.regex pattern ((t ++ s).span isFlag).1, ((t ++ s).span isFlag).2)) := by
  obtain ⟨flags, r, hspan⟩ : ∃ flags r, t.span isFlag = (flags, r) := ⟨_, _, rfl⟩
  obtain ⟨rfl, hf, hr⟩ := span_eq_iff.mp hspan
  cases r with
  | nil =>
      rw [hspan]
      exact .exhausted
  | cons c r =>
      have hlonger := span_append_cons hf (hr c rfl) (r ++ s)
      rw [List.append_assoc, List.cons_append, hspan, hlonger]
      exact .read (List.cons_ne_nil c r) (List.suffix_append flags (c :: r))

theorem extended_scalar : Extended t s (scalar t) (scalar (t ++ s)) := by
  cases t with
  | nil => exact .ended
  | cons c t =>
      have ht : t <:+ c :: t := List.suffix_cons c t
      rw [List.cons_append]
      by_cases hq : isQuote c = true
      · rw [scalar_quoted _ hq, scalar_quoted _ hq]
        exact ((extended_quotedText t s c).map Scalar.str).mono ht
      · by_cases hs : c = '/'
        · subst hs
          rw [scalar, scalar]
          apply Extended.mono _ ht
          refine (extended_upTo t s '/' false).bind (fun _ _ => .exhausted) fun pattern r => ?_
          exact extended_flags r s pattern
        · by_cases hd : isDelimiter c = true
          · rw [scalar_delimiter _ hd, scalar_delimiter _ hd]
            exact .refused List.suffix_rfl
          · rw [Bool.not_eq_true] at hq hd
            rw [scalar_cons _ hq hs hd, scalar_cons _ hq hs hd]
            exact (extended_bareWord (c :: t) s .plain 0).map fun w => Scalar.ofWord (trim w)

section

variable {t s}

theorem Extended.delimiter {α : Type} {f g : Text → Reading α} (a : α) (close : Char)
    (h : ∀ u, Extended u s (f u) (g (u ++ s))) :
    Extended t s
      (match dropBlank t with
        | [] => .error .ended
        | c :: u =>
          if c = ',' then f u else if c = close then .ok (a, u) else .error (.unexpected c u))
      (match dropBlank (t ++ s) with
        | [] => .error .ended
        | c :: u =>
          if c = ',' then g u else if c = close then .ok (a, u) else .error (.unexpected c u)) := by
  cases hd : dropBlank t with
  | nil => exact .ended
  | cons c u =>
      have ht : c :: u <:+ t := hd ▸ dropBlank_suffix t
      have hu := (List.suffix_cons c u).trans ht
      rw [dropBlank_append_of_cons hd]
      dsimp only
      split
      next => exact (h u).mono hu
      next =>
        split
        next => exact .rest hu
        next => exact .refused ht

end

def ValueExtends (n : Nat) : Prop :=
  ∀ m t, n ≤ m → Extended t s (value n t) (value m (t ++ s))

def MembersExtend (n : Nat) : Prop :=
  ∀ m t, n ≤ m → Extended t s (members n t) (members m (t ++ s))

def ItemsExtend (n : Nat) : Prop :=
  ∀ m t, n ≤ m → Extended t s (items n t) (items m (t ++ s))

section

variable {s} {n : Nat}

theorem membersExtend_succ (hv : ValueExtends s n) (hm : MembersExtend s n) :
    MembersExtend s (n + 1) := by
  intro m t h
  obtain ⟨m, rfl⟩ : ∃ m', m = m' + 1 := ⟨m - 1, by omega⟩
  have hn : n ≤ m := Nat.le_of_succ_le_succ h
  rw [members, members]
  refine (extended_key t s).bind (fun _ _ => .ended) fun k t => ?_
  refine (extended_colon t s).bind (fun _ z => ?_) fun _ t => ?_
  · dsimp only
    rw [value_of_blank dropBlank_nil]
    exact .ended
  · refine (hv m t hn).bind (fun _ _ => .ended) fun v t => ?_
    exact .delimiter _ _ fun u => (hm m u hn).map ((k, v) :: ·)

theorem Bracketed.extended {α : Type} {opener closer : Char} {make : List α → Value}
    {parts : Nat → Text → Reading (List α)} (h : Bracketed opener closer parts make) {m : Nat}
    (hparts : ∀ u, Extended u s (parts n u) (parts m (u ++ s))) (u : Text) :
    Extended (opener :: u) s (value (n + 1) (opener :: u)) (value (m + 1) (opener :: (u ++ s))) := by
  by_cases hclosed : ∃ w, dropBlank u = closer :: w
  · obtain ⟨w, hw⟩ := hclosed
    obtain ⟨b, hb, hu⟩ := exists_dropBlank u
    rw [hw] at hu
    rw [hu, List.append_assoc, List.cons_append, h.empty hb, h.empty hb]
    exact .rest ⟨opener :: (b ++ [closer]), by simp⟩
  · rw [not_exists] at hclosed
    rw [h.filled hclosed]
    by_cases hnil : dropBlank u = []
    · rw [h.blank hnil]
      exact .ended
    · rw [h.filled (dropBlank_append_ne hnil hclosed s)]
      exact ((hparts u).map make).mono (List.suffix_cons opener u)

theorem valueExtends_succ (hm : MembersExtend s n) (hi : ItemsExtend s n) :
    ValueExtends s (n + 1) := by
  intro m t h
  obtain ⟨m, rfl⟩ : ∃ m', m = m' + 1 := ⟨m - 1, by omega⟩
  have hn : n ≤ m := Nat.le_of_succ_le_succ h
  obtain ⟨b, hb, ht⟩ := exists_dropBlank t
  rw [ht, List.append_assoc, value_blank hb, value_blank hb]
  apply Extended.mono _ (List.suffix_append b _)
  cases hd : dropBlank t with
  | nil =>
      rw [value_of_blank dropBlank_nil]
      exact .ended
  | cons c u =>
      have hc := isBlank_of_dropBlank hd
      rw [List.cons_append]
      by_cases hbrace : c = '{'
      · subst hbrace
        exact bracketed_object.extended (fun u => hm m u hn) u
      · by_cases hbracket : c = '['
        · subst hbracket
          exact bracketed_array.extended (fun u => hi m u hn) u
        · rw [value_scalar hc ⟨hbrace, hbracket⟩, value_scalar hc ⟨hbrace, hbracket⟩]
          exact (extended_scalar (c :: u) s).map Value.scalar

theorem itemsExtend_succ (hv : ValueExtends s n) (hi : ItemsExtend s n) :
    ItemsExtend s (n + 1) := by
  intro m t h
  obtain ⟨m, rfl⟩ : ∃ m', m = m' + 1 := ⟨m - 1, by omega⟩
  have hn : n ≤ m := Nat.le_of_succ_le_succ h
  rw [items, items]
  refine (hv m t hn).bind (fun _ _ => .ended) fun v t => ?_
  exact .delimiter _ _ fun u => (hi m u hn).map (v :: ·)

/-- More text, and more fuel for it, change nothing that was read or refused before. -/
theorem reader_extends (s : Text) (n : Nat) :
    ValueExtends s n ∧ MembersExtend s n ∧ ItemsExtend s n := by
  induction n with
  | zero =>
      refine ⟨?_, ?_, ?_⟩ <;> intro m t _
      · rw [value]
        exact .ended
      · rw [members]
        exact .ended
      · rw [items]
        exact .ended
  | succ n ih =>
      obtain ⟨hv, hm, hi⟩ := ih
      exact ⟨valueExtends_succ hm hi, membersExtend_succ hv hm, itemsExtend_succ hv hi⟩

end

end SlowQuery.Payload
