import SlowQuery.Payload.Parser
import SlowQuery.Proofs.Blanks
import Mathlib.Data.List.Infix

namespace SlowQuery.Payload

open Text

structure IsName (n : Text) : Prop where
  ne : n ≠ []
  chars : ∀ c ∈ n, isNameChar c = true

instance (n : Text) : Decidable (IsName n) :=
  decidable_of_iff (n ≠ [] ∧ n.all isNameChar = true)
    ⟨fun h => ⟨h.1, List.all_eq_true.mp h.2⟩, fun h => ⟨h.ne, List.all_eq_true.mpr h.chars⟩⟩

def marker (n : Text) : Text := n ++ [':', ' ']

/-- A search is told the character before the text, and goes on where its marker does not begin. -/
def Passes {α : Type} (m : Text) (f : Option Char → Text → α) : Prop :=
  ∀ p c t, ¬m <+: c :: t → f p (c :: t) = f (some c) t

/-- The marker does not begin in the first text, before the second. -/
def Clear (m : Text) : (u t : Text) → Prop
  | [], _ => True
  | c :: u, t => ¬m <+: c :: (u ++ t) ∧ Clear m u t

def lastOf (p : Option Char) (u : Text) : Option Char := u.foldl (fun _ c => some c) p

variable {α : Type} {m n u v t x z : Text} {c sep : Char} {f : Option Char → Text → α}

theorem lastOf_concat (p : Option Char) (u : Text) (c : Char) : lastOf p (u ++ [c]) = some c := by
  rw [lastOf, List.foldl_append]
  rfl

theorem Passes.append (hf : Passes m f) (h : Clear m u t) (p : Option Char) :
    f p (u ++ t) = f (lastOf p u) t := by
  induction u generalizing p with
  | nil => rfl
  | cons c u ih =>
      rw [List.cons_append, hf p c _ h.1, ih h.2]
      rfl

theorem isNameChar_of_blank {c : Char} (h : isBlank c = true) : isNameChar c = false := by
  rw [Bool.eq_false_iff]
  intro hc
  have hne : ∀ x, isBlank x = false → c ≠ x := fun x => ne_of_blank h
  simp only [isNameChar, Bool.or_eq_true, decide_eq_true_eq, hne '_' (by decide),
    hne '$' (by decide), hne '.' (by decide), or_false] at hc
  change ((decide (65 ≤ c.val ∧ c.val ≤ 90) || (decide (97 ≤ c.val) && decide (c.val ≤ 122))) ||
    (decide (48 ≤ c.val) && decide (c.val ≤ 57))) = true at hc
  simp only [Bool.or_eq_true, Bool.and_eq_true, decide_eq_true_eq, UInt32.le_iff_toNat_le] at hc
  simp only [isBlank, blankRanges, Ranges.has, Bool.and_eq_true, Bool.or_eq_true,
    decide_eq_true_eq, Bool.or_false] at h
  simp only [Char.toNat_val, UInt32.reduceToNat] at hc
  omega

theorem startsWith_iff : startsWith m t = true ↔ m <+: t := List.isPrefixOf_iff_prefix

theorem passes_after (m : Text) : Passes m fun _ => after? m := by
  intro p c t h
  rw [← startsWith_iff, Bool.not_eq_true] at h
  simp [after?, h]

theorem after_found (hm : m ≠ []) (t : Text) : after? m (m ++ t) = some t := by
  obtain ⟨c, m, rfl⟩ := List.exists_cons_of_ne_nil hm
  have h : startsWith (c :: m) (c :: (m ++ t)) = true := startsWith_iff.mpr ⟨t, rfl⟩
  simp [after?, h]

theorem after?_nil (hm : m ≠ []) : after? m [] = none := by
  simp [after?, hm]

theorem after?_sound (hm : m ≠ []) (h : after? m t = some u) : ∃ l, t = l ++ (m ++ u) := by
  induction t with
  | nil =>
      rw [after?_nil hm] at h
      cases h
  | cons c t ih =>
      rw [after?] at h
      split at h
      next hs =>
        obtain ⟨r, hr⟩ := startsWith_iff.mp hs
        rw [← hr, List.drop_left] at h
        exact ⟨[], by rw [← hr, Option.some.inj h]; rfl⟩
      next =>
        obtain ⟨l, hl⟩ := ih h
        exact ⟨c :: l, by rw [hl]; rfl⟩

theorem after?_append (hm : m ≠ []) (h : after? m t = some u) (r : Text) :
    after? m (t ++ r) = some (u ++ r) := by
  induction t with
  | nil =>
      rw [after?_nil hm] at h
      cases h
  | cons c t ih =>
      by_cases hs : m <+: c :: t
      · obtain ⟨x, hx⟩ := hs
        rw [← hx, after_found hm] at h
        rw [← hx, List.append_assoc, after_found hm, Option.some.inj h]
      · have hpass : after? m (c :: t) = after? m t := passes_after m none c t hs
        rw [hpass] at h
        -- An occurrence that begins earlier would end earlier, and so in the text.
        have hshort : m.length ≤ (c :: t).length := by
          obtain ⟨l, hl⟩ := after?_sound hm h
          rw [hl]
          simp only [List.length_cons, List.length_append]
          omega
        have hlong : ¬m <+: c :: (t ++ r) := fun hp =>
          hs (List.prefix_of_prefix_length_le hp (List.prefix_append (c :: t) r) hshort)
        have hlater : after? m (c :: (t ++ r)) = after? m (t ++ r) :=
          passes_after m none c (t ++ r) hlong
        rw [List.cons_append, hlater, ih h]

theorem contains_iff (hm : m ≠ []) : contains m t = true ↔ m <:+: t := by
  constructor
  · intro h
    obtain ⟨u, hu⟩ := Option.isSome_iff_exists.mp h
    obtain ⟨l, hl⟩ := after?_sound hm hu
    exact ⟨l, u, by rw [hl, List.append_assoc]⟩
  · rintro ⟨l, u, rfl⟩
    induction l with
    | nil => exact congrArg Option.isSome (after_found hm u)
    | cons c l ih =>
        rw [List.cons_append, List.cons_append]
        by_cases hs : m <+: c :: (l ++ m ++ u)
        · obtain ⟨x, hx⟩ := hs
          rw [← hx]
          exact congrArg Option.isSome (after_found hm x)
        · exact (congrArg Option.isSome (passes_after m none c _ hs)).trans ih

theorem not_infix_of_contains (hm : m ≠ []) (h : contains m t = false) : ¬m <:+: t := by
  rw [← contains_iff hm, h]
  exact Bool.false_ne_true

theorem passes_documentAfter (m : Text) : Passes m (documentAfterFrom m 0) := by
  intro p c t h
  rw [← startsWith_iff, Bool.not_eq_true] at h
  simp [documentAfterFrom, h]

theorem documentAfterFrom_skip (m u t : Text) (p : Option Char) :
    documentAfterFrom m u.length p (u ++ t) = documentAfterFrom m 0 (lastOf p u) t := by
  induction u generalizing p with
  | nil => rfl
  | cons c u ih =>
      rw [List.length_cons, List.cons_append, documentAfterFrom, ih]
      rfl

theorem documentAfter_found (n t : Text) (p : Option Char) :
    documentAfterFrom (marker n) 0 p (marker n ++ t) =
      ((if p.any isNameChar then none else balanced? (dropBlank t)).map (·.1)).or
        (documentAfterFrom (marker n) 0 (some ' ') t) := by
  obtain ⟨c, m, hm⟩ : ∃ c m, marker n = c :: m := by
    cases n with
    | nil => exact ⟨_, _, rfl⟩
    | cons c n => exact ⟨c, marker n, rfl⟩
  have hs : startsWith (marker n) (c :: (m ++ t)) = true := startsWith_iff.mpr ⟨t, by rw [hm]; rfl⟩
  have hlast : lastOf (some c) m = some ' ' := by
    have h := lastOf_concat none (n ++ [':']) ' '
    rwa [List.append_assoc, show n ++ ([':'] ++ [' ']) = c :: m from hm] at h
  have hskip := documentAfterFrom_skip (marker n) m t (some c)
  have hdrop : (c :: (m ++ t)).drop (marker n).length = t := by
    rw [← List.cons_append, ← hm, List.drop_left]
  have hlen : (marker n).length - 1 = m.length := by rw [hm, List.length_cons, Nat.add_sub_cancel]
  rw [hlast] at hskip
  rw [show marker n ++ t = c :: (m ++ t) by rw [hm]; rfl, documentAfterFrom, if_pos hs, hdrop, hlen,
    hskip]
  cases if p.any isNameChar then none else balanced? (dropBlank t) <;> rfl

theorem lastOf_none (u : Text) : lastOf none u = u.getLast? := by
  rcases List.eq_nil_or_concat u with rfl | ⟨u, c, rfl⟩
  · rfl
  · rw [List.concat_eq_append, lastOf_concat, List.getLast?_concat]

theorem documentAfterFrom_here {p : Option Char} (hp : p.any isNameChar = false)
    (h : balanced? (dropBlank t) = some (u, x)) : documentAfterFrom m 0 p (m ++ t) = some u := by
  have hstarts : startsWith m (m ++ t) = true := startsWith_iff.mpr ⟨t, rfl⟩
  have hdrop : (m ++ t).drop m.length = t := List.drop_left
  generalize m ++ t = w at hstarts hdrop
  cases w with
  | nil =>
      rw [← hdrop, List.drop_nil] at h
      cases h
  | cons c w =>
      rw [documentAfterFrom, if_pos hstarts, hp, hdrop]
      simp [h]

theorem documentAfter?_clear (hclear : Clear m v (m ++ t))
    (hlast : ∀ c, v.getLast? = some c → isNameChar c = false)
    (h : balanced? (dropBlank t) = some (u, x)) : documentAfter? m (v ++ (m ++ t)) = some u := by
  have hname : (lastOf none v).any isNameChar = false := by
    rw [lastOf_none]
    cases hc : v.getLast? with
    | none => rfl
    | some c => exact hlast c hc
  rw [documentAfter?, (passes_documentAfter m).append hclear, documentAfterFrom_here hname h]

theorem documentAfter?_spaced (hclear : Clear m v (m ++ t)) (hlast : v.getLast? = some ' ')
    (h : balanced? (dropBlank t) = some (u, x)) : documentAfter? m (v ++ (m ++ t)) = some u := by
  refine documentAfter?_clear hclear ?_ h
  rw [hlast]
  rintro _ ⟨⟩
  decide

theorem Clear.append (hu : Clear m u (v ++ t)) (hv : Clear m v t) : Clear m (u ++ v) t := by
  induction u with
  | nil => exact hv
  | cons c u ih =>
      refine ⟨?_, ih hu.2⟩
      rw [show u.append v ++ t = u ++ (v ++ t) from List.append_assoc u v t]
      exact hu.1

theorem clear_of_behind (h : ∀ l r, u ++ t = l ++ (m ++ r) → u.length ≤ l.length) :
    Clear m u t := by
  induction u with
  | nil => trivial
  | cons c u ih =>
      constructor
      · rintro ⟨r, hr⟩
        have hfirst := h [] r hr.symm
        simp at hfirst
      · refine ih fun l r hl => ?_
        have hlater := h (c :: l) r (by rw [List.cons_append, hl, List.cons_append])
        simpa using hlater

theorem clear_of_not_contains (hm : m ≠ []) (h : contains m u = false) : Clear m u [] := by
  refine clear_of_behind fun l r hl => ?_
  rw [List.append_nil] at hl
  exact absurd ⟨l, r, by rw [hl, List.append_assoc]⟩ (not_infix_of_contains hm h)

theorem documentAfter?_eq_none (hm : m ≠ []) (h : contains m t = false) :
    documentAfter? m t = none := by
  have hpass := (passes_documentAfter m).append (clear_of_not_contains hm h) none
  rw [List.append_nil] at hpass
  exact hpass

theorem position?_clear (hm : m ≠ []) (h : Clear m u (m ++ t)) :
    position? m (u ++ (m ++ t)) = some u.length := by
  induction u with
  | nil =>
      obtain ⟨c, m, rfl⟩ := List.exists_cons_of_ne_nil hm
      have hs : startsWith (c :: m) (c :: (m ++ t)) = true := startsWith_iff.mpr ⟨t, rfl⟩
      simp [position?, hs]
  | cons c u ih =>
      have hs : startsWith m (c :: (u ++ (m ++ t))) = false := by
        rw [Bool.eq_false_iff, ne_eq, startsWith_iff]
        exact h.1
      rw [List.cons_append, position?, hs, ih h.2]
      rfl

theorem isSome_position? (m t : Text) : (position? m t).isSome = contains m t := by
  induction t with
  | nil =>
      rw [position?, contains, after?]
      split <;> rfl
  | cons c t ih =>
      rw [position?, contains, after?]
      split
      · rfl
      · rw [Option.isSome_map, ih, contains]

theorem Clear.extend (h : Clear m u t) (x : Text) : Clear (m ++ x) u t := by
  induction u with
  | nil => trivial
  | cons c u ih => exact ⟨fun hp => h.1 ((List.prefix_append m x).trans hp), ih h.2⟩

theorem prefix_split {e : Text} (hx : sep ∉ x) (hz : sep ∉ z) :
    x ++ sep :: e <+: z ++ sep :: t ↔ z = x ∧ e <+: t := by
  induction x generalizing z with
  | nil =>
      cases z with
      | nil => simp
      | cons c z =>
          have hc : sep ≠ c := fun h => hz (h ▸ List.mem_cons_self)
          simp [List.cons_prefix_cons, hc]
  | cons d x ih =>
      rw [List.mem_cons, not_or] at hx
      cases z with
      | nil => simp [List.cons_prefix_cons, Ne.symm hx.1]
      | cons c z =>
          rw [List.mem_cons, not_or] at hz
          rw [List.cons_append, List.cons_append, List.cons_prefix_cons, ih hx.2 hz.2,
            List.cons.injEq, and_assoc, eq_comm]

theorem prefix_of_not_mem (hm : sep ∉ m) (h : m <+: z ++ sep :: t) : m <+: z := by
  induction z generalizing m with
  | nil =>
      cases m with
      | nil => exact List.nil_prefix
      | cons c m => exact absurd ((List.cons_prefix_cons.mp h).1 ▸ List.mem_cons_self) hm
  | cons d z ih =>
      cases m with
      | nil => exact List.nil_prefix
      | cons c m =>
          obtain ⟨hc, h⟩ := List.cons_prefix_cons.mp h
          exact List.cons_prefix_cons.mpr ⟨hc, ih (fun hs => hm (List.mem_cons_of_mem c hs)) h⟩

theorem clear_before {e : Text} (hx : sep ∉ x) (hu : sep ∉ u) :
    Clear (x ++ sep :: e) u (x ++ sep :: t) := by
  induction u with
  | nil => trivial
  | cons c u ih =>
      refine ⟨fun hm => ?_, ih fun hc => hu (List.mem_cons_of_mem c hc)⟩
      have hm : x ++ sep :: e <+: (c :: u ++ x) ++ sep :: t := by simpa using hm
      have hsep : sep ∉ c :: u ++ x := by
        rw [List.mem_append, not_or]
        exact ⟨hu, hx⟩
      have he := congrArg List.length ((prefix_split hx hsep).mp hm).1
      simp only [List.length_append, List.length_cons] at he
      omega

theorem clear_of_not_infix (hm : sep ∉ m) (h : ¬m <:+: u) : Clear m u (sep :: t) := by
  induction u with
  | nil => trivial
  | cons c u ih =>
      rw [List.infix_cons_iff, not_or] at h
      exact ⟨fun hp => h.1 (prefix_of_not_mem (z := c :: u) hm hp), ih h.2⟩

section

variable (hn : IsName n)

include hn

theorem clear_of_no_name (hu : ∀ c ∈ u, isNameChar c = false) : Clear (marker n) u t := by
  induction u with
  | nil => trivial
  | cons c u ih =>
      refine ⟨fun h => ?_, ih fun d hd => hu d (List.mem_cons_of_mem c hd)⟩
      obtain ⟨d, n, rfl⟩ := List.exists_cons_of_ne_nil hn.ne
      have hd := hn.chars d List.mem_cons_self
      rw [(List.cons_prefix_cons.mp h).1, hu c List.mem_cons_self] at hd
      cases hd

theorem Passes.cons (hf : Passes (marker n) f) (hc : isNameChar c = false) (p : Option Char)
    (t : Text) : f p (c :: t) = f (some c) t :=
  hf p c t (clear_of_no_name (u := [c]) hn (List.forall_mem_singleton.mpr hc)).1

theorem clear_word (hu : ':' ∉ u) (t : Text) : Clear (marker n) (u ++ [' ']) t := by
  have hspace : ' ' ∉ n ++ [':'] := by
    rw [List.mem_append, not_or]
    exact ⟨fun h => absurd (hn.chars ' ' h) (by decide), by decide⟩
  have hname : ¬n ++ [':'] <:+: u := fun h => hu (h.subset (by simp))
  have hword : Clear (n ++ [':']) u (' ' :: t) := clear_of_not_infix hspace hname
  have hmarker := hword.extend [' ']
  rw [List.append_assoc] at hmarker
  exact hmarker.append (clear_of_no_name hn (List.forall_mem_singleton.mpr (by decide)))

theorem colon_not_mem : ':' ∉ n := fun h => absurd (hn.chars ':' h) (by decide)

theorem clear_key (hu : ':' ∉ u) (h : ¬(n <:+ u ∧ [' '] <+: t)) :
    Clear (marker n) (u ++ [':']) t := by
  induction u with
  | nil =>
      refine ⟨fun hm => ?_, trivial⟩
      exact hn.ne ((prefix_split (z := []) (colon_not_mem hn) List.not_mem_nil).mp hm).1.symm
  | cons c u ih =>
      refine ⟨fun hm => ?_, ih (fun hc => hu (List.mem_cons_of_mem c hc)) fun hs =>
        h ⟨hs.1.trans (List.suffix_cons c u), hs.2⟩⟩
      have hm : n ++ ':' :: [' '] <+: (c :: u) ++ ':' :: t := by simpa [marker] using hm
      obtain ⟨rfl, ht⟩ := (prefix_split (colon_not_mem hn) hu).mp hm
      exact h ⟨List.suffix_refl _, ht⟩

theorem clear_before_key (hu : ':' ∉ u) : Clear (marker n) u (n ++ ':' :: t) :=
  clear_before (colon_not_mem hn) hu

end

theorem infix_blank {d : Text} (hd : Blank d) (h : marker n <:+: u ++ d) :
    marker n <:+: u ++ [' '] := by
  obtain ⟨x, y, h⟩ := h
  have h : (x ++ n ++ [':']) ++ ' ' :: y = u ++ d := by simpa [marker] using h
  rcases List.append_eq_append_iff.mp h with ⟨b, hu, hb⟩ | ⟨b, hu, hb⟩
  · cases b with
    | nil =>
        rw [hu]
        exact ⟨x, [], by simp [marker]⟩
    | cons e b =>
        rw [hu, ← (List.cons.inj hb).1]
        exact ⟨x, b ++ [' '], by simp [marker]⟩
  · rcases List.eq_nil_or_concat b with rfl | ⟨b', e, rfl⟩
    · rw [← List.append_nil u, ← hu]
      exact ⟨x, [], by simp [marker]⟩
    · -- The colon would stand in the white space.
      have hlast := congrArg List.getLast? hu
      rw [List.concat_eq_append, ← List.append_assoc, List.getLast?_concat, List.getLast?_concat]
        at hlast
      have he := hd e (by rw [hb]; simp)
      rw [← Option.some.inj hlast] at he
      exact absurd he (by decide)

end SlowQuery.Payload
