import SlowQuery.Proofs.Retold

namespace SlowQuery.Record

open Text Payload Shape

def Agree {α : Type} (f : Option Char → Text → α) (R : α → α → Prop) (t t' : Text) : Prop :=
  ∀ p, R (f p t) (f p t')

/-- Stands behind a string or another scalar, and begins nothing that is looked for. -/
def isTextEnd (c : Char) : Bool := c = '"' || isDelimiter c

/-- A search for the key `n` that finds the like behind the key if it does so later. -/
structure Compares {α : Type} (n : Text) (f : Option Char → Text → α) (R : α → α → Prop) :
    Prop where
  passes : Passes (marker n) f
  skips : ∀ {u e} p t, Unmarked u → isTextEnd e = true → f p (u ++ e :: t) = f (some e) t
  found : ∀ {v v' w w' c d e r r' s}, Retold (.value v) (.value v') w w' → Blank c → Blank d →
    isDelimiter e = true → Alike .outside r r' s →
    Agree f R (c ++ (w ++ (d ++ e :: r))) (c ++ (w' ++ (d ++ e :: r'))) →
    Agree f R (marker n ++ (c ++ (w ++ (d ++ e :: r)))) (marker n ++ (c ++ (w' ++ (d ++ e :: r'))))

def Agrees {α : Type} (f : Option Char → Text → α) (R : α → α → Prop) : Part → Text → Text → Prop
  | .value _, w, w' => ∀ c d e r r' s, Blank c → Blank d → isDelimiter e = true →
      Alike .outside r r' s → Agree f R r r' →
      Agree f R (c ++ (w ++ (d ++ e :: r))) (c ++ (w' ++ (d ++ e :: r')))
  | _, w, w' => ∀ r r' s, Alike .outside r r' s → Agree f R r r' → Agree f R (w ++ r) (w' ++ r')

variable {α : Type} {n : Text} {f : Option Char → Text → α} {R : α → α → Prop}
variable {a b c d k u x t t' : Text} {e : Char} {p : Option Char}

theorem isTextEnd_cases (he : isTextEnd e = true) : e = '"' ∨ e = ',' ∨ e = '}' ∨ e = ']' := by
  simpa [isTextEnd, isDelimiter] using he

theorem isNameChar_of_textEnd (he : isTextEnd e = true) : isNameChar e = false := by
  rcases isTextEnd_cases he with rfl | rfl | rfl | rfl <;> decide

theorem isTextEnd_of_delimiter (he : isDelimiter e = true) : isTextEnd e = true := by
  simp [isTextEnd, he]

theorem isNameChar_of_delimiter (he : isDelimiter e = true) : isNameChar e = false :=
  isNameChar_of_textEnd (isTextEnd_of_delimiter he)

theorem Agree.pass (hf : Passes (marker n) f) (hu : Clear (marker n) u t)
    (hu' : Clear (marker n) u t') (h : Agree f R t t') : Agree f R (u ++ t) (u ++ t') := by
  intro p
  rw [hf.append hu, hf.append hu']
  exact h _

theorem Agree.cons (hn : IsName n) (hf : Passes (marker n) f) (he : isNameChar e = false)
    (h : Agree f R t t') : Agree f R (e :: t) (e :: t') := by
  have hclear : ∀ c ∈ [e], isNameChar c = false := fun c hc => by rwa [List.mem_singleton.mp hc]
  exact h.pass hf (clear_of_no_name hn hclear) (clear_of_no_name hn hclear)

theorem Agree.blank (hn : IsName n) (hf : Passes (marker n) f) (hc : Blank c) (h : Agree f R t t') :
    Agree f R (c ++ t) (c ++ t') := by
  have hclear : ∀ x ∈ c, isNameChar x = false := fun x hx => isNameChar_of_blank (hc x hx)
  exact h.pass hf (clear_of_no_name hn hclear) (clear_of_no_name hn hclear)

theorem Agree.behind (hn : IsName n) (hf : Passes (marker n) f) (hd : Blank d)
    (he : isDelimiter e = true) (h : Agree f R t t') : Agree f R (d ++ e :: t) (d ++ e :: t') :=
  .blank hn hf hd (h.cons hn hf (isNameChar_of_delimiter he))

theorem not_mem_marker (hn : IsName n) (hc : isNameChar e = false) (hcolon : e ≠ ':')
    (hspace : e ≠ ' ') : e ∉ marker n := by
  have hne : e ∉ n := fun h => by
    rw [hn.chars e h] at hc
    cases hc
  simp [marker, hne, hcolon, hspace]

theorem textEnd_not_mem_marker (hn : IsName n) (he : isTextEnd e = true) : e ∉ marker n := by
  apply not_mem_marker hn (isNameChar_of_textEnd he) <;> rintro rfl <;> exact absurd he (by decide)

theorem lastOf_marker (n : Text) (p : Option Char) : lastOf p (marker n) = some ' ' := by
  have h := lastOf_concat p (n ++ [':']) ' '
  rwa [List.append_assoc] at h

theorem Offers.bracket_mem (h : Offers n p a) : '{' ∈ a ∨ '[' ∈ a := by
  obtain ⟨x, b, c, y, rfl, -, -, rfl | rfl⟩ := h <;> simp

theorem Offers.behind (h : Offers n (lastOf p x) a) : Offers n p (x ++ a) := by
  obtain ⟨x', b, c, y, rfl, hprev, hrest⟩ := h
  refine ⟨x ++ x', b, c, y, by simp, ?_, hrest⟩
  rwa [lastOf, List.foldl_append]

theorem Offers.first (h : Offers n p a) : Offers n none a := by
  obtain ⟨x, b, c, y, rfl, hprev, hrest⟩ := h
  refine ⟨x, b, c, y, rfl, ?_, hrest⟩
  cases x with
  | nil => rfl
  | cons d x => exact hprev

theorem Offers.of_blank (hd : Blank d) (h : Offers n p (u ++ d)) : Offers n p u := by
  obtain ⟨x, b, c, y, h, hprev, hb, hc⟩ := h
  have hcd : c ∉ d := hd.not_mem (by rcases hc with rfl | rfl <;> decide)
  have h : u ++ d = (x ++ (marker n ++ b)) ++ c :: y := by simpa using h
  rcases List.append_eq_append_iff.mp h with ⟨z, -, hz⟩ | ⟨z, hu, hz⟩
  · exact absurd (by rw [hz]; simp) hcd
  · cases z with
    | nil =>
        rw [List.nil_append] at hz
        exact absurd (by rw [← hz]; simp) hcd
    | cons e z =>
        obtain ⟨rfl, -⟩ := List.cons.inj hz
        exact ⟨x, b, c, z, by rw [hu]; simp, hprev, hb, hc⟩

theorem Unmarked.blank (h : Unmarked (u ++ [' '])) (hd : Blank d) : Unmarked (u ++ d) where
  command hi := h.command (infix_blank hd hi)
  sort ho := by
    obtain ⟨x, b, c, y, hu, hrest⟩ := ho.of_blank hd
    exact h.sort ⟨x, b, c, y ++ [' '], by rw [hu]; simp, hrest⟩

theorem balanced?_behind_marker (he : isTextEnd e = true) (hu : ¬Offers n p (marker n ++ u))
    (hp : p.any isNameChar = false) (t : Text) : balanced? (dropBlank (u ++ e :: t)) = none := by
  obtain ⟨b, hb, hsplit⟩ := exists_dropBlank u
  cases hd : dropBlank u with
  | nil =>
      have hend : isBlank e = false ∧ e ≠ '{' ∧ e ≠ '[' := by
        rcases isTextEnd_cases he with rfl | rfl | rfl | rfl <;> decide
      rw [hd, List.append_nil] at hsplit
      rw [hsplit, dropBlank_append hb, dropBlank_cons hend.1]
      exact balanced?_eq_none hend.2 t
  | cons c y =>
      rw [hd] at hsplit
      have hc : c ≠ '{' ∧ c ≠ '[' :=
        not_or.mp fun hc => hu ⟨[], b, c, y, by rw [hsplit]; rfl, hp, hb, hc⟩
      rw [hsplit, List.append_assoc, dropBlank_append hb, List.cons_append,
        dropBlank_cons (isBlank_of_dropBlank hd)]
      exact balanced?_eq_none hc _

theorem documentAfterFrom_pass (hn : IsName n) (he : isTextEnd e = true) (hu : ¬Offers n p u)
    (t : Text) :
    documentAfterFrom (marker n) 0 p (u ++ e :: t) =
      documentAfterFrom (marker n) 0 (some e) t := by
  have hpass := passes_documentAfter (marker n)
  induction hk : u.length using Nat.strongRecOn generalizing u p with
  | ind k ih =>
      cases u with
      | nil => exact hpass.cons hn (isNameChar_of_textEnd he) p t
      | cons c u =>
          by_cases hm : marker n <+: c :: (u ++ e :: t)
          · obtain ⟨y, hy⟩ := prefix_of_not_mem (z := c :: u) (textEnd_not_mem_marker hn he) hm
            rw [← hy] at hu hk ⊢
            have hnone : (if p.any isNameChar then none
                else balanced? (dropBlank (y ++ e :: t))) = none := by
              split
              next => rfl
              next hp => exact balanced?_behind_marker he hu (Bool.eq_false_iff.mpr hp) t
            have hlater : ¬Offers n (some ' ') y := by
              intro ho
              refine hu (.behind ?_)
              rwa [lastOf_marker]
            have hshorter : y.length < k := by
              rw [← hk, List.length_append]
              simp [marker]
            rw [List.append_assoc, documentAfter_found, hnone, Option.map_none, Option.none_or]
            exact ih y.length hshorter hlater rfl
          · have hlater : ¬Offers n (some c) u := fun ho => hu (ho.behind (x := [c]))
            rw [List.cons_append, hpass p c _ hm]
            exact ih u.length (by rw [← hk]; simp) hlater rfl

theorem Agree.string (hn : IsName n) (h : Compares n f R) (ha : Unmarked a) (hb : Unmarked b)
    (hr : Agree f R t t') : Agree f R ('"' :: a ++ ['"'] ++ t) ('"' :: b ++ ['"'] ++ t') := by
  intro p
  have hskip : ∀ {a} t, Unmarked a → f p ('"' :: a ++ ['"'] ++ t) = f (some '"') t := by
    intro a t ha
    rw [List.append_assoc, List.cons_append, h.passes.cons hn (by decide)]
    exact h.skips _ t ha rfl
  rw [hskip t ha, hskip t' hb]
  exact hr _

theorem Agree.scalar (h : Compares n f R) (hu : Unmarked (u ++ [' '])) (hd : Blank d)
    (he : isDelimiter e = true) (hr : Agree f R t t') :
    Agree f R (u ++ (d ++ e :: t)) (u ++ (d ++ e :: t')) := by
  intro p
  have hend : isTextEnd e = true := by rw [isTextEnd, he, Bool.or_true]
  rw [← List.append_assoc, ← List.append_assoc, h.skips p t (hu.blank hd) hend,
    h.skips p t' (hu.blank hd) hend]
  exact hr _

theorem colon_not_mem_key {w : Text} (hk : KeyText k w) (hn : IsName k) : ':' ∉ w := by
  rcases key_cases hk hn with rfl | ⟨q, hq, rfl⟩
  · exact colon_not_mem hn
  · have hcolon : ':' ≠ q := by
      rintro rfl
      exact absurd hq (by decide)
    simp [hcolon, colon_not_mem hn]

theorem Agree.key (hn : IsName n) (hf : Passes (marker n) f) (ha : Blank a) (hk : KeyText k u)
    (hname : IsName k) (hb : Blank b) (hc : Blank c) (ht : ¬[' '] <+: t) (ht' : ¬[' '] <+: t')
    (hfound : ∀ c, Blank c → Agree f R (marker n ++ (c ++ t)) (marker n ++ (c ++ t')))
    (h : Agree f R (c ++ t) (c ++ t')) :
    Agree f R (a ++ (u ++ (b ++ ':' :: (c ++ t)))) (a ++ (u ++ (b ++ ':' :: (c ++ t')))) := by
  have hcolon : ':' ∉ a ++ (u ++ b) := by
    simp [ha.not_mem (c := ':') (by decide), hb.not_mem (c := ':') (by decide),
      colon_not_mem_key hk hname]
  by_cases hhit : n <:+ a ++ (u ++ b) ∧ ∃ c', c = ' ' :: c'
  · obtain ⟨⟨x, hx⟩, c, rfl⟩ := hhit
    have hsplit : ∀ t, a ++ (u ++ (b ++ ':' :: (' ' :: c ++ t))) = x ++ (marker n ++ (c ++ t)) := by
      intro t
      have he := congrArg (· ++ ':' :: ' ' :: (c ++ t)) hx
      simpa [marker] using he.symm
    have hxc : ':' ∉ x := fun h => hcolon (hx ▸ List.mem_append_left n h)
    have hclear : ∀ t, Clear (marker n) x (marker n ++ (c ++ t)) := by
      intro t
      have h := clear_before_key hn (t := ' ' :: (c ++ t)) hxc
      simpa [marker] using h
    have hc : Blank c := (List.forall_mem_cons.mp hc).2
    rw [hsplit, hsplit]
    exact (hfound c hc).pass hf (hclear t) (hclear t')
  · have hclear : ∀ {t}, ¬[' '] <+: t → Clear (marker n) (a ++ (u ++ b) ++ [':']) (c ++ t) := by
      intro t ht
      refine clear_key hn hcolon fun hs => ?_
      cases c with
      | nil => exact ht hs.2
      | cons y c => exact hhit ⟨hs.1, c, by rw [← (List.cons_prefix_cons.mp hs.2).1]⟩
    have h := h.pass hf (hclear ht) (hclear ht')
    simpa using h

theorem head_ne_space {v : Value} {w : Text} (h : Written (.value v) w) (t : Text) :
    ¬[' '] <+: w ++ t := by
  obtain ⟨c, u, rfl, hc⟩ := h.head
  intro hs
  rw [← (List.cons_prefix_cons.mp hs).1] at hc
  exact absurd hc (by decide)

/-- What a search finds in front of two documents depends on what it finds behind them. -/
theorem Compares.retold (h : Compares n f R) (hn : IsName n) {p p' : Part} {w w' : Text}
    (hr : Retold p p' w w') : Agrees f R p w w' := by
  have hf := h.passes
  induction hr with
  | literal hl hs =>
      intro c d e r r' s hc hd he _ hrest
      exact .blank hn hf hc (.scalar h hs.unmarked hd he hrest)
  | string ha hb hma hmb =>
      intro c d e r r' s hc hd he _ hrest
      exact .blank hn hf hc (.string hn h hma hmb (hrest.behind hn hf hd he))
  | emptyObject hb =>
      intro c d e r r' s hc hd he _ hrest
      have hinner := (hrest.behind hn hf hd he).behind hn hf hb (e := '}') rfl
      simpa using (hinner.cons hn hf (e := '{') (by decide)).blank hn hf hc
  | object hms ih =>
      intro c d e r r' s hc hd he ha hrest
      have hinner := ih _ _ s (alike_delimiter hd he ha) (hrest.behind hn hf hd he)
      exact (hinner.cons hn hf (e := '{') (by decide)).blank hn hf hc
  | emptyArray hb =>
      intro c d e r r' s hc hd he _ hrest
      have hinner := (hrest.behind hn hf hd he).behind hn hf hb (e := ']') rfl
      simpa using (hinner.cons hn hf (e := '[') (by decide)).blank hn hf hc
  | array hvs ih =>
      intro c d e r r' s hc hd he ha hrest
      have hinner := ih _ _ s (alike_delimiter hd he ha) (hrest.behind hn hf hd he)
      exact (hinner.cons hn hf (e := '[') (by decide)).blank hn hf hc
  | lastMember ha hk hname hb hc hv hd ih =>
      intro r r' s hr hrest
      have hvalue := fun c hc => ih c _ '}' r r' s hc hd rfl hr hrest
      have hkey := Agree.key hn hf ha hk hname hb hc (head_ne_space hv.written _)
        (head_ne_space hv.symm.written _)
        (fun c hc => h.found hv hc hd rfl hr (hvalue c hc)) (hvalue _ hc)
      simpa using hkey
  | member ha hk hname hb hc hv hd hms ih ihs =>
      intro r r' s hr hrest
      have hr' := hms.alike.append hr
      have hvalue := fun c hc => ih c _ ',' _ _ s hc hd rfl hr' (ihs r r' s hr hrest)
      have hkey := Agree.key hn hf ha hk hname hb hc (head_ne_space hv.written _)
        (head_ne_space hv.symm.written _)
        (fun c hc => h.found hv hc hd rfl hr' (hvalue c hc)) (hvalue _ hc)
      simpa using hkey
  | lastItem hc hv hd ih =>
      intro r r' s hr hrest
      simpa using ih _ _ ']' r r' s hc hd rfl hr hrest
  | item hc hv hd hvs ih ihs =>
      intro r r' s hr hrest
      simpa using ih _ _ ',' _ _ s hc hd rfl (hvs.alike.append hr) (ihs r r' s hr hrest)

end SlowQuery.Record
