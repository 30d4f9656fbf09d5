import SlowQuery.Proofs.Reading

namespace SlowQuery.Payload

open Text

def scanStep : Scan → Char → Scan
  | .outside, c => if c = '"' then .inString else .outside
  | .inString, c => if c = '\\' then .escaped else if c = '"' then .outside else .inString
  | .escaped, _ => .inString

def scanRun (s : Scan) (t : Text) : Scan := t.foldl scanStep s

def closes (opener closer : Char) : Scan → (depth : Nat) → Char → Bool
  | .outside, d, c => c ≠ '"' && c ≠ opener && c = closer && d ≤ 1
  | _, _, _ => false

def depthStep (opener closer : Char) : Scan → (depth : Nat) → Char → Nat
  | .outside, d, c => if c = '"' then d else if c = opener then d + 1 else if c = closer then d - 1 else d
  | _, d, _ => d

def depthRun (opener closer : Char) : Scan → (depth : Nat) → Text → Option Nat
  | _, d, [] => some d
  | s, d, c :: t =>
    if closes opener closer s d c then none
    else depthRun opener closer (scanStep s c) (depthStep opener closer s d c) t

variable {opener closer : Char} {s s' : Scan} {d d' : Nat} {t t' : Text}

theorem closeFrom_cons (c : Char) (t : Text) :
    closeFrom opener closer s d (c :: t) =
      if closes opener closer s d c then some ([c], t)
      else (closeFrom opener closer (scanStep s c) (depthStep opener closer s d c) t).map
        fun (l, r) => (c :: l, r) := by
  cases s with
  | escaped => rfl
  | inString => rfl
  | outside =>
      rw [closeFrom]
      by_cases hq : c = '"'
      · simp [hq, closes, scanStep, depthStep]
      · by_cases ho : c = opener
        · subst ho
          simp [hq, closes, scanStep, depthStep]
        · by_cases hc : c = closer
          · subst hc
            by_cases hd : d ≤ 1 <;> simp [hq, ho, hd, closes, scanStep, depthStep]
          · simp [hq, ho, hc, closes, scanStep, depthStep]

theorem closeFrom_here {c : Char} (h : closes opener closer s d c = true) (t : Text) :
    closeFrom opener closer s d (c :: t) = some ([c], t) := by
  rw [closeFrom_cons, if_pos h]

theorem closeFrom_later {c : Char} {l r : Text} (h : ¬closes opener closer s d c = true)
    (hl : closeFrom opener closer (scanStep s c) (depthStep opener closer s d c) t = some (l, r)) :
    closeFrom opener closer s d (c :: t) = some (c :: l, r) := by
  rw [closeFrom_cons, if_neg h, hl]
  rfl

theorem scanRun_append (s : Scan) (t u : Text) : scanRun s (t ++ u) = scanRun (scanRun s t) u :=
  List.foldl_append

theorem closer_of_closes {c : Char} (h : closes opener closer s d c = true) : c = closer := by
  cases s with
  | outside =>
      simp only [closes, Bool.and_eq_true, decide_eq_true_eq] at h
      exact h.1.2
  | inString | escaped => cases h

theorem closeFrom_sound {l r : Text} (h : closeFrom opener closer s d t = some (l, r)) :
    t = l ++ r ∧ ∃ u, l = u ++ [closer] := by
  induction t generalizing s d l with
  | nil => cases s <;> cases h
  | cons c t ih =>
      rw [closeFrom_cons] at h
      split at h
      next hc =>
        obtain ⟨rfl, rfl⟩ := Prod.mk.inj (Option.some.inj h)
        exact ⟨rfl, [], by rw [closer_of_closes hc]; rfl⟩
      next =>
        obtain ⟨⟨l', r'⟩, hl, he⟩ := Option.map_eq_some_iff.mp h
        obtain ⟨rfl, rfl⟩ := Prod.mk.inj he
        obtain ⟨ht, u, hu⟩ := ih hl
        exact ⟨by rw [ht]; rfl, c :: u, by rw [hu]; rfl⟩

theorem closeFrom_of_open (h : depthRun opener closer s d t = some d') (rest : Text) :
    closeFrom opener closer s d (t ++ rest) =
      (closeFrom opener closer (scanRun s t) d' rest).map fun (l, r) => (t ++ l, r) := by
  induction t generalizing s d with
  | nil =>
      obtain rfl := Option.some.inj h
      rw [List.nil_append]
      exact (congrFun Option.map_id _).symm
  | cons c t ih =>
      rw [depthRun] at h
      split at h
      · cases h
      next hc =>
        rw [List.cons_append, closeFrom_cons, if_neg hc, ih h, Option.map_map]
        rfl

theorem closeFrom_of_closed (h : depthRun opener closer s d t = none) :
    ∃ l r, t = l ++ r ∧ ∀ rest, closeFrom opener closer s d (t ++ rest) = some (l, r ++ rest) := by
  induction t generalizing s d with
  | nil => cases h
  | cons c t ih =>
      rw [depthRun] at h
      split at h
      next hc => exact ⟨[c], t, rfl, fun rest => closeFrom_here hc (t ++ rest)⟩
      next hc =>
        obtain ⟨l, r, ht, hl⟩ := ih h
        exact ⟨c :: l, r, by rw [ht]; rfl, fun rest => closeFrom_later hc (hl rest)⟩

theorem closeFrom_eq_none_iff :
    closeFrom opener closer s d t = none ↔ ∃ d', depthRun opener closer s d t = some d' := by
  cases h : depthRun opener closer s d t with
  | none =>
      obtain ⟨l, r, -, hl⟩ := closeFrom_of_closed h
      have ht := hl []
      rw [List.append_nil] at ht
      simp [ht]
  | some d' =>
      have ht := closeFrom_of_open h []
      rw [List.append_nil] at ht
      simp [ht, closeFrom]

theorem closeFrom_append {l r : Text} (h : closeFrom opener closer s d t = some (l, r)) (u : Text) :
    closeFrom opener closer s d (t ++ u) = some (l, r ++ u) := by
  cases hd : depthRun opener closer s d t with
  | none =>
      obtain ⟨l', r', -, hl⟩ := closeFrom_of_closed hd
      have ht := hl []
      rw [List.append_nil, h] at ht
      obtain ⟨rfl, hr⟩ := Prod.mk.inj (Option.some.inj ht)
      rw [hl, hr, List.append_nil]
  | some n =>
      rw [closeFrom_eq_none_iff.mpr ⟨n, hd⟩] at h
      cases h

theorem depthRun_append (h : depthRun opener closer s d t = some d') (u : Text) :
    depthRun opener closer s d (t ++ u) = depthRun opener closer (scanRun s t) d' u := by
  induction t generalizing s d with
  | nil => rw [← Option.some.inj h]; rfl
  | cons c t ih =>
      rw [depthRun] at h
      split at h
      · cases h
      next hc =>
        rw [List.cons_append, depthRun, if_neg hc, ih h]
        rfl

theorem depthRun_of_closed (hd : 1 ≤ d) (h : closeFrom opener closer s d t = some (t, [])) :
    depthRun opener closer s (d + 1) t = some 1 := by
  induction t generalizing s d with
  | nil => cases s <;> cases h
  | cons c t ih =>
      have hopen : closes opener closer s (d + 1) c = false := by
        cases s with
        | outside => simp [closes]; omega
        | inString | escaped => rfl
      rw [closeFrom_cons] at h
      rw [depthRun, hopen, if_neg (by decide)]
      split at h
      next hc =>
        obtain rfl := (Prod.mk.inj (Option.some.inj h)).2
        cases s with
        | inString | escaped => cases hc
        | outside =>
            simp only [closes, Bool.and_eq_true, decide_eq_true_eq] at hc
            obtain ⟨⟨⟨hq, ho⟩, rfl⟩, hle⟩ := hc
            have hd : d = 1 := by omega
            simp [depthRun, depthStep, hq, ho, hd]
      next hc =>
        obtain ⟨⟨l, r⟩, hl, he⟩ := Option.map_eq_some_iff.mp h
        obtain ⟨hlt, rfl⟩ := Prod.mk.inj he
        obtain rfl := (List.cons.inj hlt).2
        have hstep : depthStep opener closer s (d + 1) c = depthStep opener closer s d c + 1 ∧
            1 ≤ depthStep opener closer s d c := by
          cases s with
          | inString | escaped => exact ⟨rfl, hd⟩
          | outside =>
              simp only [closes, Bool.and_eq_true, decide_eq_true_eq, not_and] at hc
              simp only [depthStep]
              split
              · exact ⟨rfl, hd⟩
              · split
                · exact ⟨rfl, by omega⟩
                · split
                  next hq ho hcl =>
                    have hlt : ¬d ≤ 1 := hc ⟨by simpa using ⟨hq, ho⟩, hcl⟩
                    omega
                  next => exact ⟨rfl, hd⟩
        rw [hstep.1]
        exact ih hstep.2 hl

theorem balanced?_eq_none {x : Char} (hx : x ≠ '{' ∧ x ≠ '[') (t : Text) :
    balanced? (x :: t) = none := by
  rw [balanced?]
  · rintro y h
    exact hx.1 (List.cons.inj h).1
  · rintro y h
    exact hx.2 (List.cons.inj h).1

theorem balanced?_sound {l r : Text} (h : balanced? t = some (l, r)) : t = l ++ r := by
  unfold balanced? at h
  split at h
  · exact (closeFrom_sound h).1
  · exact (closeFrom_sound h).1
  · cases h

theorem balanced?_append {l r : Text} (h : balanced? t = some (l, r)) (u : Text) :
    balanced? (t ++ u) = some (l, r ++ u) := by
  unfold balanced? at h
  split at h
  · exact closeFrom_append h u
  · exact closeFrom_append h u
  · cases h

theorem leadingPayload_append {u d : Text} (hu : '{' ∉ u)
    (hd : balanced? ('{' :: d) = some ('{' :: d, [])) (t : Text) :
    leadingPayload (u ++ ('{' :: d ++ t)) = u ++ '{' :: d := by
  have hbefore : ∀ c ∈ u, (c != '{') = true := by
    intro c hc
    rw [bne_iff_ne]
    rintro rfl
    exact hu hc
  have hspan := span_append_cons hbefore (c := '{') (by decide) (d ++ t)
  have hcut := balanced?_append hd t
  rw [List.nil_append] at hcut
  rw [List.cons_append] at hcut ⊢
  simp only [leadingPayload, hspan, hcut]

theorem byteLength_append (t u : Text) : byteLength (t ++ u) = byteLength t + byteLength u := by
  induction t with
  | nil => exact (Nat.zero_add _).symm
  | cons c t ih => rw [List.cons_append, byteLength, byteLength, ih, Nat.add_assoc]

theorem byteLength_sub (a u : Text) : byteLength (a ++ u) - byteLength u = byteLength a := by
  rw [byteLength_append, Nat.add_sub_cancel]

theorem eq_nil_of_byteLength (h : byteLength t = 0) : t = [] := by
  cases t with
  | nil => rfl
  | cons c t =>
      have hsize := c.utf8Size_pos
      rw [byteLength] at h
      omega

theorem balanced?_of_closing (h : closing? t 0 = some (byteLength t)) :
    balanced? t = some (t, []) := by
  rw [closing?, fromByte?, Option.bind_eq_bind, Option.bind_some] at h
  obtain ⟨⟨l, r⟩, hb, hl⟩ := Option.bind_eq_some_iff.mp h
  have hlength : 0 + byteLength l = byteLength t := Option.some.inj hl
  have ht := balanced?_sound hb
  rw [ht, byteLength_append] at hlength
  obtain rfl := eq_nil_of_byteLength (t := r) (by omega)
  rw [List.append_nil] at ht
  rw [hb, ← ht]

/-- The content of a string that holds no quote and no escape, and does not end the line. -/
def Content (a : Text) : Prop := ∀ c ∈ a, c ≠ '"' ∧ c ≠ '\\' ∧ c ≠ '\n'

instance (a : Text) : Decidable (Content a) := List.decidableBAll _ a

/-- Texts that are the same outside of double-quoted strings, as the scan sees them when it reads
them from the first state to the second. -/
inductive Alike : Scan → Text → Text → Scan → Prop
  | nil (s : Scan) : Alike s [] [] s
  | same (c : Char) {s s' : Scan} {t t' : Text} (h : Alike (scanStep s c) t t' s') :
      Alike s (c :: t) (c :: t') s'
  | string {a b t t' : Text} {s' : Scan} (ha : Content a) (hb : Content b)
      (h : Alike .outside t t' s') :
      Alike .outside ('"' :: (a ++ '"' :: t)) ('"' :: (b ++ '"' :: t')) s'

theorem Alike.refl (s : Scan) (t : Text) : Alike s t t (scanRun s t) := by
  induction t generalizing s with
  | nil => exact .nil s
  | cons c t ih => exact .same c (ih (scanStep s c))

theorem Alike.append {u u' : Text} {s'' : Scan} (h : Alike s t t' s') (hu : Alike s' u u' s'') :
    Alike s (t ++ u) (t' ++ u') s'' := by
  induction h with
  | nil => exact hu
  | same c _ ih => exact .same c (ih hu)
  | string ha hb _ ih =>
      simp only [List.cons_append, List.append_assoc]
      exact .string ha hb (ih hu)

theorem scanRun_of_no_quote {u : Text} (hu : '"' ∉ u) : scanRun .outside u = .outside := by
  induction u with
  | nil => rfl
  | cons c u ih =>
      rw [List.mem_cons, not_or] at hu
      have hstep : scanStep .outside c = .outside := by simp [scanStep, Ne.symm hu.1]
      rw [scanRun, List.foldl_cons, hstep]
      exact ih hu.2

theorem Alike.prepend {u : Text} (hu : scanRun .outside u = .outside)
    (h : Alike .outside t t' s') : Alike .outside (u ++ t) (u ++ t') s' := by
  have hsame := Alike.refl .outside u
  rw [hu] at hsame
  exact hsame.append h

theorem scanStep_content {c : Char} (hq : c ≠ '"') (he : c ≠ '\\') :
    scanStep .inString c = .inString := by
  simp [scanStep, hq, he]

theorem scanRun_content {a : Text} (ha : Content a) : scanRun .inString a = .inString := by
  induction a with
  | nil => rfl
  | cons c a ih =>
      obtain ⟨⟨hq, he, -⟩, ha⟩ := List.forall_mem_cons.mp ha
      rw [scanRun, List.foldl_cons, scanStep_content hq he]
      exact ih ha

theorem scanRun_string {a : Text} (ha : Content a) (t : Text) :
    scanRun .outside ('"' :: (a ++ '"' :: t)) = scanRun .outside t := by
  rw [← List.singleton_append, scanRun_append, scanRun_append,
    show scanRun .outside ['"'] = .inString from rfl, scanRun_content ha]
  rfl

theorem depthRun_content {a : Text} (ha : Content a) (t : Text) :
    depthRun opener closer .outside d ('"' :: (a ++ '"' :: t)) =
      depthRun opener closer .outside d t := by
  have inside : ∀ a : Text, Content a → depthRun opener closer .inString d (a ++ '"' :: t) =
      depthRun opener closer .outside d t := by
    intro a ha
    induction a with
    | nil => rfl
    | cons c a ih =>
        obtain ⟨⟨hq, he, -⟩, ha⟩ := List.forall_mem_cons.mp ha
        rw [List.cons_append, depthRun, scanStep_content hq he]
        exact ih ha
  rw [depthRun]
  simpa [closes, scanStep, depthStep] using inside a ha

theorem closeFrom_content {a l r : Text} (ha : Content a)
    (h : closeFrom opener closer .outside d t = some (l, r)) :
    closeFrom opener closer .outside d ('"' :: (a ++ '"' :: t)) =
      some ('"' :: (a ++ '"' :: l), r) := by
  have hd : depthRun opener closer .outside d ('"' :: (a ++ ['"'])) = some d :=
    depthRun_content ha []
  have ht := closeFrom_of_open hd t
  rw [scanRun_string ha, show scanRun .outside [] = .outside from rfl, h] at ht
  simpa using ht

theorem Alike.depthRun_eq (h : Alike s t t' s') (d : Nat) :
    depthRun opener closer s d t = depthRun opener closer s d t' := by
  induction h generalizing d with
  | nil => rfl
  | same c _ ih => rw [depthRun, depthRun, ih]
  | string ha hb _ ih => rw [depthRun_content ha, depthRun_content hb, ih]

theorem Alike.scanRun_eq (h : Alike s t t' s') : scanRun s t = s' ∧ scanRun s t' = s' := by
  induction h with
  | nil => exact ⟨rfl, rfl⟩
  | same c _ ih => exact ih
  | string ha hb _ ih => rwa [scanRun_string ha, scanRun_string hb]

theorem Alike.eq_nil_iff (h : Alike s t t' s') : t = [] ↔ t' = [] := by
  cases h with
  | nil => rfl
  | same | string => simp

theorem Alike.closed (h : Alike s t t' s') (hd : depthRun opener closer s d t = none) :
    ∃ l r l' r', t = l ++ r ∧ t' = l' ++ r' ∧ (r = [] ↔ r' = []) ∧
      ∀ rest rest', closeFrom opener closer s d (t ++ rest) = some (l, r ++ rest) ∧
        closeFrom opener closer s d (t' ++ rest') = some (l', r' ++ rest') := by
  induction h generalizing d with
  | nil => cases hd
  | @same c s s' t t' h ih =>
      rw [depthRun] at hd
      split at hd
      next hc =>
        exact ⟨[c], t, [c], t', rfl, rfl, h.eq_nil_iff, fun rest rest' =>
          ⟨closeFrom_here hc (t ++ rest), closeFrom_here hc (t' ++ rest')⟩⟩
      next hc =>
        obtain ⟨l, r, l', r', ht, ht', hr, hl⟩ := ih hd
        refine ⟨c :: l, r, c :: l', r', by rw [ht]; rfl, by rw [ht']; rfl, hr, fun rest rest' => ?_⟩
        obtain ⟨hl, hl'⟩ := hl rest rest'
        exact ⟨closeFrom_later hc hl, closeFrom_later hc hl'⟩
  | @string a b t t' s' ha hb h ih =>
      rw [depthRun_content ha] at hd
      obtain ⟨l, r, l', r', rfl, rfl, hr, hl⟩ := ih hd
      refine ⟨'"' :: (a ++ '"' :: l), r, '"' :: (b ++ '"' :: l'), r', by simp, by simp, hr,
        fun rest rest' => ?_⟩
      obtain ⟨hl, hl'⟩ := hl rest rest'
      constructor
      · simpa using closeFrom_content ha hl
      · simpa using closeFrom_content hb hl'

theorem Alike.isSome_closeFrom (h : Alike s t t' s') (d : Nat) :
    (closeFrom opener closer s d t).isSome = (closeFrom opener closer s d t').isSome := by
  rw [Bool.eq_iff_iff, ← not_iff_not]
  simp only [Bool.not_eq_true, Option.isSome_eq_false_iff, Option.isNone_iff_eq_none,
    closeFrom_eq_none_iff, h.depthRun_eq]

theorem Alike.mem_newline_iff (h : Alike s t t' s') : '\n' ∈ t ↔ '\n' ∈ t' := by
  induction h with
  | nil => rfl
  | same c _ ih => rw [List.mem_cons, List.mem_cons, ih]
  | @string a b t t' s' ha hb _ ih =>
      have hna : '\n' ∉ a := fun h => (ha _ h).2.2 rfl
      have hnb : '\n' ∉ b := fun h => (hb _ h).2.2 rfl
      simp [hna, hnb, ih]

theorem Written.compound {v : Value} {w : Text} (h : Written (.value v) w)
    (hv : ∀ s, v ≠ .scalar s) :
    (∃ u, w = '{' :: u ∨ w = '[' :: u) ∧
      ∀ n rest, 2 * w.length < n → value n (w ++ rest) = .ok (v, rest) := by
  have hr := h.reads
  cases h with
  | scalar => exact absurd rfl (hv _)
  | emptyObject | object => exact ⟨⟨_, .inl rfl⟩, fun n rest hn => hr n [] rest hn blank_nil⟩
  | emptyArray | array => exact ⟨⟨_, .inr rfl⟩, fun n rest hn => hr n [] rest hn blank_nil⟩

theorem Written.append_inj {v v' : Value} {w w' r r' : Text} (h : Written (.value v) w)
    (h' : Written (.value v') w') (hv : ∀ s, v ≠ .scalar s) (hv' : ∀ s, v' ≠ .scalar s)
    (he : w ++ r = w' ++ r') : w = w' ∧ r = r' := by
  have hread := (h.compound hv).2 (2 * (w.length + w'.length) + 1) r (by omega)
  have hread' := (h'.compound hv').2 (2 * (w.length + w'.length) + 1) r' (by omega)
  rw [he, hread'] at hread
  obtain rfl := (Prod.mk.inj (Except.ok.inj hread)).2
  exact ⟨List.append_cancel_right he, rfl⟩

theorem Written.append_inj_of_eq {v : Value} {w w' r r' : Text} (h : Written (.value v) w)
    (h' : Written (.value v) w') (he : w ++ r = w' ++ r') : w = w' ∧ r = r' := by
  by_cases hv : ∃ s, v = .scalar s
  · obtain ⟨s, rfl⟩ := hv
    cases h
    cases h'
    exact ⟨rfl, List.append_cancel_left he⟩
  · rw [not_exists] at hv
    exact h.append_inj h' hv hv he

theorem parse_of_extended {v : Value} {w l : Text} (h : Written (.value v) w)
    (hv : ∀ s, v ≠ .scalar s) (hl : ¬Blank l) (u : Value) : parse (w ++ l) ≠ .ok u := by
  intro hp
  have hread := (h.compound hv).2 (2 * (w ++ l).length + 1) l (by rw [List.length_append]; omega)
  rw [parse] at hp
  simp only [hread] at hp
  split at hp
  next hd => exact hl (blank_of_dropBlank hd)
  next => cases hp

theorem Document.compound {v : Value} {c : Char} {w : Text} (h : Document v (c :: w))
    (hc : c = '{' ∨ c = '[') : Written (.value v) (c :: w) ∧ ∀ s, v ≠ .scalar s := by
  rcases h with h | ⟨k, h, -⟩
  · refine ⟨h, ?_⟩
    rintro s rfl
    generalize ht : c :: w = t at h
    cases h with
    | scalar h =>
        obtain ⟨d, u, hu, -, hd⟩ := h.head
        obtain rfl := (List.cons.inj (ht.trans hu)).1
        exact hc.elim hd.1 hd.2
  · obtain ⟨d, u, hu, -, -, hd⟩ := h.first
    obtain rfl := (List.cons.inj hu).1
    rcases hc with rfl | rfl <;> exact absurd hd (by decide)

theorem parse_opened {v : Value} {c : Char} {t : Text} (hc : c = '{' ∨ c = '[')
    (h : parse (c :: t) = .ok v) :
    ∃ w d, t = w ++ d ∧ Blank d ∧ Written (.value v) (c :: w) ∧ ∀ s, v ≠ .scalar s := by
  obtain ⟨a, w, d, ha, hd, ht, hw⟩ := parse_eq_ok_iff.mp h
  have hsolid : isBlank c = false := by
    rcases hc with rfl | rfl <;> decide
  -- The document begins with the text, since white space does not open it.
  obtain rfl : a = [] := by
    cases a with
    | nil => rfl
    | cons b a =>
        obtain rfl := (List.cons.inj ht).1
        exact absurd List.mem_cons_self (ha.not_mem hsolid)
  obtain ⟨z, rfl⟩ : ∃ z, w = c :: z := by
    cases w with
    | nil =>
        rw [List.nil_append, List.nil_append] at ht
        exact absurd (ht ▸ List.mem_cons_self) (hd.not_mem hsolid)
    | cons b z => exact ⟨z, by rw [(List.cons.inj ht).1]⟩
  exact ⟨z, d, (List.cons.inj ht).2, hd, hw.compound hc⟩

theorem parse_of_shortened {v : Value} {l r : Text} (h : Written (.value v) (l ++ r))
    (hv : ∀ s, v ≠ .scalar s) (hl : l ≠ []) (hr : r ≠ []) (u : Value) : parse l ≠ .ok u := by
  intro hp
  obtain ⟨⟨x, hx⟩, -⟩ := h.compound hv
  obtain ⟨c, y, rfl⟩ := List.exists_cons_of_ne_nil hl
  have hc : c = '{' ∨ c = '[' := by
    rw [List.cons_append] at hx
    exact hx.imp (fun h => (List.cons.inj h).1) fun h => (List.cons.inj h).1
  obtain ⟨z, d, rfl, -, hw, hu⟩ := parse_opened hc hp
  -- Read with what was cut off behind it, the value would end there and at the end of all.
  have he : (c :: z) ++ (d ++ r) = (c :: (z ++ d) ++ r) ++ [] := by simp
  have hnil := (hw.append_inj h hu hv he).2
  exact hr (List.append_eq_nil_iff.mp hnil).2

end SlowQuery.Payload
