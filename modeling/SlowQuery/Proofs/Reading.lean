import SlowQuery.Proofs.Written

namespace SlowQuery.Payload

open Text

/-- A whole text may end in a word with open parentheses, which is no part of any other value. -/
def Document (v : Value) (w : Text) : Prop :=
  Written (.value v) w ∨ ∃ d, IsWord d w ∧ v = .scalar (.ofWord w)

def ValueSound (n : Nat) : Prop := ∀ t v r, value n t = .ok (v, r) →
  ∃ a w d, Blank a ∧ Blank d ∧ t = a ++ (w ++ (d ++ r)) ∧ Document v w ∧
    (r ≠ [] → Written (.value v) w)

def MembersSound (n : Nat) : Prop := ∀ t ms r, members n t = .ok (ms, r) →
  ∃ w, t = w ++ r ∧ Written (.members ms) w

def ItemsSound (n : Nat) : Prop := ∀ t vs r, items n t = .ok (vs, r) →
  ∃ w, t = w ++ r ∧ Written (.items vs) w

theorem valueSound_succ {n : Nat} (hm : MembersSound n) (hi : ItemsSound n) :
    ValueSound (n + 1) := by
  intro t v r h
  obtain ⟨a, ha, ht⟩ := exists_dropBlank t
  rw [value] at h
  split at h
  · cases h
  next t' hd =>
    rw [hd] at ht
    obtain ⟨b, hb, ht'⟩ := exists_dropBlank t'
    split at h
    next u hu =>
      obtain ⟨rfl, rfl⟩ := Prod.mk.inj (Except.ok.inj h)
      have hw := Written.emptyObject hb
      exact ⟨a, _, [], ha, blank_nil, by rw [ht, ht', hu]; simp, .inl hw, fun _ => hw⟩
    next =>
      obtain ⟨⟨ms, r'⟩, hms, he⟩ := map_eq_ok.mp h
      obtain ⟨rfl, rfl⟩ := Prod.mk.inj he
      rw [← members_blank hb, ← ht'] at hms
      obtain ⟨w, rfl, hw⟩ := hm _ _ _ hms
      exact ⟨a, _, [], ha, blank_nil, ht, .inl (.object hw), fun _ => .object hw⟩
  next t' hd =>
    rw [hd] at ht
    obtain ⟨b, hb, ht'⟩ := exists_dropBlank t'
    split at h
    next u hu =>
      obtain ⟨rfl, rfl⟩ := Prod.mk.inj (Except.ok.inj h)
      have hw := Written.emptyArray hb
      exact ⟨a, _, [], ha, blank_nil, by rw [ht, ht', hu]; simp, .inl hw, fun _ => hw⟩
    next =>
      obtain ⟨⟨vs, r'⟩, hvs, he⟩ := map_eq_ok.mp h
      obtain ⟨rfl, rfl⟩ := Prod.mk.inj he
      rw [← items_blank hb, ← ht'] at hvs
      obtain ⟨w, rfl, hw⟩ := hi _ _ _ hvs
      exact ⟨a, _, [], ha, blank_nil, ht, .inl (.array hw), fun _ => .array hw⟩
  next hnil hobject harray =>
    obtain ⟨⟨s, r'⟩, hs, he⟩ := map_eq_ok.mp h
    obtain ⟨rfl, rfl⟩ := Prod.mk.inj he
    cases hd : dropBlank t with
    | nil => exact absurd hd hnil
    | cons c u =>
        have hc : c ≠ '{' ∧ c ≠ '[' := by
          constructor <;> rintro rfl
          · exact hobject u hd
          · exact harray u hd
        rw [hd] at hs ht
        obtain ⟨d, hbl, hu, hlit⟩ := scalar_sound hs (isBlank_of_dropBlank hd) hc
        refine ⟨a, s.render, d, ha, hbl, by rw [ht, hu], ?_, ?_⟩
        · rcases hlit with hl | ⟨-, k, w, hw, rfl⟩
          · exact .inl (.scalar hl)
          · rw [render_ofWord]
            exact .inr ⟨k, hw, rfl⟩
        · intro hr
          rcases hlit with hl | ⟨hr', -⟩
          · exact .scalar hl
          · exact absurd hr' hr

theorem membersSound_succ {n : Nat} (hv : ValueSound n) (hm : MembersSound n) :
    MembersSound (n + 1) := by
  intro t ms r h
  have h₀ := h
  rw [members] at h₀
  obtain ⟨⟨k, t₁⟩, hk, h₁⟩ := bind_eq_ok.mp h₀
  obtain ⟨⟨⟨⟩, t₂⟩, hc, h₂⟩ := bind_eq_ok.mp h₁
  obtain ⟨⟨v, t₃⟩, hval, -⟩ := bind_eq_ok.mp h₂
  rw [members_step hk hc hval] at h
  obtain ⟨a, w, b, ha, hw, hb, rfl⟩ := key_sound hk
  obtain ⟨b', hb', rfl⟩ := colon_sound hc
  obtain ⟨c, x, d, hcb, hd, rfl, -, hx⟩ := hv _ _ _ hval
  obtain ⟨d', hd', ht₃⟩ := exists_dropBlank t₃
  split at h
  · cases h
  next e t₄ he =>
    have hx := hx (by rintro rfl; cases he)
    rw [he] at ht₃
    split at h
    next hcomma =>
      obtain ⟨⟨ms', r'⟩, hms, he⟩ := map_eq_ok.mp h
      obtain ⟨rfl, rfl⟩ := Prod.mk.inj he
      obtain ⟨y, rfl, hy⟩ := hm _ _ _ hms
      refine ⟨_, ?_, Written.member ha hw (hb.append hb') hcb hx (hd.append hd') hy⟩
      simp [ht₃, hcomma]
    next =>
      split at h
      next hbrace =>
        obtain ⟨rfl, rfl⟩ := Prod.mk.inj (Except.ok.inj h)
        refine ⟨_, ?_, Written.lastMember ha hw (hb.append hb') hcb hx (hd.append hd')⟩
        simp [ht₃, hbrace]
      next => cases h

theorem itemsSound_succ {n : Nat} (hv : ValueSound n) (hi : ItemsSound n) :
    ItemsSound (n + 1) := by
  intro t vs r h
  have h₀ := h
  rw [items] at h₀
  obtain ⟨⟨v, t₃⟩, hval, -⟩ := bind_eq_ok.mp h₀
  rw [items_step hval] at h
  obtain ⟨c, x, d, hcb, hd, rfl, -, hx⟩ := hv _ _ _ hval
  obtain ⟨d', hd', ht₃⟩ := exists_dropBlank t₃
  split at h
  · cases h
  next e t₄ he =>
    have hx := hx (by rintro rfl; cases he)
    rw [he] at ht₃
    split at h
    next hcomma =>
      obtain ⟨⟨vs', r'⟩, hvs, he⟩ := map_eq_ok.mp h
      obtain ⟨rfl, rfl⟩ := Prod.mk.inj he
      obtain ⟨y, rfl, hy⟩ := hi _ _ _ hvs
      refine ⟨_, ?_, Written.item hcb hx (hd.append hd') hy⟩
      simp [ht₃, hcomma]
    next =>
      split at h
      next hbracket =>
        obtain ⟨rfl, rfl⟩ := Prod.mk.inj (Except.ok.inj h)
        refine ⟨_, ?_, Written.lastItem hcb hx (hd.append hd')⟩
        simp [ht₃, hbracket]
      next => cases h

theorem reader_sound (n : Nat) : ValueSound n ∧ MembersSound n ∧ ItemsSound n := by
  induction n with
  | zero =>
      refine ⟨?_, ?_, ?_⟩ <;> intro t v r h
      · simp [value] at h
      · simp [members] at h
      · simp [items] at h
  | succ n ih =>
      obtain ⟨hv, hm, hi⟩ := ih
      exact ⟨valueSound_succ hm hi, membersSound_succ hv hm, itemsSound_succ hv hi⟩

theorem Document.read {v : Value} {w a d : Text} (hw : Document v w) (ha : Blank a) (hd : Blank d)
    {n : Nat} (hn : 2 * w.length < n) :
    ∃ r, value n (a ++ (w ++ d)) = .ok (v, r) ∧ dropBlank r = [] := by
  have hstop : Stops d := by
    intro c r hc
    rw [dropBlank_eq_nil hd] at hc
    cases hc
  rcases hw with hw | ⟨k, hw, rfl⟩
  · obtain ⟨r, hr, hrest⟩ := hw.reads.value hn ha hstop
    exact ⟨r, hr, by rw [hrest, dropBlank_eq_nil hd]⟩
  · obtain ⟨c, t, rfl, hb, -, hc⟩ := hw.first
    simp only [List.mem_cons, List.not_mem_nil, or_false, not_or] at hc
    have hread : bareWord .plain k d = .ok (d, []) := by
      have h := bareWord_run (wordRun_blank hd k) []
      simpa [bareWord, Except.map] using h
    have hs := scalar_word hw hd hread
    cases n with
    | zero => omega
    | succ n =>
        refine ⟨[], ?_, rfl⟩
        rw [List.cons_append] at hs ⊢
        rw [value_blank ha, value_scalar hb hc.2, hs]
        rfl

/-- A whole text is read as a value just if it is that value in writing between white space. -/
theorem parse_eq_ok_iff {t : Text} {v : Value} :
    parse t = .ok v ↔ ∃ a w d, Blank a ∧ Blank d ∧ t = a ++ (w ++ d) ∧ Document v w := by
  constructor
  · intro h
    unfold parse at h
    dsimp only at h
    split at h
    · cases h
    · cases h
    next v' rest hv =>
      split at h
      next hrest =>
        obtain rfl := Except.ok.inj h
        obtain ⟨a, w, d, ha, hd, ht, hw, -⟩ := (reader_sound _).1 _ _ _ hv
        exact ⟨a, w, d ++ rest, ha, hd.append (blank_of_dropBlank hrest), ht, hw⟩
      next => cases h
  · rintro ⟨a, w, d, ha, hd, rfl, hw⟩
    have hlen : 2 * w.length < 2 * (a ++ (w ++ d)).length + 1 := by
      simp only [List.length_append]
      omega
    obtain ⟨r, hr, hrest⟩ := hw.read ha hd hlen
    simp only [parse, hr, hrest]

theorem parse_written {t : Text} {v : Value} (h : Written (.value v) t) : parse t = .ok v :=
  parse_eq_ok_iff.mpr ⟨[], t, [], blank_nil, blank_nil, by simp, .inl h⟩

end SlowQuery.Payload
