import SlowQuery.Proofs.Markers

namespace SlowQuery.Payload

open Text

variable {old new m u t : Text} {c : Char}

theorem joinWith_cons (sep u : Text) (us : List Text) :
    joinWith sep (u :: us) = u ++ us.flatMap (sep ++ ·) := by
  induction us generalizing u with
  | nil => simp [joinWith]
  | cons v us ih => simpa [joinWith, List.intercalate_cons_cons] using ih v

theorem joinWith_append (sep : Text) (us vs : List Text) (v : Text) :
    joinWith sep (us ++ v :: vs) = us.flatMap (· ++ sep) ++ (v ++ vs.flatMap (sep ++ ·)) := by
  induction us with
  | nil => exact joinWith_cons sep v vs
  | cons u us ih =>
      have hne : us ++ v :: vs ≠ [] := by simp
      obtain ⟨w, ws, hw⟩ := List.exists_cons_of_ne_nil hne
      rw [hw] at ih
      rw [List.cons_append, hw, joinWith, List.intercalate_cons_cons]
      rw [joinWith] at ih
      rw [ih]
      simp

theorem length_joinWith (sep u : Text) (us : List Text) :
    (joinWith sep (u :: us)).length = (u :: us).flatten.length + us.length * sep.length := by
  rw [joinWith_cons, List.flatten_cons, List.length_append, List.length_append]
  induction us with
  | nil => simp
  | cons v us ih =>
      simp only [List.flatMap_cons, List.flatten_cons, List.length_append, List.length_cons] at ih ⊢
      rw [Nat.succ_mul]
      omega

theorem clear_of_not_mem (h : c ∉ u) : Clear (c :: m) u t := by
  induction u with
  | nil => trivial
  | cons d u ih =>
      rw [List.mem_cons, not_or] at h
      exact ⟨fun hp => h.1 (List.cons_prefix_cons.mp hp).1, ih h.2⟩

theorem replaceFrom_clear (h : Clear old u t) :
    replaceFrom old new 0 (u ++ t) = u ++ replaceFrom old new 0 t := by
  induction u with
  | nil => rfl
  | cons d u ih =>
      have hs : startsWith old (d :: (u ++ t)) = false := by
        rw [Bool.eq_false_iff, ne_eq, startsWith_iff]
        exact h.1
      rw [List.cons_append, replaceFrom, hs, ih h.2]
      rfl

theorem replaceFrom_skip (u t : Text) :
    replaceFrom old new u.length (u ++ t) = replaceFrom old new 0 t := by
  induction u with
  | nil => rfl
  | cons d u ih => exact ih

theorem replaceFrom_found (hold : old ≠ []) (t : Text) :
    replaceFrom old new 0 (old ++ t) = new ++ replaceFrom old new 0 t := by
  obtain ⟨d, old, rfl⟩ := List.exists_cons_of_ne_nil hold
  have hs : startsWith (d :: old) (d :: (old ++ t)) = true := startsWith_iff.mpr ⟨t, rfl⟩
  have hlength : (d :: old).length - 1 = old.length := by rw [List.length_cons, Nat.add_sub_cancel]
  rw [List.cons_append, replaceFrom, hs, if_pos rfl, hlength, replaceFrom_skip]

theorem replace_clear (h : Clear old u []) (new : Text) : replace old new u = u := by
  have hreplace : replaceFrom old new 0 (u ++ []) = u ++ replaceFrom old new 0 [] :=
    replaceFrom_clear h
  rw [List.append_nil] at hreplace
  rw [replace, hreplace]
  simp [replaceFrom]

theorem replace_absent (h : c ∉ t) (m new : Text) : replace (c :: m) new t = t :=
  replace_clear (clear_of_not_mem h) new

theorem replaceFrom_cut (hsep : c ∉ old) {n : Nat} (hn : n ≤ u.length) (t : Text) :
    replaceFrom old new n (u ++ c :: t) =
      replaceFrom old new n u ++ replaceFrom old new 0 (c :: t) := by
  induction u generalizing n with
  | nil =>
      obtain rfl := Nat.le_zero.mp hn
      rfl
  | cons d u ih =>
      rw [List.length_cons] at hn
      cases n with
      | succ n => exact ih (Nat.le_of_succ_le_succ hn)
      | zero =>
          have hstarts : startsWith old (d :: (u ++ c :: t)) = startsWith old (d :: u) := by
            rw [Bool.eq_iff_iff, startsWith_iff, startsWith_iff]
            exact ⟨prefix_of_not_mem (z := d :: u) hsep,
              fun h => h.trans (List.prefix_append (d :: u) (c :: t))⟩
          rw [List.cons_append, replaceFrom, replaceFrom, hstarts]
          split
          next hs =>
            have hlength := (startsWith_iff.mp hs).length_le
            rw [List.length_cons] at hlength
            rw [ih (by omega), List.append_assoc]
          next => rw [ih (Nat.zero_le _), List.cons_append]

theorem exists_first (hold : old ≠ []) (h : old <:+: t) :
    ∃ u r, t = u ++ (old ++ r) ∧ Clear old u (old ++ r) := by
  induction t with
  | nil => exact absurd (List.infix_nil.mp h) hold
  | cons c t ih =>
      by_cases hp : old <+: c :: t
      · obtain ⟨r, hr⟩ := hp
        exact ⟨[], r, hr.symm, trivial⟩
      · obtain ⟨u, r, rfl, hu⟩ := ih ((List.infix_cons_iff.mp h).resolve_left hp)
        exact ⟨c :: u, r, rfl, hp, hu⟩

theorem not_infix_of_clear (hold : old ≠ []) (h : Clear old u t) : ¬old <:+: u := by
  induction u with
  | nil => exact fun hi => hold (List.infix_nil.mp hi)
  | cons c u ih =>
      rw [List.infix_cons_iff, not_or]
      exact ⟨fun hp => h.1 (hp.trans (List.prefix_append (c :: u) t)), ih h.2⟩

theorem clear_of_absent (hold : old ≠ []) (h : ¬old <:+: u) : Clear old u [] := by
  rw [← contains_iff hold, Bool.not_eq_true] at h
  exact clear_of_not_contains hold h

theorem exists_parts (hold : old ≠ []) (new t : Text) :
    ∃ p ps, t = joinWith old (p :: ps) ∧ replace old new t = joinWith new (p :: ps) ∧
      ∀ q ∈ p :: ps, ¬old <:+: q := by
  -- The text behind the first occurrence is shorter, and its parts follow what stands before it.
  induction hlen : t.length using Nat.strong_induction_on generalizing t with
  | _ n ih =>
      by_cases h : old <:+: t
      · obtain ⟨u, r, rfl, hu⟩ := exists_first hold h
        have hpos := List.length_pos_iff.mpr hold
        have hshort : r.length < n := by
          rw [← hlen, List.length_append, List.length_append]
          omega
        obtain ⟨p, ps, hr, hreplace, hparts⟩ := ih r.length hshort r rfl
        rw [replace] at hreplace
        refine ⟨u, p :: ps, ?_, ?_, ?_⟩
        · rw [joinWith, List.intercalate_cons_cons, ← joinWith, ← hr, List.append_assoc]
        · rw [replace, replaceFrom_clear hu, replaceFrom_found hold, hreplace, joinWith, joinWith,
            List.intercalate_cons_cons, List.append_assoc]
        · exact List.forall_mem_cons.mpr ⟨not_infix_of_clear hold hu, hparts⟩
      · refine ⟨t, [], by simp [joinWith], ?_, List.forall_mem_singleton.mpr h⟩
        rw [replace_clear (clear_of_absent hold h)]
        simp [joinWith]

end SlowQuery.Payload
