import SlowQuery.Proofs.Searches

namespace SlowQuery.Record

open Text Payload Shape

variable {p : Part} {v v' : Value} {a b c d u w w' r r' t t' : Text} {e : Char} {s : Scan}

theorem isNameChar_of_verb (he : isVerbChar e = true) : isNameChar e = true := by
  simp only [isVerbChar, Bool.or_eq_true, decide_eq_true_eq] at he
  rcases he with he | he <;> simp [isNameChar, he]

theorem CommandLike.first {x : Char} (h : CommandLike (x :: t)) : isVerbChar x = true := by
  obtain ⟨v, b, y, hne, hv, -, h⟩ := h
  obtain ⟨c, v, rfl⟩ := List.exists_cons_of_ne_nil hne
  rw [(List.cons.inj h).1]
  exact hv c List.mem_cons_self

theorem CommandLike.of_append (hd : Blank d) (he : isDelimiter e = true)
    (h : CommandLike (u ++ (d ++ e :: r))) : CommandLike u := by
  obtain ⟨v, b, x, hne, hv, hb, h⟩ := h
  have h : u ++ d ++ e :: r = (v ++ ' ' :: (b ++ ['{'])) ++ x := by simpa using h
  have hmem : e ∉ v ++ ' ' :: (b ++ ['{']) := by
    have hname := isNameChar_of_delimiter he
    have hev : e ∉ v := fun h => by
      rw [isNameChar_of_verb (hv e h)] at hname
      cases hname
    have hother : e ≠ ' ' ∧ e ≠ '{' ∧ isBlank e = false := by
      simp only [isDelimiter, List.mem_cons, List.not_mem_nil, or_false, decide_eq_true_eq] at he
      rcases he with rfl | rfl | rfl <;> decide
    simp [hev, hother.1, hother.2.1, hb.not_mem hother.2.2]
  obtain ⟨y, hy⟩ : ∃ y, u ++ d = (v ++ ' ' :: (b ++ ['{'])) ++ y := by
    rcases List.append_eq_append_iff.mp h with ⟨y, hP, hy⟩ | ⟨y, hu, -⟩
    · cases y with
      | nil => exact ⟨[], by rw [hP]; simp⟩
      | cons z y =>
          rw [hP, (List.cons.inj hy).1] at hmem
          simp at hmem
    · exact ⟨y, hu⟩
  rcases List.append_eq_append_iff.mp hy with ⟨z, hP, hz⟩ | ⟨z, hu, -⟩
  · rcases List.eq_nil_or_concat z with rfl | ⟨z, x, rfl⟩
    · rw [List.append_nil] at hP
      exact ⟨v, b, [], hne, hv, hb, hP.symm⟩
    · -- The brace would stand in the white space.
      have hlast := congrArg List.getLast? hP
      rw [List.concat_eq_append, ← List.append_assoc, List.getLast?_concat, ← List.cons_append,
        ← List.append_assoc, List.getLast?_concat] at hlast
      have hx := hd x (by rw [hz]; simp)
      rw [← Option.some.inj hlast] at hx
      exact absurd hx (by decide)
  · exact ⟨v, b, z, hne, hv, hb, by rw [hu]; simp⟩

theorem not_commandLike (h : Retold (.value v) (.value v') w w') (hc : Blank c) (hd : Blank d)
    (he : isDelimiter e = true) : ¬CommandLike (c ++ (w ++ (d ++ e :: r))) := by
  intro hlike
  cases c with
  | cons x c =>
      have hx := isNameChar_of_verb hlike.first
      rw [isNameChar_of_blank (hc x List.mem_cons_self)] at hx
      cases hx
  | nil =>
      cases h with
      | literal _ hs => exact hs.noCommand (.of_append hd he hlike)
      | string | emptyObject | object | emptyArray | array =>
          exact absurd hlike.first (by decide)

/-- No command is found in two texts, or something is found in both that is none. -/
def NoCommands (o o' : Option Text) : Prop :=
  (o = none ∧ o' = none) ∨ ∃ t t', o = some t ∧ o' = some t' ∧ ¬CommandLike t ∧ ¬CommandLike t'

theorem compares_command :
    Compares "command".toList (fun _ => after? (marker "command".toList)) NoCommands where
  passes := passes_after _
  skips := by
    intro u e p t hu he
    have hn : IsName "command".toList := by decide
    have hpass := passes_after (marker "command".toList)
    have hclear : Clear (marker "command".toList) u (e :: t) :=
      clear_of_not_infix (textEnd_not_mem_marker hn he) hu.command
    rw [hpass.append hclear p]
    exact hpass.cons hn (isNameChar_of_textEnd he) p t
  found := by
    intro v v' w w' c d e r r' s hr hc hd he _ _ p
    have hne : marker "command".toList ≠ [] := by simp [marker]
    exact .inr ⟨_, _, after_found hne _, after_found hne _, not_commandLike hr hc hd he,
      not_commandLike hr.symm hc hd he⟩

def signature? (sort : Text) : Option Text := (sortSignature sort).toOption

theorem signature?_eq_none (h : ∀ v, parse t ≠ .ok v) : signature? t = none := by
  cases hp : parse t with
  | error => simp [signature?, sortSignature, hp, Except.map, Except.toOption]
  | ok v => exact absurd hp (h v)

theorem signature?_retold (h : Retold (.value v) (.value v') w w') :
    signature? w = signature? w' := by
  simp only [signature?, sortSignature, parse_written h.written, parse_written h.symm.written,
    Except.map, h.same.1]

theorem canonicalize_retold (h : Retold (.value v) (.value v') w w') :
    (canonicalize w).toOption = (canonicalize w').toOption := by
  simp only [canonicalize, parse_written h.written, parse_written h.symm.written, Except.map,
    h.same.1]

section

variable {opener closer : Char} (hr : Retold (.value v) (.value v') w w')
  (hv : ∀ s, v ≠ .scalar s) (hv' : ∀ s, v' ≠ .scalar s) (hcloser : isBlank closer = false)

include hr hv hv' hcloser

/-- Cut at another place than its end, neither of the documents is read. -/
theorem closeFrom_retold (ht : Alike .outside t t' s) :
    (closeFrom opener closer .outside 0 (w ++ t)).map (signature? ·.1) =
      (closeFrom opener closer .outside 0 (w' ++ t')).map (signature? ·.1) := by
  have hw := hr.alike
  cases hd : depthRun opener closer .outside 0 w with
  | none =>
      obtain ⟨l, x, l', x', rfl, rfl, hx, hcut⟩ := hw.closed hd
      obtain ⟨hl, hl'⟩ := hcut t t'
      rw [hl, hl', Option.map_some, Option.map_some]
      by_cases hxn : x = []
      · rw [hxn, hx.mp hxn, List.append_nil, List.append_nil] at hr
        rw [signature?_retold hr]
      · obtain ⟨-, y, rfl⟩ := closeFrom_sound hl
        obtain ⟨-, y', rfl⟩ := closeFrom_sound hl'
        have hne : ∀ y, y ++ [closer] ≠ [] := by simp
        rw [signature?_eq_none (parse_of_shortened hr.written hv (hne y) hxn),
          signature?_eq_none (parse_of_shortened hr.symm.written hv' (hne y') (mt hx.mpr hxn))]
  | some n =>
      have hd' := hd
      rw [hw.depthRun_eq] at hd'
      rw [closeFrom_of_open hd, closeFrom_of_open hd', hw.scanRun_eq.1, hw.scanRun_eq.2]
      have hsome : (closeFrom opener closer .outside n t).isSome =
          (closeFrom opener closer .outside n t').isSome := ht.isSome_closeFrom n
      have hnone : ∀ {v w t l x}, Written (.value v) w → (∀ s, v ≠ .scalar s) →
          closeFrom opener closer .outside n t = some (l, x) → signature? (w ++ l) = none := by
        intro v w t l x hw hv hl
        obtain ⟨-, y, rfl⟩ := closeFrom_sound hl
        have hblank : ¬Blank (y ++ [closer]) := fun h => h.not_mem hcloser (by simp)
        exact signature?_eq_none (parse_of_extended hw hv hblank)
      cases ho : closeFrom opener closer .outside n t with
      | none =>
          rw [ho, Option.isSome_none, eq_comm, Option.isSome_eq_false_iff,
            Option.isNone_iff_eq_none] at hsome
          rw [hsome]
          rfl
      | some x =>
          rw [ho, Option.isSome_some, eq_comm] at hsome
          obtain ⟨x', hx'⟩ := Option.isSome_iff_exists.mp hsome
          rw [hx']
          simp only [Option.map_some]
          rw [hnone hr.written hv ho, hnone hr.symm.written hv' hx']

end

theorem balanced?_retold (hr : Retold (.value v) (.value v') w w') (ht : Alike .outside t t' s) :
    (balanced? (w ++ t)).map (signature? ·.1) = (balanced? (w' ++ t')).map (signature? ·.1) := by
  have h := hr
  cases h with
  | literal hl =>
      obtain ⟨x, y, hx, -, hne⟩ := hl.head
      rw [hx, List.cons_append, List.cons_append, balanced?_eq_none hne, balanced?_eq_none hne]
  | string => rfl
  | emptyObject | object =>
      exact closeFrom_retold hr (fun _ h => Value.noConfusion h) (fun _ h => Value.noConfusion h)
        (by decide) ht
  | emptyArray | array =>
      exact closeFrom_retold hr (fun _ h => Value.noConfusion h) (fun _ h => Value.noConfusion h)
        (by decide) ht

theorem compares_sort :
    Compares "sort".toList (documentAfterFrom (marker "sort".toList) 0)
      fun o o' => o.map signature? = o'.map signature? where
  passes := passes_documentAfter _
  skips := fun _ t hu he =>
    documentAfterFrom_pass (by decide) he (fun ho => hu.sort ho.first) t
  found := by
    intro v v' w w' c d e r r' s hr hc hd he ha hlater p
    have hdrop : ∀ {v w} t, Written (.value v) w → dropBlank (c ++ (w ++ t)) = w ++ t := by
      intro v w t hw
      obtain ⟨x, y, rfl, hx⟩ := hw.head
      rw [dropBlank_append hc]
      exact dropBlank_cons hx _
    rw [documentAfter_found, documentAfter_found, hdrop _ hr.written, hdrop _ hr.symm.written]
    by_cases hp : p.any isNameChar
    · rw [if_pos hp, if_pos hp]
      exact hlater (some ' ')
    · rw [if_neg hp, if_neg hp]
      have hcut := balanced?_retold hr (alike_delimiter hd he ha)
      cases hb : balanced? (w ++ (d ++ e :: r)) with
      | none =>
          rw [hb, Option.map_none, eq_comm, Option.map_eq_none_iff] at hcut
          rw [hcut]
          exact hlater (some ' ')
      | some x =>
          rw [hb, Option.map_some, eq_comm] at hcut
          obtain ⟨x', hx', hs⟩ := Option.map_eq_some_iff.mp hcut
          rw [hx']
          exact congrArg some hs.symm

end SlowQuery.Record
