import SlowQuery.Proofs.Words

namespace SlowQuery.Payload

open Text

inductive Part where
  | value (v : Value)
  | members (ms : List (Text × Value))
  | items (vs : List Value)

inductive Written : Part → Text → Prop
  | scalar {s} (h : Literal s) : Written (.value (.scalar s)) s.render
  | emptyObject {b} (hb : Blank b) : Written (.value (.object [])) ('{' :: (b ++ ['}']))
  | object {ms t} (h : Written (.members ms) t) : Written (.value (.object ms)) ('{' :: t)
  | emptyArray {b} (hb : Blank b) : Written (.value (.array [])) ('[' :: (b ++ [']']))
  | array {vs t} (h : Written (.items vs) t) : Written (.value (.array vs)) ('[' :: t)
  | lastMember {a k w b c v t d} (ha : Blank a) (hk : KeyText k w) (hb : Blank b) (hc : Blank c)
      (hv : Written (.value v) t) (hd : Blank d) :
      Written (.members [(k, v)]) (a ++ (w ++ (b ++ ':' :: (c ++ (t ++ (d ++ ['}']))))))
  | member {a k w b c v t d ms u} (ha : Blank a) (hk : KeyText k w) (hb : Blank b) (hc : Blank c)
      (hv : Written (.value v) t) (hd : Blank d) (hms : Written (.members ms) u) :
      Written (.members ((k, v) :: ms)) (a ++ (w ++ (b ++ ':' :: (c ++ (t ++ (d ++ ',' :: u))))))
  | lastItem {c v t d} (hc : Blank c) (hv : Written (.value v) t) (hd : Blank d) :
      Written (.items [v]) (c ++ (t ++ (d ++ [']'])))
  | item {c v t d vs u} (hc : Blank c) (hv : Written (.value v) t) (hd : Blank d)
      (hvs : Written (.items vs) u) : Written (.items (v :: vs)) (c ++ (t ++ (d ++ ',' :: u)))

/-- What the reader does with a written text in front of any other. Behind a scalar it needs a
delimiter or the end, and may take the white space there. -/
def Reads : Part → Text → Prop
  | .value (.scalar s), w => ∀ n a rest, 2 * w.length < n → Blank a → Stops rest →
      ∃ r, value n (a ++ (w ++ rest)) = .ok (.scalar s, r) ∧ dropBlank r = dropBlank rest
  | .value v, w => ∀ n a rest, 2 * w.length < n → Blank a →
      value n (a ++ (w ++ rest)) = .ok (v, rest)
  | .members ms, w => ∀ n rest, 2 * w.length ≤ n → members n (w ++ rest) = .ok (ms, rest)
  | .items vs, w => ∀ n rest, 2 * w.length ≤ n → items n (w ++ rest) = .ok (vs, rest)

theorem Reads.value {v : Value} {w : Text} (h : Reads (.value v) w) {n : Nat}
    {a rest : Text} (hn : 2 * w.length < n) (ha : Blank a) (hr : Stops rest) :
    ∃ r, Payload.value n (a ++ (w ++ rest)) = .ok (v, r) ∧ dropBlank r = dropBlank rest := by
  cases v with
  | scalar s => exact h n a rest hn ha hr
  | object | array | elided => exact ⟨rest, h n a rest hn ha, rfl⟩

attribute [local simp] value members items

theorem value_blank {b : Text} (hb : Blank b) (n : Nat) (t : Text) :
    value n (b ++ t) = value n t := by
  cases n with
  | zero => rfl
  | succ n => rw [value, value, dropBlank_append hb]

theorem members_blank {b : Text} (hb : Blank b) (n : Nat) (t : Text) :
    members n (b ++ t) = members n t := by
  cases n with
  | zero => rfl
  | succ n => rw [members, members, key, key, dropBlank_append hb]

theorem items_blank {b : Text} (hb : Blank b) (n : Nat) (t : Text) :
    items n (b ++ t) = items n t := by
  cases n with
  | zero => rfl
  | succ n => rw [items, items, value_blank hb]

theorem value_of_blank {n : Nat} {t : Text} (h : dropBlank t = []) : value n t = .error .ended := by
  cases n with
  | zero => rw [value]
  | succ n => rw [value, h]

theorem members_of_blank {n : Nat} {t : Text} (h : dropBlank t = []) : members n t = .error .ended := by
  cases n with
  | zero => rw [members]
  | succ n =>
      rw [members, key, h]
      rfl

theorem items_of_blank {n : Nat} {t : Text} (h : dropBlank t = []) : items n t = .error .ended := by
  cases n with
  | zero => rw [items]
  | succ n =>
      rw [items, value_of_blank h]
      rfl

theorem dropBlank_ne_brace {n : Nat} {t r u : Text} {ms : List (Text × Value)}
    (h : members n t = .ok (ms, r)) : dropBlank t ≠ '}' :: u := by
  intro ht
  cases n with
  | zero => simp at h
  | succ n =>
      rw [members] at h
      obtain ⟨⟨k, t'⟩, hk, -⟩ := bind_eq_ok.mp h
      rw [key, ht] at hk
      cases hk

theorem dropBlank_ne_bracket {n : Nat} {t r u : Text} {vs : List Value}
    (h : items n t = .ok (vs, r)) : dropBlank t ≠ ']' :: u := by
  intro ht
  cases n with
  | zero => simp at h
  | succ n =>
      rw [items] at h
      obtain ⟨⟨v, t'⟩, hv, -⟩ := bind_eq_ok.mp h
      cases n with
      | zero => simp at hv
      | succ n =>
          rw [Payload.value, ht] at hv
          cases hv

theorem value_members {n : Nat} {t : Text} (h : ∀ u, dropBlank t ≠ '}' :: u) :
    value (n + 1) ('{' :: t) = (members n t).map fun (ms, r) => (.object ms, r) := by
  obtain ⟨b, hb, ht⟩ := exists_dropBlank t
  have hd : members n (dropBlank t) = members n t := by
    rw [← members_blank hb (t := dropBlank t), ← ht]
  rw [value, dropBlank_cons (by decide)]
  split
  next h' => cases h'
  next t' h' =>
    obtain rfl := (List.cons.inj h').2
    split
    next u hu => exact absurd hu (h u)
    next => rw [hd]
  next h' => cases h'
  next h' hne => exact absurd rfl (h' t)

theorem value_items {n : Nat} {t : Text} (h : ∀ u, dropBlank t ≠ ']' :: u) :
    value (n + 1) ('[' :: t) = (items n t).map fun (vs, r) => (.array vs, r) := by
  obtain ⟨b, hb, ht⟩ := exists_dropBlank t
  have hd : items n (dropBlank t) = items n t := by
    rw [← items_blank hb (t := dropBlank t), ← ht]
  rw [value, dropBlank_cons (by decide)]
  split
  next h' => cases h'
  next h' => cases h'
  next t' h' =>
    obtain rfl := (List.cons.inj h').2
    split
    next u hu => exact absurd hu (h u)
    next => rw [hd]
  next h' hne => exact absurd rfl (hne t)

theorem value_object {n : Nat} {t r : Text} {ms : List (Text × Value)}
    (h : members n t = .ok (ms, r)) : value (n + 1) ('{' :: t) = .ok (.object ms, r) := by
  rw [value_members fun _ => dropBlank_ne_brace h, h]
  rfl

theorem value_array {n : Nat} {t r : Text} {vs : List Value}
    (h : items n t = .ok (vs, r)) : value (n + 1) ('[' :: t) = .ok (.array vs, r) := by
  rw [value_items fun _ => dropBlank_ne_bracket h, h]
  rfl

theorem value_emptyObject {b : Text} (hb : Blank b) (n : Nat) (rest : Text) :
    value (n + 1) ('{' :: (b ++ '}' :: rest)) = .ok (.object [], rest) := by
  simp [dropBlank_cons (show isBlank '{' = false by decide), dropBlank_append hb,
    dropBlank_cons (show isBlank '}' = false by decide)]

theorem value_emptyArray {b : Text} (hb : Blank b) (n : Nat) (rest : Text) :
    value (n + 1) ('[' :: (b ++ ']' :: rest)) = .ok (.array [], rest) := by
  simp [dropBlank_cons (show isBlank '[' = false by decide), dropBlank_append hb,
    dropBlank_cons (show isBlank ']' = false by decide)]

/-- How an object or an array is read: there is white space alone between the brackets, or one part
or more. -/
structure Bracketed {α : Type} (opener closer : Char) (parts : Nat → Text → Reading (List α))
    (make : List α → Value) : Prop where
  empty {b : Text} (hb : Blank b) (n : Nat) (rest : Text) :
    value (n + 1) (opener :: (b ++ closer :: rest)) = .ok (make [], rest)
  filled {n : Nat} {t : Text} (h : ∀ u, dropBlank t ≠ closer :: u) :
    value (n + 1) (opener :: t) = (parts n t).map fun (as, r) => (make as, r)
  blank {n : Nat} {t : Text} (h : dropBlank t = []) : parts n t = .error .ended

theorem bracketed_object : Bracketed '{' '}' members .object :=
  ⟨value_emptyObject, value_members, members_of_blank⟩

theorem bracketed_array : Bracketed '[' ']' items .array :=
  ⟨value_emptyArray, value_items, items_of_blank⟩

theorem value_scalar {n : Nat} {c : Char} {t : Text} (hb : isBlank c = false)
    (hc : c ≠ '{' ∧ c ≠ '[') :
    value (n + 1) (c :: t) = (scalar (c :: t)).map fun (s, r) => (.scalar s, r) := by
  rw [value, dropBlank_cons hb]
  split
  next h => cases h
  next h => exact absurd (List.cons.inj h).1 hc.1
  next h => exact absurd (List.cons.inj h).1 hc.2
  next => rfl

theorem Literal.head {s : Scalar} (h : Literal s) :
    ∃ c t, s.render = c :: t ∧ isBlank c = false ∧ c ≠ '{' ∧ c ≠ '[' := by
  cases h with
  | @str q inner hq =>
      refine ⟨q, inner ++ [q], rfl, (isQuote_ne hq).2, ?_, ?_⟩ <;> rintro rfl <;> exact absurd hq (by decide)
  | @regex pattern flags => exact ⟨'/', pattern ++ '/' :: flags, rfl, by decide, by decide, by decide⟩
  | word h =>
      obtain ⟨c, t, hw, hb, -, hc⟩ := h.first
      simp only [List.mem_cons, List.not_mem_nil, or_false, not_or] at hc
      exact ⟨c, t, by rw [render_ofWord, hw], hb, hc.2⟩

theorem Written.head {v : Value} {w : Text} (h : Written (.value v) w) :
    ∃ c u, w = c :: u ∧ isBlank c = false := by
  cases h with
  | scalar h =>
      obtain ⟨c, u, hw, hc, -⟩ := h.head
      exact ⟨c, u, hw, hc⟩
  | emptyObject | object => exact ⟨'{', _, rfl, by decide⟩
  | emptyArray | array => exact ⟨'[', _, rfl, by decide⟩

theorem reads_scalar {s : Scalar} (h : Literal s) : Reads (.value (.scalar s)) s.render := by
  intro n a rest hn ha hr
  obtain ⟨r, hs, hr'⟩ := scalar_literal h hr
  obtain ⟨c, t, hct, hb, hc⟩ := h.head
  cases n with
  | zero => omega
  | succ n =>
      refine ⟨r, ?_, hr'⟩
      rw [hct, List.cons_append] at hs ⊢
      rw [value_blank ha, value_scalar hb hc, hs]
      rfl

theorem members_step {n : Nat} {k t t' t'' : Text} {v : Value} (hk : key t = .ok (k, t'))
    (hc : colon t' = .ok ((), t'')) {r : Text} (hv : value n t'' = .ok (v, r)) :
    members (n + 1) t =
      match dropBlank r with
      | [] => .error .ended
      | c :: t =>
        if c = ',' then (members n t).map fun (ms, r) => ((k, v) :: ms, r)
        else if c = '}' then .ok ([(k, v)], t)
        else .error (.unexpected c t) := by
  cases hd : dropBlank r <;> simp [hk, hc, hv, hd, bind, Except.bind]

theorem items_step {n : Nat} {t r : Text} {v : Value} (hv : value n t = .ok (v, r)) :
    items (n + 1) t =
      match dropBlank r with
      | [] => .error .ended
      | c :: t =>
        if c = ',' then (items n t).map fun (vs, r) => (v :: vs, r)
        else if c = ']' then .ok ([v], t)
        else .error (.unexpected c t) := by
  rw [items, hv]
  rfl

theorem stops_blank {d : Text} (hd : Blank d) {c : Char} (hb : isBlank c = false)
    (hc : isDelimiter c = true) (t : Text) :
    Stops (d ++ c :: t) ∧ dropBlank (d ++ c :: t) = c :: t := by
  have h : dropBlank (d ++ c :: t) = c :: t := by rw [dropBlank_append hd, dropBlank_cons hb]
  refine ⟨?_, h⟩
  intro x r hx
  rw [h] at hx
  exact (List.cons.inj hx).1 ▸ hc

/-- The reader takes a written text for what it is written for, whatever follows. -/
theorem Written.reads {p : Part} {w : Text} (h : Written p w) : Reads p w := by
  induction h with
  | scalar h => exact reads_scalar h
  | @emptyObject b hb =>
      intro n a rest hn ha
      cases n with
      | zero => omega
      | succ n =>
          rw [value_blank ha, List.cons_append, List.append_assoc]
          exact value_emptyObject hb n rest
  | @emptyArray b hb =>
      intro n a rest hn ha
      cases n with
      | zero => omega
      | succ n =>
          rw [value_blank ha, List.cons_append, List.append_assoc]
          exact value_emptyArray hb n rest
  | @object ms t _ ih =>
      intro n a rest hn ha
      cases n with
      | zero => omega
      | succ n =>
          rw [value_blank ha, List.cons_append]
          rw [List.length_cons] at hn
          exact value_object (ih n rest (by omega))
  | @array vs t _ ih =>
      intro n a rest hn ha
      cases n with
      | zero => omega
      | succ n =>
          rw [value_blank ha, List.cons_append]
          rw [List.length_cons] at hn
          exact value_array (ih n rest (by omega))
  | @lastMember a k w b c v t d ha hk hb hc _ hd ih =>
      intro n rest hn
      simp only [List.length_append, List.length_cons] at hn
      cases n with
      | zero => omega
      | succ n =>
          simp only [List.append_assoc, List.cons_append, List.nil_append]
          obtain ⟨t', hread, hcolon⟩ := key_written hk ha hb (c ++ (t ++ (d ++ '}' :: rest)))
          obtain ⟨hstop, hdrop⟩ := stops_blank hd (c := '}') (by decide) (by decide) rest
          have hn' : 2 * t.length < n := by omega
          obtain ⟨r, hv, hr⟩ := ih.value hn' hc hstop
          rw [members_step hread hcolon hv, hr, hdrop]
          rfl
  | @member a k w b c v t d ms u ha hk hb hc _ hd _ ih ihs =>
      intro n rest hn
      simp only [List.length_append, List.length_cons] at hn
      cases n with
      | zero => omega
      | succ n =>
          simp only [List.append_assoc, List.cons_append]
          obtain ⟨t', hread, hcolon⟩ := key_written hk ha hb (c ++ (t ++ (d ++ ',' :: (u ++ rest))))
          obtain ⟨hstop, hdrop⟩ := stops_blank hd (c := ',') (by decide) (by decide) (u ++ rest)
          have hn' : 2 * t.length < n := by omega
          obtain ⟨r, hv, hr⟩ := ih.value hn' hc hstop
          rw [members_step hread hcolon hv, hr, hdrop]
          simp only [if_true, ihs n rest (by omega)]
          rfl
  | @lastItem c v t d hc _ hd ih =>
      intro n rest hn
      simp only [List.length_append, List.length_cons] at hn
      cases n with
      | zero => omega
      | succ n =>
          simp only [List.append_assoc, List.cons_append, List.nil_append]
          obtain ⟨hstop, hdrop⟩ := stops_blank hd (c := ']') (by decide) (by decide) rest
          have hn' : 2 * t.length < n := by omega
          obtain ⟨r, hv, hr⟩ := ih.value hn' hc hstop
          rw [items_step hv, hr, hdrop]
          rfl
  | @item c v t d vs u hc _ hd _ ih ihs =>
      intro n rest hn
      simp only [List.length_append, List.length_cons] at hn
      cases n with
      | zero => omega
      | succ n =>
          simp only [List.append_assoc, List.cons_append]
          obtain ⟨hstop, hdrop⟩ := stops_blank hd (c := ',') (by decide) (by decide) (u ++ rest)
          have hn' : 2 * t.length < n := by omega
          obtain ⟨r, hv, hr⟩ := ih.value hn' hc hstop
          rw [items_step hv, hr, hdrop]
          simp only [if_true, ihs n rest (by omega)]
          rfl

end SlowQuery.Payload
