import SlowQuery.Proofs.Rendering

namespace SlowQuery.Payload

open Text

namespace Value

mutual

/-- The delimiters, keys and scalars of a value in the order in which they are rendered. -/
def tokens : Value → List Text
  | .object ms => ['{'] :: (memberTokens ms ++ [['}']])
  | .array vs => ['['] :: (itemTokens vs ++ [[']']])
  | .elided => [['['], "...".toList, [']']]
  | .scalar s => [s.render]

def memberTokens : List (Text × Value) → List Text
  | [] => []
  | [(k, v)] => k :: [':'] :: tokens v
  | (k, v) :: ms => k :: [':'] :: (tokens v ++ [','] :: memberTokens ms)

def itemTokens : List Value → List Text
  | [] => []
  | [v] => tokens v
  | v :: vs => tokens v ++ [','] :: itemTokens vs

end

end Value

/-- The tokens stand in the text in this order, and all else in it is white space. -/
inductive Spaced : List Text → Text → Prop
  | nil {b} (hb : Blank b) : Spaced [] b
  | cons {b t ts w} (hb : Blank b) (h : Spaced ts w) : Spaced (t :: ts) (b ++ (t ++ w))

/-- A text with the tokens of a value. Each gap between two of them is at a delimiter. -/
def Layout (v : Value) (w : Text) : Prop := Spaced v.tokens w

variable {ss ts : List Text} {t u w : Text} {v : Value} {c : Char}

theorem Spaced.next (t : Text) (h : Spaced ts w) : Spaced (t :: ts) (t ++ w) := .cons blank_nil h

theorem Spaced.blank {b : Text} (hb : Blank b) (h : Spaced ts w) : Spaced ts (b ++ w) := by
  cases h with
  | nil hw => exact .nil (hb.append hw)
  | cons hb' h =>
      rw [← List.append_assoc]
      exact .cons (hb.append hb') h

theorem Spaced.append (hs : Spaced ss u) (ht : Spaced ts w) : Spaced (ss ++ ts) (u ++ w) := by
  induction hs with
  | nil hb => exact ht.blank hb
  | cons hb _ ih =>
      rw [List.append_assoc, List.append_assoc]
      exact .cons hb ih

theorem Spaced.of_cons (h : Spaced (t :: ts) w) :
    ∃ b x, Blank b ∧ w = b ++ (t ++ x) ∧ Spaced ts x := by
  cases h with
  | cons hb h => exact ⟨_, _, hb, rfl, h⟩

theorem Spaced.of_append (h : Spaced (ss ++ ts) w) :
    ∃ x y, w = x ++ y ∧ Spaced ss x ∧ Spaced ts y := by
  induction ss generalizing w with
  | nil => exact ⟨[], w, rfl, .nil blank_nil, h⟩
  | cons s ss ih =>
      obtain ⟨b, w, hb, rfl, hw⟩ := h.of_cons
      obtain ⟨x, y, rfl, hx, hy⟩ := ih hw
      exact ⟨b ++ (s ++ x), y, by simp, .cons hb hx, hy⟩

theorem Spaced.of_singleton (h : Spaced [t] w) :
    ∃ a d, Blank a ∧ Blank d ∧ w = a ++ (t ++ d) := by
  obtain ⟨a, d, ha, rfl, hd⟩ := h.of_cons
  cases hd with
  | nil hd => exact ⟨a, d, ha, hd, rfl⟩

mutual

theorem layout_render : ∀ v : Value, Layout v v.render
  | .object ms => by
      have h := (spaced_renderMembers ms).append (.next ['}'] (.nil blank_nil))
      rw [Layout, Value.tokens, Value.render]
      exact h.next ['{']
  | .array vs => by
      have h := (spaced_renderItems vs).append (.next [']'] (.nil blank_nil))
      rw [Layout, Value.tokens, Value.render]
      exact h.next ['[']
  | .elided => .next ['['] (.next "...".toList (.next [']'] (.nil blank_nil)))
  | .scalar s => by
      have h := Spaced.next s.render (.nil blank_nil)
      rw [List.append_nil] at h
      rw [Layout, Value.tokens, Value.render]
      exact h

theorem spaced_renderMembers :
    ∀ ms : List (Text × Value), Spaced (Value.memberTokens ms) (Value.renderMembers ms)
  | [] => .nil blank_nil
  | [(k, v)] => by
      rw [Value.memberTokens, Value.renderMembers]
      exact (((layout_render v).blank blank_space).next [':']).next k
  | (k, v) :: m :: ms => by
      have hrest := (spaced_renderMembers (m :: ms)).blank blank_space
      have hval := ((layout_render v).append (hrest.next [','])).blank blank_space
      rw [Value.memberTokens, Value.renderMembers]
      · exact (hval.next [':']).next k
      all_goals simp

theorem spaced_renderItems :
    ∀ vs : List Value, Spaced (Value.itemTokens vs) (Value.renderItems vs)
  | [] => .nil blank_nil
  | [v] => by
      rw [Value.itemTokens, Value.renderItems]
      exact layout_render v
  | v :: x :: vs => by
      have hrest := (spaced_renderItems (x :: vs)).blank blank_space
      rw [Value.itemTokens, Value.renderItems]
      · exact (layout_render v).append (hrest.next [','])
      all_goals simp

end

def WrittenInside (v : Value) : Prop :=
  ∀ w, Layout v w → ∃ a u d, Blank a ∧ Blank d ∧ w = a ++ (u ++ d) ∧ Written (.value v) u

theorem WrittenInside.item (hv : WrittenInside v) (h : Spaced (v.tokens ++ [c] :: ts) w) :
    ∃ a u d y, Blank a ∧ Blank d ∧ Written (.value v) u ∧ Spaced ts y ∧
      w = a ++ (u ++ (d ++ c :: y)) := by
  obtain ⟨x, z, rfl, hx, hz⟩ := h.of_append
  obtain ⟨a, u, d, ha, hd, rfl, hu⟩ := hv x hx
  obtain ⟨b, y, hb, rfl, hy⟩ := hz.of_cons
  exact ⟨a, u, d ++ b, y, ha, hd.append hb, hu, hy, by simp⟩

theorem WrittenInside.member {k : Text} (hv : WrittenInside v)
    (h : Spaced (k :: [':'] :: (v.tokens ++ [c] :: ts)) w) :
    ∃ a b e u d y, Blank a ∧ Blank b ∧ Blank e ∧ Blank d ∧ Written (.value v) u ∧ Spaced ts y ∧
      w = a ++ (k ++ (b ++ ':' :: (e ++ (u ++ (d ++ c :: y))))) := by
  obtain ⟨a, x, ha, rfl, hx⟩ := h.of_cons
  obtain ⟨b, z, hb, rfl, hz⟩ := hx.of_cons
  obtain ⟨e, u, d, y, he, hd, hu, hy, rfl⟩ := hv.item hz
  exact ⟨a, b, e, u, d, y, ha, hb, he, hd, hu, hy, rfl⟩

theorem written_memberTokens {ms : List (Text × Value)} (hne : ms ≠ [])
    (hk : ∀ m ∈ ms, KeyText m.1 m.1) (hv : ∀ m ∈ ms, WrittenInside m.2)
    (h : Spaced (Value.memberTokens ms ++ [['}']]) w) :
    ∃ u d, Blank d ∧ w = u ++ d ∧ Written (.members ms) u := by
  induction ms generalizing w with
  | nil => exact absurd rfl hne
  | cons m ms ih =>
      obtain ⟨k, v⟩ := m
      have hkey := hk _ List.mem_cons_self
      have hval := hv _ List.mem_cons_self
      cases ms with
      | nil =>
          obtain ⟨a, b, e, u, d, y, ha, hb, he, hd, hu, hy, rfl⟩ := hval.member h
          cases hy with
          | nil hy => exact ⟨_, y, hy, by simp, .lastMember ha hkey hb he hu hd⟩
      | cons m ms =>
          rw [Value.memberTokens, List.cons_append, List.cons_append, List.append_assoc,
            List.cons_append] at h
          · obtain ⟨a, b, e, u, d, y, ha, hb, he, hd, hu, hy, rfl⟩ := hval.member h
            obtain ⟨x, z, hz, rfl, hx⟩ := ih (List.cons_ne_nil m ms)
              (fun m hm => hk m (List.mem_cons_of_mem _ hm))
              (fun m hm => hv m (List.mem_cons_of_mem _ hm)) hy
            exact ⟨_, z, hz, by simp, .member ha hkey hb he hu hd hx⟩
          · simp

theorem written_itemTokens {vs : List Value} (hne : vs ≠ []) (hv : ∀ v ∈ vs, WrittenInside v)
    (h : Spaced (Value.itemTokens vs ++ [[']']]) w) :
    ∃ u d, Blank d ∧ w = u ++ d ∧ Written (.items vs) u := by
  induction vs generalizing w with
  | nil => exact absurd rfl hne
  | cons v vs ih =>
      have hval := hv _ List.mem_cons_self
      cases vs with
      | nil =>
          obtain ⟨a, u, d, y, ha, hd, hu, hy, rfl⟩ := hval.item h
          cases hy with
          | nil hy => exact ⟨_, y, hy, by simp, .lastItem ha hu hd⟩
      | cons x vs =>
          rw [Value.itemTokens, List.append_assoc, List.cons_append] at h
          · obtain ⟨a, u, d, y, ha, hd, hu, hy, rfl⟩ := hval.item h
            obtain ⟨x, z, hz, rfl, hx⟩ := ih (List.cons_ne_nil x vs)
              (fun v h => hv v (List.mem_cons_of_mem _ h)) hy
            exact ⟨_, z, hz, by simp, .item ha hu hd hx⟩
          · simp

theorem Legible.writtenInside (h : Legible v) : WrittenInside v := by
  induction h with
  | @scalar s hs =>
      intro w h
      obtain ⟨a, d, ha, hd, rfl⟩ := Spaced.of_singleton h
      exact ⟨a, s.render, d, ha, hd, rfl, .scalar hs⟩
  | @object ms hk _ ih =>
      intro w h
      obtain ⟨a, x, ha, rfl, hx⟩ := Spaced.of_cons h
      cases ms with
      | nil =>
          obtain ⟨b, d, hb, hd, rfl⟩ := hx.of_singleton
          exact ⟨a, _, d, ha, hd, by simp, .emptyObject hb⟩
      | cons m ms =>
          obtain ⟨u, d, hd, rfl, hu⟩ := written_memberTokens (List.cons_ne_nil m ms) hk ih hx
          exact ⟨a, _, d, ha, hd, by simp, .object hu⟩
  | @array vs _ ih =>
      intro w h
      obtain ⟨a, x, ha, rfl, hx⟩ := Spaced.of_cons h
      cases vs with
      | nil =>
          obtain ⟨b, d, hb, hd, rfl⟩ := hx.of_singleton
          exact ⟨a, _, d, ha, hd, by simp, .emptyArray hb⟩
      | cons v vs =>
          obtain ⟨u, d, hd, rfl, hu⟩ := written_itemTokens (List.cons_ne_nil v vs) ih hx
          exact ⟨a, _, d, ha, hd, by simp, .array hu⟩

theorem Readable.parse_layout (h : Readable v) (hw : Layout v w) : parse w = .ok v := by
  rcases h with h | ⟨k, u, hu, rfl⟩
  · obtain ⟨a, u, d, ha, hd, rfl, hu⟩ := h.writtenInside w hw
    exact parse_eq_ok_iff.mpr ⟨a, u, d, ha, hd, rfl, .inl hu⟩
  · obtain ⟨a, d, ha, hd, rfl⟩ := Spaced.of_singleton hw
    rw [render_ofWord]
    exact parse_eq_ok_iff.mpr ⟨a, u, d, ha, hd, rfl, .inr ⟨k, hu, rfl⟩⟩

/-- What was read is read again from its rendering, and from any other layout. -/
theorem parse_any_layout (h : parse t = .ok v) :
    (∀ w, Layout v w → parse w = .ok v) ∧ parse v.render = .ok v :=
  have hread : ∀ w, Layout v w → parse w = .ok v := fun _ => (readable_of_parse h).parse_layout
  ⟨hread, hread v.render (layout_render v)⟩

theorem parse_spaced_out :
    parse "\x7b'a b':/x/i\x7d".toList =
        .ok (.object [("'a b'".toList, .scalar (.regex ['x'] ['i']))]) ∧
      parse " \x7b'a b' : /x/i \x7d".toList =
        .ok (.object [("'a b'".toList, .scalar (.regex ['x'] ['i']))]) := by
  have ht : "\x7b'a b':/x/i\x7d".toList =
      ['{', '\'', 'a', ' ', 'b', '\'', ':', '/', 'x', '/', 'i', '}'] := rfl
  have h : parse "\x7b'a b':/x/i\x7d".toList =
      .ok (.object [("'a b'".toList, .scalar (.regex ['x'] ['i']))]) := by
    rw [ht]
    rfl
  have hend : Spaced [['}']] " \x7d".toList := .cons blank_space (.nil blank_nil)
  have hval : Spaced ["/x/i".toList, ['}']] " /x/i \x7d".toList := .cons blank_space hend
  have hcolon : Spaced [[':'], "/x/i".toList, ['}']] " : /x/i \x7d".toList := .cons blank_space hval
  have hkey := hcolon.next "'a b'".toList
  exact ⟨h, (parse_any_layout h).1 _ (.cons blank_space hkey)⟩

end SlowQuery.Payload
