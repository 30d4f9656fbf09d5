import SlowQuery.Proofs.Reading

namespace SlowQuery.Payload

open Text

inductive Legible : Value → Prop
  | object {ms : List (Text × Value)} (hk : ∀ m ∈ ms, KeyText m.1 m.1)
      (hv : ∀ m ∈ ms, Legible m.2) : Legible (.object ms)
  | array {vs : List Value} (hv : ∀ v ∈ vs, Legible v) : Legible (.array vs)
  | scalar {s : Scalar} (h : Literal s) : Legible (.scalar s)

def Part.Legible : Part → Prop
  | .value v => Payload.Legible v
  | .members ms => ∀ m ∈ ms, KeyText m.1 m.1 ∧ Payload.Legible m.2
  | .items vs => ∀ v ∈ vs, Payload.Legible v

theorem Written.legible {p : Part} {w : Text} (h : Written p w) : p.Legible := by
  induction h with
  | scalar h => exact .scalar h
  | emptyObject => exact .object (by simp) (by simp)
  | emptyArray => exact .array (by simp)
  | object _ ih => exact .object (fun m hm => (ih m hm).1) fun m hm => (ih m hm).2
  | array _ ih => exact .array ih
  | lastMember _ hk _ _ _ _ ih =>
      intro m hm
      rw [List.mem_singleton.mp hm]
      exact ⟨hk.self, ih⟩
  | member _ hk _ _ _ _ _ ih ihs =>
      intro m hm
      rcases List.mem_cons.mp hm with rfl | hm
      · exact ⟨hk.self, ih⟩
      · exact ihs m hm
  | lastItem _ _ _ ih =>
      intro v hv
      rw [List.mem_singleton.mp hv]
      exact ih
  | item _ _ _ _ ih ihs =>
      intro v hv
      rcases List.mem_cons.mp hv with rfl | hv
      · exact ih
      · exact ihs v hv

theorem blank_space : Blank [' '] := by
  intro c hc
  rw [List.mem_singleton.mp hc]
  decide

theorem written_members {ms : List (Text × Value)} (hne : ms ≠ [])
    (hk : ∀ m ∈ ms, KeyText m.1 m.1) (hv : ∀ m ∈ ms, Written (.value m.2) m.2.render)
    {a : Text} (ha : Blank a) : Written (.members ms) (a ++ (Value.renderMembers ms ++ ['}'])) := by
  induction ms generalizing a with
  | nil => exact absurd rfl hne
  | cons m ms ih =>
      obtain ⟨k, v⟩ := m
      have hkey := hk _ List.mem_cons_self
      have hval := hv _ List.mem_cons_self
      cases ms with
      | nil =>
          have h := Written.lastMember ha hkey blank_nil blank_space hval blank_nil
          simpa [Value.renderMembers] using h
      | cons m ms =>
          have hrest := ih (List.cons_ne_nil m ms) (fun m hm => hk m (List.mem_cons_of_mem _ hm))
            (fun m hm => hv m (List.mem_cons_of_mem _ hm)) blank_space
          have h := Written.member ha hkey blank_nil blank_space hval blank_nil hrest
          simpa [Value.renderMembers] using h

theorem written_items {vs : List Value} (hne : vs ≠ [])
    (hv : ∀ v ∈ vs, Written (.value v) v.render) {c : Text} (hc : Blank c) :
    Written (.items vs) (c ++ (Value.renderItems vs ++ [']'])) := by
  induction vs generalizing c with
  | nil => exact absurd rfl hne
  | cons v vs ih =>
      have hval := hv _ List.mem_cons_self
      cases vs with
      | nil =>
          have h := Written.lastItem hc hval blank_nil
          simpa [Value.renderItems] using h
      | cons x vs =>
          have hrest := ih (List.cons_ne_nil x vs) (fun v h => hv v (List.mem_cons_of_mem _ h)) blank_space
          have h := Written.item hc hval blank_nil hrest
          simpa [Value.renderItems] using h

theorem Legible.written {v : Value} (h : Legible v) : Written (.value v) v.render := by
  induction h with
  | scalar h => exact .scalar h
  | @object ms hk _ ih =>
      cases ms with
      | nil => exact .emptyObject blank_nil
      | cons m ms => exact .object (written_members (List.cons_ne_nil m ms) hk ih blank_nil)
  | @array vs _ ih =>
      cases vs with
      | nil => exact .emptyArray blank_nil
      | cons v vs => exact .array (written_items (List.cons_ne_nil v vs) ih blank_nil)

/-- What a whole text may be read as: a legible value, or a word with open parentheses. -/
def Readable (v : Value) : Prop := Legible v ∨ ∃ d w, IsWord d w ∧ v = .scalar (.ofWord w)

theorem readable_of_parse {t : Text} {v : Value} (h : parse t = .ok v) : Readable v := by
  obtain ⟨a, w, d, -, -, -, hw⟩ := parse_eq_ok_iff.mp h
  rcases hw with hw | ⟨k, hw, rfl⟩
  · exact .inl hw.legible
  · exact .inr ⟨k, w, hw, rfl⟩

theorem Readable.object_of_brace {v : Value} (h : Readable v) {t : Text} (ht : v.render = '{' :: t) :
    ∃ ms, v = .object ms := by
  cases v with
  | object ms => exact ⟨ms, rfl⟩
  | array => cases ht
  | elided => cases ht
  | scalar s =>
      rcases h with h | ⟨d, w, hw, he⟩
      · cases h with
        | scalar h =>
            obtain ⟨c, r, hc, -, hne, -⟩ := h.head
            rw [Value.render, hc] at ht
            exact absurd (List.cons.inj ht).1 hne
      · obtain ⟨c, r, rfl, -, -, hc⟩ := hw.first
        rw [he, Value.render, render_ofWord] at ht
        rw [(List.cons.inj ht).1] at hc
        exact absurd hc (by decide)

theorem parse_render {v : Value} (h : Readable v) : parse v.render = .ok v := by
  refine parse_eq_ok_iff.mpr ⟨[], v.render, [], blank_nil, blank_nil, by simp, ?_⟩
  rcases h with h | ⟨d, w, hw, rfl⟩
  · exact .inl h.written
  · have hr : Value.render (.scalar (.ofWord w)) = w := render_ofWord w
    exact .inr ⟨d, by rwa [hr], by rw [hr]⟩

def Scalar.asRead : Scalar → Scalar
  | .redacted => .regex "...".toList ".../".toList
  | .placeholder => .number ['1']
  | s => s

theorem asRead_ofWord (w : Text) : (Scalar.ofWord w).asRead = .ofWord w := by
  rcases ofWord_cases w with ⟨b, -, h⟩ | h | h | h | h <;> rw [h] <;> rfl

namespace Value

mutual

def asRead : Value → Value
  | .object ms => .object (membersAsRead ms)
  | .array vs => .array (itemsAsRead vs)
  | .elided => .array [.scalar (.bare "...".toList)]
  | .scalar s => .scalar s.asRead

def membersAsRead : List (Text × Value) → List (Text × Value)
  | [] => []
  | (k, v) :: ms => (k, asRead v) :: membersAsRead ms

def itemsAsRead : List Value → List Value
  | [] => []
  | v :: vs => asRead v :: itemsAsRead vs

end

theorem membersAsRead_eq (ms : List (Text × Value)) :
    membersAsRead ms = ms.map fun m => (m.1, m.2.asRead) := by
  induction ms with
  | nil => rfl
  | cons m ms ih => rw [membersAsRead, ih, List.map_cons]

theorem itemsAsRead_eq (vs : List Value) : itemsAsRead vs = vs.map asRead := by
  induction vs with
  | nil => rfl
  | cons v vs ih => rw [itemsAsRead, ih, List.map_cons]

mutual

theorem render_asRead : ∀ v : Value, v.asRead.render = v.render
  | .object ms => by rw [asRead, render, render, renderMembers_asRead ms]
  | .array vs => by rw [asRead, render, render, renderItems_asRead vs]
  | .elided => rfl
  | .scalar s => by cases s <;> rfl

theorem renderMembers_asRead : ∀ ms : List (Text × Value),
    renderMembers (membersAsRead ms) = renderMembers ms
  | [] => rfl
  | [(k, v)] => by
      simp only [membersAsRead, renderMembers, render_asRead v]
  | (k, v) :: m :: ms => by
      have h := renderMembers_asRead (m :: ms)
      simp only [membersAsRead, renderMembers, render_asRead v] at h ⊢
      rw [h]

theorem renderItems_asRead : ∀ vs : List Value, renderItems (itemsAsRead vs) = renderItems vs
  | [] => rfl
  | [v] => by simp only [itemsAsRead, renderItems, render_asRead v]
  | v :: x :: vs => by
      have h := renderItems_asRead (x :: vs)
      simp only [itemsAsRead, renderItems, render_asRead v] at h ⊢
      rw [h]

end

end Value

theorem literal_one : Literal (.number ['1']) :=
  .word (w := ['1']) ⟨rfl, ⟨'1', [], rfl, by decide, by decide, by decide⟩,
    endsSolid_concat [] (by decide)⟩

theorem literal_dots : Literal (.bare "...".toList) :=
  .word (w := ['.', '.', '.']) ⟨rfl, ⟨'.', ['.', '.'], rfl, by decide, by decide, by decide⟩,
    endsSolid_concat ['.', '.'] (by decide)⟩

theorem literal_redacted : Literal Scalar.redacted.asRead :=
  .regex (by decide) (List.all_eq_true.mp (by decide))

end SlowQuery.Payload
