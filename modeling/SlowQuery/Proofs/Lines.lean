import SlowQuery.Proofs.Blanks
import SlowQuery.Record

namespace SlowQuery.Record

open Text

def Solid (t : Text) : Prop := t ≠ [] ∧ ∀ c ∈ t, isBlank c = false

def IsWordRun (t : Text) : Prop := t ≠ [] ∧ ∀ c ∈ t, Text.isWord c = true

def Gap (w : Text) : Prop := w ≠ [] ∧ Blank w

instance (t : Text) : Decidable (Solid t) :=
  have : Decidable (∀ c ∈ t, isBlank c = false) := List.decidableBAll _ t
  instDecidableAnd

instance (t : Text) : Decidable (IsWordRun t) :=
  have : Decidable (∀ c ∈ t, Text.isWord c = true) := List.decidableBAll _ t
  instDecidableAnd

structure Parts where
  timestamp : Text
  severity : Text
  component : Text
  context : Text
  operation : Text
  ns : Text
  tag : Text
  body : Text
  digits : Text

namespace Parts

structure WellFormed (p : Parts) : Prop where
  timestamp : Solid p.timestamp
  severity : Solid p.severity
  component : IsWordRun p.component
  context : p.context ≠ [] ∧ ∀ c ∈ p.context, isContextChar c = true
  operation : IsWordRun p.operation
  ns : Solid p.ns
  tag : Solid p.tag ∧ isTag p.tag = true
  digits : ∀ c ∈ p.digits, c.isDigit = true

def duration (p : Parts) : Text := p.body ++ ' ' :: (p.digits ++ ['m', 's'])

def text (p : Parts) : Text :=
  p.timestamp ++ ' ' :: (p.severity ++ ' ' :: (p.component ++ ' ' :: '[' :: (p.context ++
    ']' :: ' ' :: (p.operation ++ ' ' :: (p.ns ++ ' ' :: (p.tag ++ ' ' :: p.duration))))))

end Parts

section

variable {p : Char → Bool} {a r t : Text} {c : Char}

theorem run_eq_some_iff :
    (match t.span p with
      | ([], _) => none
      | run => some run) = some (a, r) ↔
      t = a ++ r ∧ (a ≠ [] ∧ ∀ c ∈ a, p c = true) ∧ EndsRun p r := by
  have hspan : (match t.span p with
      | ([], _) => none
      | run => some run) = some (a, r) ↔ t.span p = (a, r) ∧ a ≠ [] := by
    cases t.span p with
    | mk u v => cases u <;> grind
  rw [hspan, span_eq_iff]
  tauto

theorem solid?_eq_some_iff :
    solid? t = some (a, r) ↔ t = a ++ r ∧ Solid a ∧ EndsRun (fun c => !isBlank c) r := by
  have h := run_eq_some_iff (p := fun c => !isBlank c) (t := t) (a := a) (r := r)
  simp only [Bool.not_eq_true'] at h
  exact h

theorem word?_eq_some_iff :
    word? t = some (a, r) ↔ t = a ++ r ∧ IsWordRun a ∧ EndsRun Text.isWord r :=
  run_eq_some_iff

theorem expect?_eq_some_iff : expect? c t = some r ↔ t = c :: r := by
  cases t with
  | nil => simp [expect?]
  | cons d t => simp [expect?]

theorem gap?_eq_some_iff :
    gap? t = some r ↔ ∃ w, Gap w ∧ t = w ++ r ∧ EndsRun isBlank r := by
  constructor
  · intro h
    unfold gap? at h
    split at h
    next c u =>
      split at h
      next hc =>
        obtain rfl := Option.some.inj h
        obtain ⟨b, hb, hu⟩ := exists_dropBlank u
        refine ⟨c :: b, ⟨List.cons_ne_nil c b, ?_⟩, congrArg (c :: ·) hu, ?_⟩
        · exact List.forall_mem_cons.mpr ⟨hc, hb⟩
        · intro d hd
          obtain ⟨v, hv⟩ := List.head?_eq_some_iff.mp hd
          exact isBlank_of_dropBlank hv
      next => cases h
    next => cases h
  · rintro ⟨w, ⟨hne, hw⟩, rfl, hr⟩
    obtain ⟨c, w, rfl⟩ := List.exists_cons_of_ne_nil hne
    obtain ⟨hc, hw⟩ := List.forall_mem_cons.mp hw
    have hdrop : dropBlank (w ++ r) = r := by
      rw [dropBlank_append hw]
      cases r with
      | nil => rfl
      | cons d r => exact dropBlank_cons (hr d rfl) r
    rw [List.cons_append, gap?, if_pos hc, hdrop]

theorem isWord_of_blank {c : Char} (h : isBlank c = true) : Text.isWord c = false := by
  have hc := toNat_of_blank h
  rw [Text.isWord]
  revert hc
  generalize c.toNat = n
  revert n
  decide +kernel

theorem IsWordRun.endsBlank {a : Text} (h : IsWordRun a) (r : Text) : EndsRun isBlank (a ++ r) := by
  refine endsRun_append h.1 (fun c hc => ?_) r
  rw [Bool.eq_false_iff]
  intro hb
  have hw := h.2 c hc
  rw [isWord_of_blank hb] at hw
  cases hw

end

theorem solid?_append {t : Text} (h : Solid t) (r : Text) :
    solid? (t ++ ' ' :: r) = some (t, ' ' :: r) :=
  solid?_eq_some_iff.mpr ⟨rfl, h, endsRun_cons rfl r⟩

theorem word?_append {t : Text} (h : IsWordRun t) (r : Text) :
    word? (t ++ ' ' :: r) = some (t, ' ' :: r) :=
  word?_eq_some_iff.mpr ⟨rfl, h, endsRun_cons (by decide) r⟩

theorem context?_append {t : Text} (h : t ≠ [] ∧ ∀ c ∈ t, isContextChar c = true) (r : Text) :
    context? ('[' :: (t ++ ']' :: r)) = some (t, r) := by
  have hs := span_append_cons h.2 (c := ']') (by decide) r
  obtain ⟨c, t, rfl⟩ := List.exists_cons_of_ne_nil h.1
  rw [List.cons_append] at hs
  simp only [context?, expect?, if_true, Option.bind_eq_bind, Option.bind_some, List.cons_append, hs]
  rfl

theorem gap?_space {r : Text} (h : EndsRun isBlank r) : gap? (' ' :: r) = some r :=
  gap?_eq_some_iff.mpr ⟨[' '], ⟨List.cons_ne_nil ' ' [], List.forall_mem_singleton.mpr rfl⟩, rfl, h⟩

theorem bodyAndMillis?_append {digits : Text} (h : ∀ c ∈ digits, c.isDigit = true) (body : Text) :
    bodyAndMillis? (body ++ ' ' :: (digits ++ ['m', 's'])) =
      (duration? digits).bind fun millis => if '\n' ∈ body then none else some (body, millis) := by
  have hrev : (body ++ ' ' :: (digits ++ ['m', 's'])).reverse =
      's' :: 'm' :: (digits.reverse ++ ' ' :: body.reverse) := by simp
  have hs := span_append_cons (p := Char.isDigit) (a := digits.reverse) (by simpa using h) (c := ' ')
    (by decide) body.reverse
  rw [bodyAndMillis?, hrev]
  simp only [hs, List.reverse_reverse, List.mem_reverse]
  rfl

theorem Parts.read?_text {p : Parts} (h : p.WellFormed) :
    Line.read? p.text = (duration? p.digits).bind fun millis =>
      if '\n' ∈ p.body then none
      else some ⟨p.timestamp, p.component, p.operation, p.ns, p.body, millis⟩ := by
  have htag := h.tag.2
  have hgap (r : Text) : gap? (' ' :: '[' :: r) = some ('[' :: r) := gap?_space (endsRun_cons rfl r)
  simp [Line.read?, text, duration, solid?_append h.timestamp, expect?, solid?_append h.severity,
    gap?_space (h.component.endsBlank _), word?_append h.component, hgap, context?_append h.context,
    word?_append h.operation, solid?_append h.ns, solid?_append h.tag.1, htag,
    bodyAndMillis?_append h.digits]
  cases duration? p.digits with
  | none => rfl
  | some millis => by_cases hb : '\n' ∈ p.body <;> simp [hb]

end SlowQuery.Record
