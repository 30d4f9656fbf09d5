import SlowQuery.Payload.Parser
import SlowQuery.Proofs.Blanks

namespace SlowQuery.Payload

open Text

/-- No unescaped `stop` occurs, and the last backslash escapes something. -/
def encloses (stop : Char) : (escaped : Bool) → Text → Bool
  | escaped, [] => !escaped
  | true, _ :: t => encloses stop false t
  | false, c :: t => if c = '\\' then encloses stop true t else c ≠ stop && encloses stop false t

theorem upTo_enclosed {stop : Char} (hstop : stop ≠ '\\') {escaped : Bool} {inner : Text}
    (h : encloses stop escaped inner = true) (rest : Text) :
    upTo stop escaped (inner ++ stop :: rest) = .ok (inner, rest) := by
  induction inner generalizing escaped with
  | nil =>
      cases escaped with
      | true => simp [encloses] at h
      | false => simp [upTo, hstop]
  | cons c t ih =>
      cases escaped with
      | true => rw [List.cons_append, upTo, ih h]; rfl
      | false =>
          simp only [encloses] at h
          rw [List.cons_append, upTo]
          split at h
          next hc => rw [if_pos hc, ih h]; rfl
          next hc =>
            obtain ⟨hs, ht⟩ := (Bool.and_eq_true _ _).mp h
            rw [if_neg hc, if_neg (by simpa using hs), ih ht]
            rfl

theorem upTo_sound {stop : Char} {escaped : Bool} {t l r : Text}
    (h : upTo stop escaped t = .ok (l, r)) :
    t = l ++ stop :: r ∧ encloses stop escaped l = true := by
  induction t generalizing escaped l with
  | nil => cases escaped <;> simp [upTo] at h
  | cons c t ih =>
      have further {e : Bool} (h : (upTo stop e t).map (fun x => (c :: x.1, x.2)) = .ok (l, r)) :
          ∃ l', l = c :: l' ∧ t = l' ++ stop :: r ∧ encloses stop e l' = true := by
        obtain ⟨⟨l', r'⟩, hu, he⟩ := map_eq_ok.mp h
        obtain ⟨rfl, rfl⟩ := Prod.mk.inj he
        exact ⟨l', rfl, ih hu⟩
      cases escaped with
      | true =>
          obtain ⟨l', rfl, rfl, hl⟩ := further h
          exact ⟨rfl, hl⟩
      | false =>
          rw [upTo] at h
          split at h
          next hc =>
            obtain ⟨l', rfl, rfl, hl⟩ := further h
            exact ⟨rfl, by rw [encloses, if_pos hc, hl]⟩
          next hc =>
            split at h
            next hs =>
              obtain ⟨rfl, rfl⟩ := Prod.mk.inj (Except.ok.inj h)
              exact ⟨by rw [hs]; rfl, rfl⟩
            next hs =>
              obtain ⟨l', rfl, rfl, hl⟩ := further h
              exact ⟨rfl, by simp [encloses, hc, hs, hl]⟩

theorem isQuote_ne {q : Char} (h : isQuote q = true) : q ≠ '\\' ∧ isBlank q = false := by
  simp only [isQuote, Bool.or_eq_true, decide_eq_true_eq] at h
  rcases h with rfl | rfl <;> decide

theorem quotedText_enclosed {q : Char} (hq : isQuote q = true) {inner : Text}
    (h : encloses q false inner = true) (rest : Text) :
    quotedText q (inner ++ q :: rest) = .ok (q :: inner ++ [q], rest) := by
  rw [quotedText, upTo_enclosed (isQuote_ne hq).1 h]
  rfl

theorem quotedText_sound {q : Char} {t w r : Text} (h : quotedText q t = .ok (w, r)) :
    ∃ inner, w = q :: inner ++ [q] ∧ q :: t = w ++ r ∧ encloses q false inner = true := by
  obtain ⟨⟨inner, r'⟩, hu, he⟩ := map_eq_ok.mp h
  obtain ⟨rfl, rfl⟩ := Prod.mk.inj he
  obtain ⟨rfl, hi⟩ := upTo_sound hu
  exact ⟨inner, rfl, by simp, hi⟩

def endsKey (c : Char) : Bool := c ∈ [':', ',', '{', '}', '[', ']']

/-- A key without quotes. It may be empty, and white space may stand inside of it. -/
structure IsBareKey (k : Text) : Prop where
  clear : ∀ c ∈ k, endsKey c = false
  first : dropBlank k = k
  unquoted : ∀ c t, k = c :: t → isQuote c = false
  last : EndsSolid k

/-- The second text is a way to write the key that is the first. -/
inductive KeyText : Text → Text → Prop
  | bare {k : Text} (h : IsBareKey k) : KeyText k k
  | quoted {q : Char} {inner : Text} (hq : isQuote q = true) (h : encloses q false inner = true) :
      KeyText (plainKey (q :: inner ++ [q])) (q :: inner ++ [q])

theorem bareKey_clear {k : Text} (h : ∀ c ∈ k, endsKey c = false) (rest : Text) :
    bareKey (k ++ ':' :: rest) = .ok (k, ':' :: rest) := by
  induction k with
  | nil => simp [bareKey]
  | cons c k ih =>
      have hc := h c List.mem_cons_self
      have hk := ih fun d hd => h d (List.mem_cons_of_mem c hd)
      simp only [endsKey, List.mem_cons, List.not_mem_nil, or_false, decide_eq_false_iff_not,
        not_or] at hc
      rw [List.cons_append, bareKey, if_neg hc.1, if_neg (by simp [hc]), hk]
      rfl

theorem bareKey_sound {t k r : Text} (h : bareKey t = .ok (k, r)) :
    ∃ r', r = ':' :: r' ∧ t = k ++ r ∧ ∀ c ∈ k, endsKey c = false := by
  induction t generalizing k with
  | nil => simp [bareKey] at h
  | cons c t ih =>
      rw [bareKey] at h
      split at h
      next hc =>
        obtain ⟨rfl, rfl⟩ := Prod.mk.inj (Except.ok.inj h)
        exact ⟨t, by rw [hc], rfl, by simp⟩
      next hc =>
        split at h
        · simp at h
        next hd =>
          obtain ⟨⟨k', r''⟩, hb, he⟩ := map_eq_ok.mp h
          obtain ⟨rfl, rfl⟩ := Prod.mk.inj he
          obtain ⟨r', hr, ht, hk⟩ := ih hb
          refine ⟨r', hr, by rw [ht]; rfl, ?_⟩
          intro d hmem
          rcases List.mem_cons.mp hmem with rfl | hmem
          · simp only [List.mem_cons, List.not_mem_nil, or_false, not_or] at hd
            simp [endsKey, hc, hd]
          · exact hk d hmem

theorem colon_blank {b : Text} (hb : Blank b) (rest : Text) :
    colon (b ++ ':' :: rest) = .ok ((), rest) := by
  have h : isBlank ':' = false := by decide
  simp [colon, dropBlank_append hb, dropBlank_cons h]

theorem colon_sound {t r : Text} {u : Unit} (h : colon t = .ok (u, r)) :
    ∃ b, Blank b ∧ t = b ++ ':' :: r := by
  obtain ⟨b, hb, ht⟩ := exists_dropBlank t
  rw [colon] at h
  split at h
  · simp at h
  next c t' hd =>
    split at h
    next hc =>
      obtain ⟨-, rfl⟩ := Prod.mk.inj (Except.ok.inj h)
      exact ⟨b, hb, by rw [ht, hd, hc]⟩
    · simp at h

theorem endsKey_of_blank {c : Char} (h : isBlank c = true) : endsKey c = false := by
  rw [Bool.eq_false_iff]
  intro hc
  simp only [endsKey, List.mem_cons, List.not_mem_nil, or_false, decide_eq_true_eq] at hc
  rcases hc with rfl | rfl | rfl | rfl | rfl | rfl <;> simp [isBlank, blankRanges, Ranges.has] at h

theorem key_bare {k b : Text} (h : IsBareKey k) (hb : Blank b) (rest : Text) :
    key (k ++ (b ++ ':' :: rest)) = .ok (k, ':' :: rest) := by
  have hcolon : isBlank ':' = false := by decide
  cases k with
  | nil => simp [key, dropBlank_append hb, dropBlank_cons hcolon, isQuote, bareKey, trimEnd,
      trimEndBy, Except.map]
  | cons c k =>
      have hc := isBlank_of_dropBlank h.first
      have hread : bareKey ((c :: k ++ b) ++ ':' :: rest) = .ok (c :: k ++ b, ':' :: rest) := by
        apply bareKey_clear
        intro d hd
        exact (List.mem_append.mp hd).elim (h.clear d) fun hd => endsKey_of_blank (hb d hd)
      rw [List.append_assoc, List.cons_append] at hread
      rw [key, List.cons_append, dropBlank_cons hc]
      simp only [h.unquoted c k rfl, Bool.false_eq_true, if_false, hread]
      exact congrArg (fun k => Except.ok (k, ':' :: rest)) (trimEnd_append h.last hb)

theorem key_written {k w a b : Text} (hw : KeyText k w) (ha : Blank a) (hb : Blank b)
    (rest : Text) :
    ∃ r, key (a ++ (w ++ (b ++ ':' :: rest))) = .ok (k, r) ∧ colon r = .ok ((), rest) := by
  cases hw with
  | bare h =>
      refine ⟨':' :: rest, ?_, colon_blank blank_nil rest⟩
      rw [← key_bare h hb rest, key, key, dropBlank_append ha]
  | quoted hq h =>
      refine ⟨b ++ ':' :: rest, ?_, colon_blank hb rest⟩
      rw [key, dropBlank_append ha, List.append_assoc, List.cons_append,
        dropBlank_cons (isQuote_ne hq).2]
      simp only [hq, if_true, List.singleton_append, quotedText_enclosed hq h]
      rfl

theorem key_sound {t k r : Text} (h : key t = .ok (k, r)) :
    ∃ a w b, Blank a ∧ KeyText k w ∧ Blank b ∧ t = a ++ (w ++ (b ++ r)) := by
  obtain ⟨a, ha, ht⟩ := exists_dropBlank t
  rw [key] at h
  split at h
  · simp at h
  next c t' hd =>
    split at h
    next hq =>
      obtain ⟨⟨w, r'⟩, hu, he⟩ := map_eq_ok.mp h
      obtain ⟨rfl, rfl⟩ := Prod.mk.inj he
      obtain ⟨inner, rfl, hw, hi⟩ := quotedText_sound hu
      exact ⟨a, _, [], ha, .quoted hq hi, blank_nil, by rw [ht, hd, hw]; rfl⟩
    next hq =>
      obtain ⟨⟨w, r'⟩, hu, he⟩ := map_eq_ok.mp h
      obtain ⟨rfl, rfl⟩ := Prod.mk.inj he
      obtain ⟨r'', rfl, hw, hk⟩ := bareKey_sound hu
      obtain ⟨b, hb, hwb⟩ := exists_trimEnd w
      refine ⟨a, trimEnd w, b, ha, .bare ⟨?_, ?_, ?_, endsSolid_trimEnd w⟩, hb, ?_⟩
      · intro d hmem
        exact hk d (by rw [hwb]; exact List.mem_append_left b hmem)
      · cases hn : trimEnd w with
        | nil => rfl
        | cons d u =>
            rw [hn] at hwb
            rw [hwb] at hw
            have hdc : c = d := (List.cons.inj hw).1
            exact dropBlank_cons (hdc ▸ isBlank_of_dropBlank hd) u
      · intro d u hn
        rw [hwb, hn] at hw
        have hdc : c = d := (List.cons.inj hw).1
        exact hdc ▸ Bool.eq_false_iff.mpr hq
      · rw [ht, hd, hw, ← List.append_assoc (trimEnd w), ← hwb]

theorem isBareKey_of_safe {k : Text} (h : ∀ c ∈ k, needsQuotes c = false) : IsBareKey k := by
  simp only [needsQuotes, Bool.or_eq_false_iff, decide_eq_false_iff_not, List.mem_cons,
    List.not_mem_nil, or_false, not_or] at h
  refine ⟨?_, ?_, ?_, ?_⟩
  · intro c hc
    simp [endsKey, h c hc]
  · cases k with
    | nil => rfl
    | cons c k => exact dropBlank_cons (h c List.mem_cons_self).1 k
  · rintro c t rfl
    simp [isQuote, h c List.mem_cons_self]
  · intro c hc
    exact (h c (List.mem_of_getLast? hc)).1

theorem plainKey_cases (q : Char) (inner : Text) :
    (plainKey (q :: inner ++ [q]) = inner ∧ IsBareKey inner) ∨
      plainKey (q :: inner ++ [q]) = q :: inner ++ [q] := by
  have hinner : ((q :: inner ++ [q]).drop 1).dropLast = inner := by simp
  simp only [plainKey, hinner]
  split
  next h =>
    simp only [Bool.and_eq_true, Bool.not_eq_true', List.any_eq_false, Bool.not_eq_true] at h
    exact .inl ⟨rfl, isBareKey_of_safe h.2⟩
  next => exact .inr rfl

theorem KeyText.self {k w : Text} (h : KeyText k w) : KeyText k k := by
  cases h with
  | bare h => exact .bare h
  | @quoted q inner hq hi =>
      rcases plainKey_cases q inner with ⟨hk, hb⟩ | hk
      · rw [hk]
        exact .bare hb
      · have hw := KeyText.quoted hq hi
        rw [hk] at hw ⊢
        exact hw

end SlowQuery.Payload
