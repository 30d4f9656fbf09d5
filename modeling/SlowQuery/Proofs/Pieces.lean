import SlowQuery.Proofs.Scans

namespace SlowQuery.Payload

open Text

inductive Piece where
  /-- A delimiter of an object or array, or between its members or items. -/
  | delimiter (c : Char)
  /-- A text in double quotes, which is a value, a key or an argument of a constructor. -/
  | string (inner : Text) (closed : encloses '"' false inner = true)
  | other (c : Char)

def Piece.text : Piece → Text
  | .delimiter c => [c]
  | .string inner _ => '"' :: inner ++ ['"']
  | .other c => [c]

def textOf (ps : List Piece) : Text := ps.flatMap Piece.text

def others (t : Text) : List Piece := t.map .other

def quotedPieces (q : Char) (inner : Text) (h : encloses q false inner = true) : List Piece :=
  if hq : q = '"' then [.string inner (hq ▸ h)] else others (q :: inner ++ [q])

/-- The pieces of a part of a word, between two numbers of open parentheses. -/
inductive WordPieces : Nat → List Piece → Nat → Prop
  | nil (d : Nat) : WordPieces d [] d
  | other {c : Char} {ps : List Piece} {d d' d'' : Nat}
      (h : wordStep .plain d c = some (.plain, d')) (hps : WordPieces d' ps d'') :
      WordPieces d (.other c :: ps) d''
  | quoted {q : Char} {inner : Text} {ps : List Piece} {d d' : Nat} (hq : isQuote q = true)
      (h : encloses q false inner = true) (hps : WordPieces (d + 1) ps d') :
      WordPieces (d + 1) (quotedPieces q inner h ++ ps) d'

inductive KeyPieces : Text → List Piece → Prop
  | bare {k : Text} (h : IsBareKey k) : KeyPieces k (others k)
  | quoted {q : Char} {inner : Text} (hq : isQuote q = true) (h : encloses q false inner = true) :
      KeyPieces (plainKey (q :: inner ++ [q])) (quotedPieces q inner h)

inductive ScalarPieces : Scalar → List Piece → Prop
  | str {q : Char} {inner : Text} (hq : isQuote q = true) (h : encloses q false inner = true) :
      ScalarPieces (.str (q :: inner ++ [q])) (quotedPieces q inner h)
  | regex {pattern flags : Text} (hp : encloses '/' false pattern = true)
      (hf : ∀ c ∈ flags, isFlag c = true) :
      ScalarPieces (.regex pattern flags) (others ('/' :: pattern ++ '/' :: flags))
  | word {ps : List Piece} (hps : WordPieces 0 ps 0) (h : IsWord 0 (textOf ps)) :
      ScalarPieces (.ofWord (textOf ps)) ps

/-- The pieces of what is written for a value, or for members or items behind their opening
delimiter. -/
inductive Pieces : Part → List Piece → Prop
  | scalar {s ps} (h : ScalarPieces s ps) : Pieces (.value (.scalar s)) ps
  | emptyObject {b} (hb : Blank b) :
      Pieces (.value (.object [])) (.delimiter '{' :: (others b ++ [.delimiter '}']))
  | object {ms ps} (h : Pieces (.members ms) ps) :
      Pieces (.value (.object ms)) (.delimiter '{' :: ps)
  | emptyArray {b} (hb : Blank b) :
      Pieces (.value (.array [])) (.delimiter '[' :: (others b ++ [.delimiter ']']))
  | array {vs ps} (h : Pieces (.items vs) ps) : Pieces (.value (.array vs)) (.delimiter '[' :: ps)
  | lastMember {a k ks b c v ps d} (ha : Blank a) (hk : KeyPieces k ks) (hb : Blank b)
      (hc : Blank c) (hv : Pieces (.value v) ps) (hd : Blank d) :
      Pieces (.members [(k, v)]) (others a ++ (ks ++ (others b ++ .delimiter ':' :: (others c ++
        (ps ++ (others d ++ [.delimiter '}']))))))
  | member {a k ks b c v ps d ms qs} (ha : Blank a) (hk : KeyPieces k ks) (hb : Blank b)
      (hc : Blank c) (hv : Pieces (.value v) ps) (hd : Blank d) (hms : Pieces (.members ms) qs) :
      Pieces (.members ((k, v) :: ms)) (others a ++ (ks ++ (others b ++ .delimiter ':' ::
        (others c ++ (ps ++ (others d ++ .delimiter ',' :: qs))))))
  | lastItem {c v ps d} (hc : Blank c) (hv : Pieces (.value v) ps) (hd : Blank d) :
      Pieces (.items [v]) (others c ++ (ps ++ (others d ++ [.delimiter ']'])))
  | item {c v ps d vs qs} (hc : Blank c) (hv : Pieces (.value v) ps) (hd : Blank d)
      (hvs : Pieces (.items vs) qs) :
      Pieces (.items (v :: vs)) (others c ++ (ps ++ (others d ++ .delimiter ',' :: qs)))

@[simp] theorem textOf_nil : textOf [] = [] := rfl

@[simp] theorem textOf_delimiter (c : Char) (ps : List Piece) :
    textOf (.delimiter c :: ps) = c :: textOf ps := rfl

@[simp] theorem textOf_other (c : Char) (ps : List Piece) :
    textOf (.other c :: ps) = c :: textOf ps := rfl

@[simp] theorem textOf_append (ps qs : List Piece) : textOf (ps ++ qs) = textOf ps ++ textOf qs :=
  List.flatMap_append

@[simp] theorem textOf_others (t : Text) : textOf (others t) = t := by
  induction t with
  | nil => rfl
  | cons c t ih => exact congrArg (c :: ·) ih

@[simp] theorem textOf_quotedPieces {q : Char} {inner : Text} (h : encloses q false inner = true) :
    textOf (quotedPieces q inner h) = q :: inner ++ [q] := by
  rw [quotedPieces]
  split
  next hq => simp [textOf, Piece.text, hq]
  next => exact textOf_others _

section

variable {q c : Char} {d d' d'' : Nat} {u w k t : Text} {s s' : Scalar} {scan : WordScan}

theorem quoted_of_wordRun (escaped : Bool)
    (h : wordRun (if escaped then .escaped q else .quoted q) d u = some (.plain, d')) :
    ∃ inner v, u = inner ++ q :: v ∧ encloses q escaped inner = true ∧
      wordRun .plain d v = some (.plain, d') := by
  induction u generalizing escaped with
  | nil => cases escaped <;> simp [wordRun] at h
  | cons c u ih =>
      cases escaped with
      | true =>
          obtain ⟨inner, v, rfl, hi, hv⟩ := ih false h
          exact ⟨c :: inner, v, rfl, hi, hv⟩
      | false =>
          simp only [Bool.false_eq_true, if_false, wordRun, wordStep, Option.bind_some] at h
          by_cases he : c = '\\'
          · rw [if_pos he] at h
            obtain ⟨inner, v, rfl, hi, hv⟩ := ih true h
            exact ⟨c :: inner, v, rfl, by rw [encloses, if_pos he, hi], hv⟩
          · rw [if_neg he] at h
            by_cases hc : c = q
            · rw [if_pos hc] at h
              exact ⟨[], u, by rw [hc]; rfl, rfl, h⟩
            · rw [if_neg hc] at h
              obtain ⟨inner, v, rfl, hi, hv⟩ := ih false h
              exact ⟨c :: inner, v, rfl, by simp [encloses, he, hc, hi], hv⟩

theorem wordStep_plain (h : wordStep .plain d c = some (scan, d')) :
    scan = .plain ∨ isQuote c = true ∧ scan = .quoted c ∧ d' = d ∧ ∃ n, d = n + 1 := by
  cases d with
  | zero =>
      rw [wordStep] at h
      split at h
      · cases h
      · exact .inl (Prod.mk.inj (Option.some.inj h)).1.symm
  | succ n =>
      obtain ⟨rfl, rfl⟩ := Prod.mk.inj (Option.some.inj h)
      by_cases hq : isQuote c = true
      · have hparens : c ≠ '(' ∧ c ≠ ')' := by
          constructor <;> rintro rfl <;> exact absurd hq (by decide)
        simp [hq, hparens]
      · simp [hq]

theorem exists_wordPieces (h : wordRun .plain d w = some (.plain, d')) :
    ∃ ps, WordPieces d ps d' ∧ textOf ps = w := by
  -- A quoted text is passed over at once, so the induction is on the length.
  induction hn : w.length using Nat.strongRecOn generalizing d w with
  | ind n ih =>
      subst hn
      cases w with
      | nil =>
          obtain ⟨-, rfl⟩ := Prod.mk.inj (Option.some.inj h)
          exact ⟨[], .nil d, rfl⟩
      | cons c u =>
          rw [wordRun, Option.bind_eq_some_iff] at h
          obtain ⟨⟨scan, n⟩, hc, hu⟩ := h
          rcases wordStep_plain hc with rfl | ⟨hq, rfl, rfl, m, rfl⟩
          · obtain ⟨ps, hps, rfl⟩ := ih _ (Nat.lt_succ_self _) hu rfl
            exact ⟨.other c :: ps, .other hc hps, rfl⟩
          · obtain ⟨inner, v, rfl, hi, hv⟩ := quoted_of_wordRun false hu
            have hlen : v.length < (c :: (inner ++ c :: v)).length := by
              simp only [List.length_cons, List.length_append]
              omega
            obtain ⟨ps, hps, rfl⟩ := ih _ hlen hv rfl
            exact ⟨quotedPieces c inner hi ++ ps, .quoted hq hi hps, by simp⟩

theorem exists_keyPieces (h : KeyText k w) : ∃ ps, KeyPieces k ps ∧ textOf ps = w := by
  cases h with
  | bare h => exact ⟨_, .bare h, textOf_others _⟩
  | quoted hq h => exact ⟨_, .quoted hq h, textOf_quotedPieces h⟩

theorem exists_scalarPieces (h : Literal s) : ∃ ps, ScalarPieces s ps ∧ textOf ps = s.render := by
  cases h with
  | str hq h => exact ⟨_, .str hq h, textOf_quotedPieces h⟩
  | regex hp hf => exact ⟨_, .regex hp hf, textOf_others _⟩
  | word h =>
      obtain ⟨ps, hps, rfl⟩ := exists_wordPieces h.run
      exact ⟨ps, .word hps h, (render_ofWord _).symm⟩

theorem Written.exists_pieces {p : Part} (h : Written p t) : ∃ ps, Pieces p ps ∧ textOf ps = t := by
  induction h with
  | scalar h =>
      obtain ⟨ps, hps, ht⟩ := exists_scalarPieces h
      exact ⟨ps, .scalar hps, ht⟩
  | emptyObject hb => exact ⟨_, .emptyObject hb, by simp⟩
  | object _ ih =>
      obtain ⟨ps, hps, rfl⟩ := ih
      exact ⟨_, .object hps, by simp⟩
  | emptyArray hb => exact ⟨_, .emptyArray hb, by simp⟩
  | array _ ih =>
      obtain ⟨ps, hps, rfl⟩ := ih
      exact ⟨_, .array hps, by simp⟩
  | lastMember ha hk hb hc _ hd ih =>
      obtain ⟨ps, hps, rfl⟩ := ih
      obtain ⟨ks, hks, rfl⟩ := exists_keyPieces hk
      exact ⟨_, .lastMember ha hks hb hc hps hd, by simp⟩
  | member ha hk hb hc _ hd _ ih ihs =>
      obtain ⟨ps, hps, rfl⟩ := ih
      obtain ⟨qs, hqs, rfl⟩ := ihs
      obtain ⟨ks, hks, rfl⟩ := exists_keyPieces hk
      exact ⟨_, .member ha hks hb hc hps hd hqs, by simp⟩
  | lastItem hc _ hd ih =>
      obtain ⟨ps, hps, rfl⟩ := ih
      exact ⟨_, .lastItem hc hps hd, by simp⟩
  | item hc _ hd _ ih ihs =>
      obtain ⟨ps, hps, rfl⟩ := ih
      obtain ⟨qs, hqs, rfl⟩ := ihs
      exact ⟨_, .item hc hps hd hqs, by simp⟩

theorem KeyPieces.written {ks : List Piece} (h : KeyPieces k ks) : KeyText k (textOf ks) := by
  cases h with
  | bare h =>
      rw [textOf_others]
      exact .bare h
  | quoted hq h =>
      rw [textOf_quotedPieces]
      exact .quoted hq h

theorem ScalarPieces.written {ps : List Piece} (h : ScalarPieces s ps) :
    Literal s ∧ s.render = textOf ps := by
  cases h with
  | str hq h => exact ⟨.str hq h, (textOf_quotedPieces h).symm⟩
  | regex hp hf => exact ⟨.regex hp hf, (textOf_others _).symm⟩
  | word _ h => exact ⟨.word h, render_ofWord _⟩

theorem Pieces.written {p : Part} {ps : List Piece} (h : Pieces p ps) : Written p (textOf ps) := by
  induction h with
  | scalar h =>
      obtain ⟨hl, ht⟩ := h.written
      exact ht ▸ .scalar hl
  | emptyObject hb => simpa using Written.emptyObject hb
  | object _ ih => exact .object ih
  | emptyArray hb => simpa using Written.emptyArray hb
  | array _ ih => exact .array ih
  | lastMember ha hk hb hc _ hd ih => simpa using Written.lastMember ha hk.written hb hc ih hd
  | member ha hk hb hc _ hd _ ih ihs =>
      simpa using Written.member ha hk.written hb hc ih hd ihs
  | lastItem hc _ hd ih => simpa using Written.lastItem hc ih hd
  | item hc _ hd _ ih ihs => simpa using Written.item hc ih hd ihs

theorem enclosed_inj {inner inner' r r' : Text} (hq : isQuote q = true)
    (h : encloses q false inner = true) (h' : encloses q false inner' = true)
    (he : inner ++ q :: r = inner' ++ q :: r') : inner = inner' ∧ r = r' := by
  have hread := upTo_enclosed (isQuote_ne hq).1 h r
  rw [he, upTo_enclosed (isQuote_ne hq).1 h' r'] at hread
  exact ⟨(Prod.mk.inj (Except.ok.inj hread)).1.symm, (Prod.mk.inj (Except.ok.inj hread)).2.symm⟩

theorem wordStep_quote (hq : isQuote q = true) : wordStep .plain (d + 1) q ≠ some (.plain, d') := by
  simp [wordStep, hq]

theorem WordPieces.unique {ps qs : List Piece} (h : WordPieces d ps d') (h' : WordPieces d qs d'')
    (ht : textOf ps = textOf qs) : ps = qs := by
  induction h generalizing qs with
  | nil =>
      cases h' with
      | nil => rfl
      | other => simp at ht
      | quoted => simp at ht
  | @other c ps _ _ _ h _ ih =>
      cases h' with
      | nil => simp at ht
      | other h₁ hqs =>
          obtain ⟨rfl, hrest⟩ := List.cons.inj ht
          obtain ⟨-, rfl⟩ := Prod.mk.inj (Option.some.inj (h.symm.trans h₁))
          rw [ih hqs hrest]
      | quoted hq =>
          rw [textOf_append, textOf_quotedPieces] at ht
          obtain ⟨rfl, -⟩ := List.cons.inj ht
          exact absurd h (wordStep_quote hq)
  | @quoted q inner ps _ _ hq h _ ih =>
      rw [textOf_append, textOf_quotedPieces] at ht
      cases h' with
      | nil => simp at ht
      | other h₁ =>
          obtain ⟨rfl, -⟩ := List.cons.inj ht
          exact absurd h₁ (wordStep_quote hq)
      | quoted _ h₁ hqs =>
          rw [textOf_append, textOf_quotedPieces] at ht
          simp only [List.cons_append, List.append_assoc, List.nil_append, List.cons.injEq] at ht
          obtain ⟨rfl, ht⟩ := ht
          obtain ⟨rfl, hrest⟩ := enclosed_inj hq h h₁ ht
          rw [ih hqs hrest]

theorem IsWord.head {n : Nat} (h : IsWord n w) (hw : w = c :: t) : isQuote c = false ∧ c ≠ '/' := by
  obtain ⟨x, u, rfl, -, hq, hx⟩ := h.first
  obtain rfl := (List.cons.inj hw).1
  exact ⟨hq, fun he => hx (by simp [he])⟩

theorem ScalarPieces.unique {ps qs : List Piece} (h : ScalarPieces s ps) (h' : ScalarPieces s' qs)
    (ht : textOf ps = textOf qs) : ps = qs := by
  cases h with
  | @str q inner hq h =>
      rw [textOf_quotedPieces] at ht
      cases h' with
      | str _ h' =>
          rw [textOf_quotedPieces] at ht
          obtain ⟨rfl, ht⟩ := List.cons.inj ht
          obtain rfl := List.append_cancel_right ht
          rfl
      | regex =>
          rw [textOf_others] at ht
          obtain ⟨rfl, -⟩ := List.cons.inj ht
          exact absurd hq (by decide)
      | word _ hw => exact absurd hq (by simp [(hw.head ht.symm).1])
  | regex =>
      rw [textOf_others] at ht
      cases h' with
      | str hq h' =>
          rw [textOf_quotedPieces] at ht
          obtain ⟨rfl, -⟩ := List.cons.inj ht
          exact absurd hq (by decide)
      | regex =>
          rw [textOf_others] at ht
          rw [ht]
      | word _ hw => exact absurd rfl (hw.head ht.symm).2
  | word hps hw =>
      cases h' with
      | str hq h' =>
          rw [textOf_quotedPieces] at ht
          exact absurd hq (by simp [(hw.head ht).1])
      | regex =>
          rw [textOf_others] at ht
          exact absurd rfl (hw.head ht).2
      | word hqs => exact hps.unique hqs ht

variable {a a' b b' k' r r' w' : Text} {ks ks' : List Piece}

theorem others_append (t u : Text) : others (t ++ u) = others t ++ others u := List.map_append

theorem IsBareKey.ne_quoted (h : IsBareKey k) (ha : Blank a) (hb : Blank b) (ha' : Blank a')
    (hq : isQuote q = true) : a ++ (k ++ (b ++ ':' :: r)) ≠ a' ++ q :: t := by
  intro he
  have hd := congrArg dropBlank he
  rw [dropBlank_append ha, dropBlank_append ha', dropBlank_cons (isQuote_ne hq).2] at hd
  cases k with
  | nil =>
      rw [List.nil_append, dropBlank_append hb, dropBlank_cons (by decide)] at hd
      obtain rfl := (List.cons.inj hd).1
      exact absurd hq (by decide)
  | cons c k =>
      rw [List.cons_append, dropBlank_cons (isBlank_of_dropBlank h.first)] at hd
      have hc := h.unquoted c k rfl
      rw [(List.cons.inj hd).1, hq] at hc
      cases hc

theorem IsBareKey.no_colon (h : IsBareKey k) (ha : Blank a) (hb : Blank b) :
    ∀ c ∈ a ++ (k ++ b), (c != ':') = true := by
  intro c hc
  simp only [List.mem_append] at hc
  rw [bne_iff_ne]
  rcases hc with hc | hc | hc
  · exact ne_of_blank (ha c hc) (by decide)
  · rintro rfl
    exact absurd (h.clear ':' hc) (by decide)
  · exact ne_of_blank (hb c hc) (by decide)

theorem keyPart_unique (hk : KeyPieces k ks) (hk' : KeyPieces k' ks') (ha : Blank a)
    (hb : Blank b) (ha' : Blank a') (hb' : Blank b')
    (h : a ++ (textOf ks ++ (b ++ ':' :: r)) = a' ++ (textOf ks' ++ (b' ++ ':' :: r'))) :
    (∀ qs, others a ++ (ks ++ (others b ++ qs)) = others a' ++ (ks' ++ (others b' ++ qs))) ∧
      r = r' := by
  cases hk with
  | @bare k hk =>
      cases hk' with
      | @bare k' hk' =>
          -- Around an empty key both sides are one run, so all that the colon ends is compared.
          simp only [textOf_others] at h
          have hsplit : (a ++ (k ++ b)) ++ ':' :: r = (a' ++ (k' ++ b')) ++ ':' :: r' := by
            simpa using h
          obtain ⟨hfront, hrest⟩ := run_append_inj (hk.no_colon ha hb) (hk'.no_colon ha' hb')
            (endsRun_cons rfl r) (endsRun_cons rfl r') hsplit
          refine ⟨fun qs => ?_, (List.cons.inj hrest).2⟩
          simpa [others_append] using congrArg (others · ++ qs) hfront
      | quoted hq =>
          rw [textOf_others, textOf_quotedPieces] at h
          exact absurd h (hk.ne_quoted ha hb ha' hq)
  | @quoted q inner hq hi =>
      cases hk' with
      | bare hk' =>
          rw [textOf_others, textOf_quotedPieces] at h
          exact absurd h.symm (hk'.ne_quoted ha' hb' ha hq)
      | @quoted q' inner' hq' hi' =>
          simp only [textOf_quotedPieces, List.cons_append, List.append_assoc, List.nil_append] at h
          obtain ⟨rfl, hkey⟩ := blank_append_inj ha ha' (isQuote_ne hq).2 (isQuote_ne hq').2 h
          obtain ⟨rfl, hinner⟩ := List.cons.inj hkey
          obtain ⟨rfl, hend⟩ := enclosed_inj hq hi hi' hinner
          obtain ⟨rfl, hrest⟩ := blank_append_inj hb hb' (by decide) (by decide) hend
          exact ⟨fun _ => rfl, (List.cons.inj hrest).2⟩

theorem valuePart_unique {v : Value} {e e' : Char} (hv : Written (.value v) w)
    (hv' : Written (.value v) w') (ha : Blank a) (hb : Blank b) (ha' : Blank a') (hb' : Blank b')
    (he : isBlank e = false) (he' : isBlank e' = false)
    (h : a ++ (w ++ (b ++ e :: r)) = a' ++ (w' ++ (b' ++ e' :: r'))) :
    a = a' ∧ w = w' ∧ b = b' ∧ r = r' := by
  obtain ⟨c, u, rfl, hc⟩ := hv.head
  obtain ⟨c', u', rfl, hc'⟩ := hv'.head
  obtain ⟨rfl, hvalue⟩ := blank_append_inj ha ha' hc hc' h
  obtain ⟨hw, hend⟩ := hv.append_inj_of_eq hv' hvalue
  obtain ⟨rfl, hrest⟩ := blank_append_inj hb hb' he he' hend
  exact ⟨rfl, hw, rfl, (List.cons.inj hrest).2⟩

/-- Whatever is written is cut into pieces in one way. -/
theorem Pieces.unique {p : Part} {ps qs : List Piece} (h : Pieces p ps) (h' : Pieces p qs)
    (ht : textOf ps = textOf qs) : ps = qs := by
  induction h generalizing qs with
  | scalar h =>
      cases h' with
      | scalar h' => exact h.unique h' ht
  | @emptyObject b =>
      cases h' with
      | @emptyObject b' =>
          have hb : b = b' := by simpa using ht
          rw [hb]
      | object h' => cases h'
  | object h ih =>
      cases h' with
      | emptyObject => cases h
      | object h' => rw [ih h' (List.cons.inj ht).2]
  | @emptyArray b =>
      cases h' with
      | @emptyArray b' =>
          have hb : b = b' := by simpa using ht
          rw [hb]
      | array h' => cases h'
  | array h ih =>
      cases h' with
      | emptyArray => cases h
      | array h' => rw [ih h' (List.cons.inj ht).2]
  | lastMember ha hk hb hc hv hd ih =>
      cases h' with
      | lastMember ha' hk' hb' hc' hv' hd' =>
          simp only [textOf_append, textOf_delimiter, textOf_others] at ht
          obtain ⟨hkey, hvalue⟩ := keyPart_unique hk hk' ha hb ha' hb' ht
          obtain ⟨rfl, hps, rfl, -⟩ := valuePart_unique hv.written hv'.written hc hd hc' hd'
            (by decide) (by decide) hvalue
          rw [ih hv' hps, hkey]
      | member _ _ _ _ _ _ hms => cases hms
  | member ha hk hb hc hv hd hms ih ihs =>
      cases h' with
      | lastMember => cases hms
      | member ha' hk' hb' hc' hv' hd' hms' =>
          simp only [textOf_append, textOf_delimiter, textOf_others] at ht
          obtain ⟨hkey, hvalue⟩ := keyPart_unique hk hk' ha hb ha' hb' ht
          obtain ⟨rfl, hps, rfl, hqs⟩ := valuePart_unique hv.written hv'.written hc hd hc' hd'
            (by decide) (by decide) hvalue
          rw [ih hv' hps, ihs hms' hqs, hkey]
  | lastItem hc hv hd ih =>
      cases h' with
      | lastItem hc' hv' hd' =>
          simp only [textOf_append, textOf_delimiter, textOf_others] at ht
          obtain ⟨rfl, hps, rfl, -⟩ := valuePart_unique hv.written hv'.written hc hd hc' hd'
            (by decide) (by decide) ht
          rw [ih hv' hps]
      | item _ _ _ hvs => cases hvs
  | item hc hv hd hvs ih ihs =>
      cases h' with
      | lastItem => cases hvs
      | item hc' hv' hd' hvs' =>
          simp only [textOf_append, textOf_delimiter, textOf_others] at ht
          obtain ⟨rfl, hps, rfl, hqs⟩ := valuePart_unique hv.written hv'.written hc hd hc' hd'
            (by decide) (by decide) ht
          rw [ih hv' hps, ihs hvs' hqs]

theorem Written.existsUnique_pieces {p : Part} (h : Written p t) :
    ∃! ps, Pieces p ps ∧ textOf ps = t := by
  obtain ⟨ps, hps, ht⟩ := h.exists_pieces
  exact ⟨ps, ⟨hps, ht⟩, fun qs hqs => hqs.1.unique hps (hqs.2.trans ht.symm)⟩

end

end SlowQuery.Payload
