import SlowQuery.Proofs.Markers
import SlowQuery.Proofs.Pieces

namespace SlowQuery.Payload

open Text

def marks : List Char := ['"', '{', '}', '[', ']']

/-- Quotes, braces and brackets that are no delimiters stand in strings. A quote that is escaped in
a string stands in it. -/
def Clean (ps : List Piece) : Prop := ∀ c, Piece.other c ∈ ps → c ∉ marks

inductive IsPair : Char → Char → Prop
  | braces : IsPair '{' '}'
  | brackets : IsPair '[' ']'

/-- Between two states of the scan, a text that closes nothing and leaves the scan as deep as it
was. -/
structure Keeps (opener closer : Char) (s s' : Scan) (u : Text) : Prop where
  scan : scanRun s u = s'
  depth : ∀ d, depthRun opener closer s (d + 1) u = some (d + 1)

section

variable {opener closer o e c : Char} {s s' s'' : Scan} {u v : Text} {ps qs : List Piece}

theorem IsPair.ne (h : IsPair opener closer) : opener ≠ '"' ∧ closer ≠ '"' ∧ opener ≠ closer := by
  cases h <;> decide

theorem IsPair.mem (h : IsPair opener closer) : opener ∈ marks ∧ closer ∈ marks := by
  cases h <;> decide

theorem keeps_nil (s : Scan) : Keeps opener closer s s [] := ⟨rfl, fun _ => rfl⟩

theorem Keeps.append (hu : Keeps opener closer s s' u) (hv : Keeps opener closer s' s'' v) :
    Keeps opener closer s s'' (u ++ v) where
  scan := by rw [scanRun_append, hu.scan, hv.scan]
  depth := by
    intro d
    rw [depthRun_append (hu.depth d), hu.scan, hv.depth]

theorem Keeps.cons (hc : Keeps opener closer s s' [c]) (hu : Keeps opener closer s' s'' u) :
    Keeps opener closer s s'' (c :: u) :=
  hc.append hu

theorem keeps_char (hq : c ≠ '"') (ho : c ≠ opener) (hc : c ≠ closer) :
    Keeps opener closer .outside .outside [c] where
  scan := by simp [scanRun, scanStep, hq]
  depth := by
    intro d
    simp [depthRun, closes, depthStep, hq, ho, hc]

theorem keeps_quote : Keeps opener closer .outside .inString ['"'] where
  scan := rfl
  depth := by
    intro d
    simp [depthRun, closes, depthStep]

theorem keeps_inside (hs : s = .inString ∨ s = .escaped) (c : Char) :
    Keeps opener closer s (scanStep s c) [c] where
  scan := rfl
  depth := by
    intro d
    rcases hs with rfl | rfl <;> rfl

theorem keeps_enclosed (escaped : Bool) (h : encloses '"' escaped u = true) :
    Keeps opener closer (if escaped then .escaped else .inString) .inString u := by
  induction u generalizing escaped with
  | nil =>
      cases escaped with
      | true => cases h
      | false => exact keeps_nil .inString
  | cons c u ih =>
      cases escaped with
      | true => exact (keeps_inside (.inr rfl) c).cons (ih false h)
      | false =>
          have hc : Keeps opener closer .inString (scanStep .inString c) [c] :=
            keeps_inside (.inl rfl) c
          rw [encloses] at h
          split at h
          next he =>
            rw [show scanStep .inString c = .escaped by simp [scanStep, he]] at hc
            exact hc.cons (ih true h)
          next he =>
            obtain ⟨hq, hu⟩ := (Bool.and_eq_true _ _).mp h
            rw [scanStep_content (by simpa using hq) he] at hc
            exact hc.cons (ih false hu)

theorem keeps_string (h : encloses '"' false u = true) :
    Keeps opener closer .outside .outside ('"' :: u ++ ['"']) :=
  (keeps_quote.cons (keeps_enclosed false h)).append (keeps_inside (.inl rfl) '"')

theorem keeps_own (hp : IsPair opener closer) (hu : Keeps opener closer .outside .outside u) :
    Keeps opener closer .outside .outside (opener :: (u ++ [closer])) where
  scan := by
    have hopen : scanStep .outside opener = .outside := by simp [scanStep, hp.ne]
    rw [scanRun, List.foldl_cons, hopen, ← scanRun, scanRun_append, hu.scan]
    simp [scanRun, scanStep, hp.ne]
  depth := by
    intro d
    obtain ⟨ho, hc, hne⟩ := hp.ne
    have hdown : depthRun opener closer .outside (d + 1) (opener :: (u ++ [closer])) =
        depthRun opener closer .outside (d + 2) (u ++ [closer]) := by
      simp [depthRun, closes, scanStep, depthStep, ho]
    rw [hdown, depthRun_append (hu.depth (d + 1)), hu.scan]
    simp [depthRun, closes, depthStep, hc, hne.symm]

theorem Keeps.nested (hp : IsPair opener closer) (hp' : IsPair o e)
    (hu : Keeps opener closer .outside .outside u) :
    Keeps opener closer .outside .outside (o :: (u ++ [e])) := by
  cases hp with
  | braces =>
      cases hp' with
      | braces => exact keeps_own .braces hu
      | brackets =>
          have hclose := hu.append (keeps_char (c := ']') (by decide) (by decide) (by decide))
          exact .cons (keeps_char (by decide) (by decide) (by decide)) hclose
  | brackets =>
      cases hp' with
      | brackets => exact keeps_own .brackets hu
      | braces =>
          have hclose := hu.append (keeps_char (c := '}') (by decide) (by decide) (by decide))
          exact .cons (keeps_char (by decide) (by decide) (by decide)) hclose

@[simp] theorem clean_append : Clean (ps ++ qs) ↔ Clean ps ∧ Clean qs := by
  simp [Clean, or_imp, forall_and]

@[simp] theorem clean_delimiter : Clean (.delimiter c :: ps) ↔ Clean ps := by
  simp [Clean]

@[simp] theorem clean_others {t : Text} :
    Clean (others t) ↔ ∀ c ∈ t, c ∉ marks := by
  simp [Clean, others]

@[simp] theorem clean_nil : Clean [] := nofun

variable (hp : IsPair opener closer)

include hp

theorem keeps_clean {t : Text} (h : ∀ c ∈ t, c ∉ marks) :
    Keeps opener closer .outside .outside t := by
  induction t with
  | nil => exact keeps_nil .outside
  | cons c t ih =>
      obtain ⟨hc, ht⟩ := List.forall_mem_cons.mp h
      have hne : ∀ x ∈ marks, c ≠ x := fun x hx he => hc (he ▸ hx)
      exact (keeps_char (hne _ (by decide)) (hne _ hp.mem.1) (hne _ hp.mem.2)).cons (ih ht)

theorem keeps_quotedPieces {q : Char} {inner : Text} (h : encloses q false inner = true)
    (hc : Clean (quotedPieces q inner h)) :
    Keeps opener closer .outside .outside (textOf (quotedPieces q inner h)) := by
  rw [textOf_quotedPieces]
  by_cases hq : q = '"'
  · subst hq
    exact keeps_string h
  · rw [quotedPieces, dif_neg hq, clean_others] at hc
    exact keeps_clean hp hc

theorem WordPieces.keeps {d d' : Nat} (h : WordPieces d ps d') (hc : Clean ps) :
    Keeps opener closer .outside .outside (textOf ps) := by
  induction h with
  | nil => exact keeps_nil .outside
  | @other c ps _ _ _ _ _ ih =>
      have hcons : Clean (others [c] ++ ps) := hc
      rw [clean_append, clean_others] at hcons
      exact (keeps_clean hp hcons.1).append (ih hcons.2)
  | quoted _ h _ ih =>
      obtain ⟨hq, hps⟩ := clean_append.mp hc
      rw [textOf_append]
      exact (keeps_quotedPieces hp h hq).append (ih hps)

theorem KeyPieces.keeps {k : Text} (h : KeyPieces k ps) (hc : Clean ps) :
    Keeps opener closer .outside .outside (textOf ps) := by
  cases h with
  | bare =>
      rw [textOf_others]
      exact keeps_clean hp (clean_others.mp hc)
  | quoted _ h => exact keeps_quotedPieces hp h hc

theorem ScalarPieces.keeps {v : Scalar} (h : ScalarPieces v ps) (hc : Clean ps) :
    Keeps opener closer .outside .outside (textOf ps) := by
  cases h with
  | str _ h => exact keeps_quotedPieces hp h hc
  | regex =>
      rw [textOf_others]
      exact keeps_clean hp (clean_others.mp hc)
  | word h => exact h.keeps hp hc

omit hp

/-- Values keep the depth; members and items do so up to the delimiter that closes them. -/
def Level (opener closer : Char) : Part → Text → Prop
  | .value _, w => Keeps opener closer .outside .outside w
  | .members _, w => ∃ u, w = u ++ ['}'] ∧ Keeps opener closer .outside .outside u
  | .items _, w => ∃ u, w = u ++ [']'] ∧ Keeps opener closer .outside .outside u

include hp

theorem Pieces.level {p : Part} (h : Pieces p ps) (hclean : Clean ps) :
    Level opener closer p (textOf ps) := by
  have hothers {t : Text} (h : ∀ c ∈ t, c ∉ marks) : Keeps opener closer .outside .outside t :=
    keeps_clean hp h
  have hcolon := hothers (List.forall_mem_singleton.mpr (show ':' ∉ marks by decide))
  have hcomma := hothers (List.forall_mem_singleton.mpr (show ',' ∉ marks by decide))
  induction h with
  | scalar h => exact h.keeps hp hclean
  | emptyObject =>
      simp only [clean_delimiter, clean_append, clean_others, clean_nil] at hclean
      have hkeeps := (hothers hclean.1).nested hp .braces
      rw [textOf_delimiter, textOf_append, textOf_others]
      exact hkeeps
  | object _ ih =>
      obtain ⟨u, hu, hkeeps⟩ := ih (clean_delimiter.mp hclean)
      rw [textOf_delimiter, hu]
      exact hkeeps.nested hp .braces
  | emptyArray =>
      simp only [clean_delimiter, clean_append, clean_others, clean_nil] at hclean
      have hkeeps := (hothers hclean.1).nested hp .brackets
      rw [textOf_delimiter, textOf_append, textOf_others]
      exact hkeeps
  | array _ ih =>
      obtain ⟨u, hu, hkeeps⟩ := ih (clean_delimiter.mp hclean)
      rw [textOf_delimiter, hu]
      exact hkeeps.nested hp .brackets
  | lastMember _ hk _ _ _ _ ih =>
      simp only [clean_delimiter, clean_append, clean_others, clean_nil] at hclean
      obtain ⟨ha, hks, hb, hc, hv, hd, -⟩ := hclean
      have hvalue := (hothers hc).append ((ih hv).append (hothers hd))
      have hkeeps := (hothers ha).append ((hk.keeps hp hks).append
        ((hothers hb).append (hcolon.cons hvalue)))
      exact ⟨_, by simp, hkeeps⟩
  | member _ hk _ _ _ _ _ ih ihs =>
      simp only [clean_delimiter, clean_append, clean_others] at hclean
      obtain ⟨ha, hks, hb, hc, hv, hd, hms⟩ := hclean
      obtain ⟨u, hu, hrest⟩ := ihs hms
      have hvalue := (hothers hc).append ((ih hv).append ((hothers hd).append (hcomma.cons hrest)))
      have hkeeps := (hothers ha).append ((hk.keeps hp hks).append
        ((hothers hb).append (hcolon.cons hvalue)))
      exact ⟨_, by simp [hu], hkeeps⟩
  | lastItem _ _ _ ih =>
      simp only [clean_delimiter, clean_append, clean_others, clean_nil] at hclean
      obtain ⟨hc, hv, hd, -⟩ := hclean
      exact ⟨_, by simp, (hothers hc).append ((ih hv).append (hothers hd))⟩
  | item _ _ _ _ ih ihs =>
      simp only [clean_delimiter, clean_append, clean_others] at hclean
      obtain ⟨hc, hv, hd, hvs⟩ := hclean
      obtain ⟨u, hu, hrest⟩ := ihs hvs
      have hkeeps := (hothers hc).append ((ih hv).append
        ((hothers hd).append (hcomma.cons hrest)))
      exact ⟨_, by simp [hu], hkeeps⟩

theorem closeFrom_keeps (hu : Keeps opener closer .outside .outside u) (t : Text) :
    closeFrom opener closer .outside 0 (opener :: (u ++ [closer]) ++ t) =
      some (opener :: (u ++ [closer]), t) := by
  obtain ⟨ho, hc, hne⟩ := hp.ne
  have hopen : closes opener closer .outside 0 opener = false := by simp [closes]
  have hclose : closes opener closer .outside 1 closer = true := by simp [closes, hc, hne.symm]
  have hinner := closeFrom_of_open (hu.depth 0) (closer :: t)
  rw [hu.scan, closeFrom_here hclose] at hinner
  rw [List.cons_append, List.append_assoc, List.singleton_append]
  apply closeFrom_later (by rw [hopen]; decide)
  have hstep : scanStep .outside opener = .outside ∧
      depthStep opener closer .outside 0 opener = 1 := by simp [scanStep, depthStep, ho]
  rw [hstep.1, hstep.2]
  exact hinner

omit hp

theorem Pieces.enclosed {v : Value} (h : Pieces (.value v) ps) (hv : ∀ s, v ≠ .scalar s)
    (hclean : Clean ps) :
    ∃ opener closer u, IsPair opener closer ∧ textOf ps = opener :: (u ++ [closer]) ∧
      Keeps opener closer .outside .outside u := by
  cases h with
  | scalar => exact absurd rfl (hv _)
  | @emptyObject b =>
      simp only [clean_delimiter, clean_append, clean_others] at hclean
      exact ⟨_, _, b, .braces, by simp, keeps_clean .braces hclean.1⟩
  | object h =>
      obtain ⟨u, hu, hkeeps⟩ := h.level .braces (clean_delimiter.mp hclean)
      exact ⟨_, _, u, .braces, by rw [textOf_delimiter, hu], hkeeps⟩
  | @emptyArray b =>
      simp only [clean_delimiter, clean_append, clean_others] at hclean
      exact ⟨_, _, b, .brackets, by simp, keeps_clean .brackets hclean.1⟩
  | array h =>
      obtain ⟨u, hu, hkeeps⟩ := h.level .brackets (clean_delimiter.mp hclean)
      exact ⟨_, _, u, .brackets, by rw [textOf_delimiter, hu], hkeeps⟩

theorem balanced?_pieces {v : Value} (h : Pieces (.value v) ps) (hv : ∀ s, v ≠ .scalar s)
    (hclean : Clean ps) (t : Text) : balanced? (textOf ps ++ t) = some (textOf ps, t) := by
  obtain ⟨opener, closer, u, hp, hu, hkeeps⟩ := h.enclosed hv hclean
  have hcut := closeFrom_keeps hp hkeeps t
  rw [hu]
  cases hp with
  | braces => exact hcut
  | brackets => exact hcut

def NoOverlap (k : Text) : Prop := ∀ x, x <+: k → x <:+ k → x = [] ∨ x = k

/-- The key begins nowhere in the text before its end. -/
def NoEarlier (k u : Text) : Prop := ∀ x, x <:+ u → k <+: x → x = []

instance (k : Text) : Decidable (NoOverlap k) :=
  decidable_of_iff (∀ x ∈ k.inits, x <:+ k → x = [] ∨ x = k)
    (by simp only [List.mem_inits, NoOverlap])

instance (k u : Text) : Decidable (NoEarlier k u) :=
  decidable_of_iff (∀ x ∈ u.tails, k <+: x → x = []) (by simp only [List.mem_tails, NoEarlier])

variable {k t : Text}

theorem clear_of_noEarlier (hk : NoOverlap k) (h : NoEarlier k u) (t : Text) :
    Clear k u (k ++ t) := by
  induction u with
  | nil => trivial
  | cons c u ih =>
      refine ⟨?_, ih fun x hx => h x (hx.trans (List.suffix_cons c u))⟩
      rintro ⟨z, hz⟩
      have hnot : ¬k <+: c :: u := fun hb => nomatch h (c :: u) (List.suffix_refl _) hb
      have hsplit : k ++ z = (c :: u) ++ (k ++ t) := hz
      rcases List.append_eq_append_iff.mp hsplit with ⟨b, hb, -⟩ | ⟨b, hb, hrest⟩
      · exact hnot ⟨b, hb.symm⟩
      · have hlength : k.length = u.length + 1 + b.length := by
          rw [hb, List.length_append, List.length_cons]
        have hprefix : b <+: k :=
          List.prefix_of_prefix_length_le ⟨z, hrest.symm⟩ ⟨t, rfl⟩ (by omega)
        rcases hk b hprefix ⟨c :: u, hb.symm⟩ with rfl | rfl
        · exact hnot ⟨[], by rw [hb, List.append_nil, List.append_nil]⟩
        · omega

/-- A document that is read and in which quotes, braces and brackets stand in double-quoted strings
or are delimiters is cut at its end, and a search for a key in front of it finds it. -/
theorem closing_agrees_parse {v : Value} (hopen : t.head? = some '{' ∨ t.head? = some '[')
    (hend : EndsSolid t) (hread : parse t = .ok v) :
    (∃! ps, Pieces (.value v) ps ∧ textOf ps = t) ∧
      ∀ ps, Pieces (.value v) ps → textOf ps = t → Clean ps →
        (∀ s, closing? (t ++ s) 0 = some (byteLength t)) ∧
        ∀ k w p s, NoOverlap k → Blank w → (∀ c, p.getLast? = some c → isNameChar c = false) →
          NoEarlier k p → documentAfter? k (p ++ (k ++ (w ++ (t ++ s)))) = some t := by
  obtain ⟨c, x, rfl, hc⟩ : ∃ c x, t = c :: x ∧ (c = '{' ∨ c = '[') := by
    cases t with
    | nil => simp at hopen
    | cons c x => exact ⟨c, x, rfl, by simpa using hopen⟩
  obtain ⟨w, d, rfl, hd, hw, hv⟩ := parse_opened hc hread
  obtain rfl := EndsSolid.eq_nil (t := c :: w) hend hd
  rw [List.append_nil] at *
  refine ⟨hw.existsUnique_pieces, fun ps hps ht hclean => ?_⟩
  have hcut := balanced?_pieces hps hv hclean
  rw [ht] at hcut
  constructor
  · intro s
    rw [closing?, fromByte?, Option.bind_eq_bind, Option.bind_some, hcut s]
    simp
  · intro k u p s hk hu hlast hp
    apply documentAfter?_clear (clear_of_noEarlier hk hp _) hlast
    rw [dropBlank_append hu, List.cons_append, dropBlank_cons, ← List.cons_append, hcut s]
    rcases hc with rfl | rfl <;> decide

theorem closing_agrees_parse_escaped :
    closing? "\x7ba:[\"\x7d\\\"\x7b\"]\x7d, n".toList 0 = some 12 ∧
      documentAfter? "q: ".toList "find q:  \x7ba:[\"\x7d\\\"\x7b\"]\x7d, n".toList =
        some "\x7ba:[\"\x7d\\\"\x7b\"]\x7d".toList := by
  have ht : "\x7ba:[\"\x7d\\\"\x7b\"]\x7d".toList =
      ['{', 'a', ':', '[', '"', '}', '\\', '"', '{', '"', ']', '}'] := rfl
  have hinner : encloses '"' false "\x7d\\\"\x7b".toList = true := rfl
  have hstr : ScalarPieces (.str "\"\x7d\\\"\x7b\"".toList) [.string _ hinner] := .str rfl hinner
  have harray := Pieces.array (.lastItem blank_nil (.scalar hstr) blank_nil)
  have hkey : IsBareKey ['a'] := isBareKey_of_safe (List.forall_mem_singleton.mpr rfl)
  have hps := Pieces.object
    (.lastMember blank_nil (.bare hkey) blank_nil blank_nil harray blank_nil)
  have hread : parse "\x7ba:[\"\x7d\\\"\x7b\"]\x7d".toList =
      .ok (.object [(['a'], .array [.scalar (.str "\"\x7d\\\"\x7b\"".toList)])]) := by
    rw [ht]
    rfl
  obtain ⟨hclosing, hafter⟩ := (closing_agrees_parse (.inl rfl)
    (endsSolid_concat "\x7ba:[\"\x7d\\\"\x7b\"]".toList rfl) hread).2 _ hps rfl
      (by simp [Clean, others, marks])
  have hfirst : NoOverlap "q: ".toList ∧ NoEarlier "q: ".toList "find ".toList := by decide +kernel
  have hblank : Blank [' '] := List.forall_mem_singleton.mpr rfl
  have hlast : ∀ c, "find ".toList.getLast? = some c → isNameChar c = false := by
    rintro _ ⟨⟩
    rfl
  exact ⟨hclosing ", n".toList,
    hafter "q: ".toList [' '] "find ".toList ", n".toList hfirst.1 hblank hlast hfirst.2⟩

end

end SlowQuery.Payload
