import SlowQuery.Proofs.Unwrapping
import Mathlib.Data.Option.Basic

namespace SlowQuery.Payload

open Text

def Opens (t : Text) : Prop := ∃ c r, t = c :: r ∧ (c = '{' ∨ c = '[')

theorem opens_brace (t : Text) : Opens ('{' :: t) := ⟨'{', t, rfl, .inl rfl⟩

variable {key t u d r : Text} {opener closer c : Char} {s : Scan} {n : Nat}

theorem closeFrom_head (h : closeFrom opener closer s n (c :: t) = some (d, r)) :
    ∃ u, d = c :: u := by
  obtain ⟨ht, u, rfl⟩ := closeFrom_sound h
  cases u with
  | nil => exact ⟨[], by rw [(List.cons.inj ht).1]; rfl⟩
  | cons x u => exact ⟨u ++ [closer], by rw [(List.cons.inj ht).1]; rfl⟩

theorem closeFrom_self (h : closeFrom opener closer s n t = some (d, r)) :
    closeFrom opener closer s n d = some (d, []) := by
  obtain ⟨rfl, u, hu⟩ := closeFrom_sound h
  cases hd : closeFrom opener closer s n d with
  | none =>
      obtain ⟨n', hopen⟩ := closeFrom_eq_none_iff.mp hd
      rw [closeFrom_of_open hopen] at h
      obtain ⟨⟨l, x⟩, hl, he⟩ := Option.map_eq_some_iff.mp h
      obtain ⟨-, v, rfl⟩ := closeFrom_sound hl
      have hlength := congrArg List.length (Prod.mk.inj he).1
      simp at hlength
  | some x =>
      obtain ⟨l, x⟩ := x
      rw [closeFrom_append hd] at h
      obtain ⟨rfl, hr⟩ := Prod.mk.inj (Option.some.inj h)
      rw [List.append_left_eq_self.mp hr]

theorem balanced?_opens (h : balanced? t = some (d, r)) : Opens d ∧ balanced? d = some (d, []) := by
  unfold balanced? at h
  split at h
  · have hself := closeFrom_self h
    obtain ⟨u, rfl⟩ := closeFrom_head h
    exact ⟨⟨_, u, rfl, .inl rfl⟩, hself⟩
  · have hself := closeFrom_self h
    obtain ⟨u, rfl⟩ := closeFrom_head h
    exact ⟨⟨_, u, rfl, .inr rfl⟩, hself⟩
  · cases h

/-- A part of a text that begins as a document. -/
structure Slice (d t : Text) : Prop where
  opens : Opens d
  inside : d <:+: t

theorem Slice.mono (h : Slice d t) (hu : t <:+: u) : Slice d u := ⟨h.opens, h.inside.trans hu⟩

theorem slice_of_balanced (h : balanced? (dropBlank t) = some (d, r)) : Slice d t where
  opens := (balanced?_opens h).1
  inside := by
    have hprefix : d <+: dropBlank t := ⟨r, (balanced?_sound h).symm⟩
    exact hprefix.isInfix.trans (List.dropWhile_suffix _).isInfix

theorem documentAfterFrom_slice {skip : Nat} {prev : Option Char}
    (h : documentAfterFrom key skip prev t = some d) : Slice d t := by
  induction t generalizing skip prev with
  | nil => cases skip <;> cases h
  | cons c t ih =>
      have later {skip prev} (h : documentAfterFrom key skip prev t = some d) : Slice d (c :: t) :=
        (ih h).mono (List.suffix_cons c t).isInfix
      cases skip with
      | succ k => exact later h
      | zero =>
          rw [documentAfterFrom] at h
          split at h
          · dsimp only at h
            split at h
            next hfound =>
              obtain rfl := Option.some.inj h
              split at hfound
              · cases hfound
              · exact (slice_of_balanced hfound).mono (List.drop_suffix _ _).isInfix
            next => exact later h
          · exact later h

theorem documentAfter?_slice (h : documentAfter? key t = some d) : Slice d t :=
  documentAfterFrom_slice h

theorem fromByte?_append (u t : Text) : fromByte? (byteLength u) (u ++ t) = some t := by
  induction u with
  | nil => cases t <;> rfl
  | cons c u ih =>
      have hpos := c.utf8Size_pos
      have hlength : byteLength (c :: u) = c.utf8Size + byteLength u := rfl
      obtain ⟨k, hk⟩ : ∃ k, byteLength (c :: u) = k + 1 := Nat.exists_eq_add_one.mpr (by omega)
      have hrest : k + 1 - c.utf8Size = byteLength u := by omega
      rw [List.cons_append, hk, fromByte?, if_pos (by omega), hrest, ih]

theorem leadingPayload_append_of_closing (hu : '{' ∉ u)
    (h : (closing? (u ++ '{' :: r) (byteLength u)).isSome = true) (t : Text) :
    leadingPayload (leadingPayload (u ++ '{' :: r) ++ t) = leadingPayload (u ++ '{' :: r) := by
  rw [closing?, fromByte?_append, Option.bind_eq_bind, Option.bind_some] at h
  obtain ⟨n, hn⟩ := Option.isSome_iff_exists.mp h
  obtain ⟨⟨d, rest⟩, hd, -⟩ := Option.bind_eq_some_iff.mp hn
  obtain ⟨v, rfl⟩ := closeFrom_head hd
  have hself := (balanced?_opens hd).2
  rw [balanced?_sound hd, leadingPayload_append hu hself, List.append_assoc,
    leadingPayload_append hu hself]

end SlowQuery.Payload

namespace SlowQuery.Record

open Text Payload

/-- A filter that was found in a text, or the empty document that stands for a missing one. -/
def Taken (filter t : Text) : Prop :=
  filter = "\x7b \x7d".toList ∨ filter = "\x7b\x7d".toList ∨ Slice filter t

variable {payload body body' scan filter stages ns operation t u r : Text} {q : Query}

theorem Taken.opens (h : Taken filter t) : Opens filter := by
  rcases h with rfl | rfl | h
  · exact opens_brace _
  · exact opens_brace _
  · exact h.opens

theorem Taken.mono (h : Taken filter t) (hu : t <:+: u) : Taken filter u :=
  h.imp_right (·.imp_right (·.mono hu))

theorem findFilter?_taken (h : findFilter? payload = some (filter, stages)) :
    Taken filter payload := by
  have hfilter :
      Taken ((documentAfter? "filter: ".toList payload).getD "\x7b \x7d".toList) payload := by
    cases hd : documentAfter? "filter: ".toList payload with
    | none => exact .inl rfl
    | some d => exact .inr (.inr (documentAfter?_slice hd))
  rw [findFilter?] at h
  split at h
  · rwa [← (Prod.mk.inj (Option.some.inj h)).1]
  · split at h
    · rwa [← (Prod.mk.inj (Option.some.inj h)).1]
    · cases h

theorem writeFilter?_slice (h : writeFilter? payload = some filter) : Slice filter payload := by
  rw [writeFilter?] at h
  rcases (Option.orElse_eq_some ..).mp h with h | ⟨-, h⟩
  · split at h <;> exact documentAfter?_slice h
  · obtain ⟨t, ht, rfl⟩ := Option.map_eq_some_iff.mp h
    obtain ⟨l, rfl⟩ := after?_sound (by decide) ht
    exact ⟨opens_brace t, (List.suffix_append l _).isInfix⟩

theorem pipelineFilter?_taken (h : pipelineFilter? payload scan = some (filter, stages)) :
    Taken filter payload := by
  rw [pipelineFilter?] at h
  split at h
  next first hfirst =>
    obtain ⟨rfl, -⟩ := Prod.mk.inj (Option.some.inj h)
    rcases (Option.orElse_eq_some ..).mp hfirst with hd | ⟨-, hd⟩ <;>
      exact .inr (.inr (documentAfter?_slice hd))
  next =>
    split at h
    · obtain ⟨rfl, -⟩ := Prod.mk.inj (Option.some.inj h)
      exact .inr (.inl rfl)
    · cases h

theorem continuedFilter?_taken (h : continuedFilter? body scan = some (filter, stages)) :
    Taken filter body := by
  rw [continuedFilter?] at h
  obtain ⟨origin, horigin, h⟩ := Option.bind_eq_some_iff.mp h
  have hin := (documentAfter?_slice horigin).inside
  split at h
  · exact (pipelineFilter?_taken h).mono hin
  · split at h
    · exact (findFilter?_taken h).mono hin
    · cases h

def Verb.continues (verb : Verb) : Prop := verb = .getMore ∨ verb = .getmore

theorem filterOf?_taken {verb : Verb}
    (h : filterOf? verb payload body scan = some (filter, stages)) :
    Taken filter payload ∨ verb.continues ∧ Taken filter body := by
  have alone {o : Option Text} (ho : ∀ d, o = some d → Slice d payload)
      (h : o.map (·, ([] : Text)) = some (filter, stages)) :
      Taken filter payload ∨ verb.continues ∧ Taken filter body := by
    obtain ⟨d, hd, he⟩ := Option.map_eq_some_iff.mp h
    obtain ⟨rfl, -⟩ := Prod.mk.inj he
    exact .inl (.inr (.inr (ho d hd)))
  cases verb with
  | find => exact .inl (findFilter?_taken h)
  | count | distinct => exact alone (fun _ => documentAfter?_slice) h
  | delete =>
      rw [filterOf?] at h
      split at h
      · cases h
      · exact alone (fun _ => writeFilter?_slice) h
  | update | remove | findAndModify => exact alone (fun _ => writeFilter?_slice) h
  | aggregate => exact .inl (pipelineFilter?_taken h)
  | getmore =>
      rw [filterOf?] at h
      split at h
      · exact .inl (pipelineFilter?_taken h)
      · exact .inr ⟨.inr rfl, continuedFilter?_taken h⟩
  | getMore => exact .inr ⟨.inl rfl, continuedFilter?_taken h⟩

namespace Query

theorem command?_inside {name d : Text} (h : command? operation payload = some (name, d)) :
    d <:+: payload := by
  rw [command?] at h
  split at h
  · exact (unwrapCommand?_sound h).2.isInfix
  · rw [(Prod.mk.inj (Option.some.inj h)).2]

theorem filterOf?_of_extract? (h : extract? operation ns body scan = some q) :
    ∃ name d, command? operation (leadingPayload body) = some (name, d) ∧
      Verb.ofName? name = some q.verb ∧
      filterOf? q.verb d body scan = some (q.filter, q.stages) := by
  rw [extract?_eq] at h
  split at h
  · cases h
  · obtain ⟨⟨name, d⟩, hc, h⟩ := Option.bind_eq_some_iff.mp h
    obtain ⟨verb, hverb, h⟩ := Option.bind_eq_some_iff.mp h
    obtain ⟨⟨filter, stages⟩, hf, rfl⟩ := Option.map_eq_some_iff.mp h
    exact ⟨name, d, hc, hverb, hf⟩

theorem taken_of_extract? (h : extract? operation ns body scan = some q) :
    Taken q.filter (leadingPayload body) ∨ q.verb.continues ∧ Taken q.filter body := by
  obtain ⟨name, d, hc, -, hf⟩ := filterOf?_of_extract? h
  exact (filterOf?_taken hf).imp_left (·.mono (command?_inside hc))

theorem extract?_opens (h : extract? operation ns body scan = some q) : Opens q.filter := by
  rcases taken_of_extract? h with ht | ⟨-, ht⟩ <;> exact ht.opens

section

variable (hname : ∀ name d, command? operation (leadingPayload body) = some (name, d) →
  name ≠ "getMore".toList ∧ name ≠ "getmore".toList)

include hname

theorem not_continues {name d : Text} {verb : Verb}
    (hc : command? operation (leadingPayload body) = some (name, d))
    (hv : Verb.ofName? name = some verb) : ¬verb.continues := by
  obtain ⟨hnew, hold⟩ := hname name d hc
  rw [← Verb.name_of_ofName? hv] at hnew hold
  rintro (rfl | rfl)
  · exact hnew rfl
  · exact hold rfl

/-- Two bodies with one document hold one query if it does not continue another one. -/
theorem extract?_congr (hp : leadingPayload body' = leadingPayload body) (ns scan : Text) :
    extract? operation ns body' scan = extract? operation ns body scan := by
  rw [extract?_eq, extract?_eq, hp]
  cases hc : command? operation (leadingPayload body) with
  | none => rfl
  | some c =>
      rw [Option.bind_some, Option.bind_some]
      cases hv : Verb.ofName? c.1 with
      | none => rfl
      | some verb =>
          rw [Option.bind_some, Option.bind_some,
            of?_congr fun hcontinues => absurd hcontinues (not_continues hname hc hv)]

theorem taken_of_payload (h : extract? operation ns body scan = some q) :
    Taken q.filter (leadingPayload body) := by
  obtain ⟨name, d, hc, hv, -⟩ := filterOf?_of_extract? h
  rcases taken_of_extract? h with ht | ⟨hcontinues, -⟩
  · exact ht
  · exact absurd hcontinues (not_continues hname hc hv)

end

/-- What follows the document of an operation that is no continuation does not change the query, of
which the filter is a part of the document. The filter of any operation is a part of the body. -/
theorem extract?_before_tail (hu : '{' ∉ u) (hbody : body = u ++ '{' :: r)
    (hclosed : (closing? body (byteLength u)).isSome = true) (operation ns scan : Text) :
    let payload := leadingPayload body
    (∀ t q, extract? operation ns (payload ++ t) scan = some q → Taken q.filter (payload ++ t)) ∧
    ((∀ name d, command? operation payload = some (name, d) →
        name ≠ "getMore".toList ∧ name ≠ "getmore".toList) →
      ∀ t t', extract? operation ns (payload ++ t) scan = extract? operation ns (payload ++ t') scan ∧
        ∀ q, extract? operation ns (payload ++ t) scan = some q → Taken q.filter payload) := by
  intro payload
  have hpayload : ∀ t, leadingPayload (payload ++ t) = payload := by
    subst hbody
    exact leadingPayload_append_of_closing hu hclosed
  constructor
  · intro t q hq
    have htaken := taken_of_extract? hq
    rw [hpayload] at htaken
    rcases htaken with ht | ⟨-, ht⟩
    · exact ht.mono (List.prefix_append payload t).isInfix
    · exact ht
  · intro hname t t'
    have hsame : ∀ x, extract? operation ns (payload ++ x) scan =
        extract? operation ns body scan := fun x => extract?_congr hname (hpayload x) ns scan
    refine ⟨by rw [hsame, hsame], fun q hq => ?_⟩
    rw [hsame] at hq
    exact taken_of_payload hname hq

theorem extract?_before_tail_wrapped :
    let u := "find ".toList
    let r := " find: 'c', filter: \x7b a: 1 \x7d \x7d planSummary: IDHACK".toList
    let body := u ++ '{' :: r
    let payload := leadingPayload body
    '{' ∉ u ∧ (closing? body (byteLength u)).isSome = true ∧
      (∀ name d, command? "command".toList payload = some (name, d) →
        name ≠ "getMore".toList ∧ name ≠ "getmore".toList) ∧
      extract? "command".toList "db.c".toList (payload ++ ", sort: \x7b b: 1 \x7d".toList) [] =
        extract? "command".toList "db.c".toList (payload ++ []) [] := by
  intro u r body payload
  have hu : '{' ∉ u := by decide
  have hclosed : (closing? body (byteLength u)).isSome = true := by decide
  have hcommand : (command? "command".toList payload).map (·.1) = some "find".toList := by decide
  have hname : ∀ name d, command? "command".toList payload = some (name, d) →
      name ≠ "getMore".toList ∧ name ≠ "getmore".toList := by
    intro name d h
    rw [h, Option.map_some] at hcommand
    obtain rfl : name = "find".toList := Option.some.inj hcommand
    decide
  have h := (extract?_before_tail hu rfl hclosed "command".toList "db.c".toList []).2 hname
  exact ⟨hu, hclosed, hname, (h _ _).1⟩

end Query

end SlowQuery.Record
