import SlowQuery.Proofs.Canonical
import SlowQuery.Proofs.Slices
import SlowQuery.Run.Ingest

namespace SlowQuery.Shape

open Text Payload

theorem normal_reorderFields {v : Value} (hv : Legible v) :
    Normal (reorderFields (normalizeValues v)) := by
  cases v with
  | object ms =>
      rw [normalizeValues_object, reorderFields_object]
      exact .reorder (normalMember_of_legible hv)
  | array | elided | scalar => exact normal_normalizeValues hv

theorem asRead_reorderFields_ne_scalar {v : Value} (hv : ∀ s, v ≠ .scalar s) (s : Scalar) :
    (reorderFields (normalizeValues v)).asRead ≠ .scalar s := by
  cases v with
  | scalar s => exact absurd rfl (hv s)
  | object | array | elided => exact nofun

theorem written_shape {t c : Text} (ht : Opens t) (h : canonicalize t = .ok c) :
    ∃ v, Written (.value v) c ∧ ∀ s, v ≠ .scalar s := by
  obtain ⟨x, u, rfl, hx⟩ := ht
  obtain ⟨v, hv, rfl⟩ := canonicalize_eq_ok.mp h
  obtain ⟨w, d, -, -, hw, hne⟩ := parse_opened hx hv
  have hwritten := (normal_reorderFields hw.legible).legible.written
  rw [Value.render_asRead] at hwritten
  exact ⟨_, hwritten, asRead_reorderFields_ne_scalar hne⟩

theorem shape_append_inj {t t' c c' s s' : Text} (ht : Opens t) (ht' : Opens t')
    (hc : canonicalize t = .ok c) (hc' : canonicalize t' = .ok c') (h : c ++ s = c' ++ s') :
    c = c' ∧ s = s' := by
  obtain ⟨v, hw, hv⟩ := written_shape ht hc
  obtain ⟨v', hw', hv'⟩ := written_shape ht' hc'
  exact hw.append_inj hw' hv hv' h

end SlowQuery.Shape

namespace SlowQuery.Run

open Text Record Shape

theorem Sample.query_of {line : Text} {r : Line} {x : Sample} (h : Sample.of? line r = some x) :
    ∃ q c, Query.extract? r.operation r.ns r.body (scanType line) = some q ∧
      canonicalize q.filter = .ok c ∧ x.key.filter = c ++ q.stages := by
  obtain ⟨q, hq, h⟩ := Option.bind_eq_some_iff.mp h
  obtain ⟨c, hc, h⟩ := Option.bind_eq_some_iff.mp h
  obtain rfl := Option.some.inj h
  refine ⟨q, c, hq, ?_, rfl⟩
  cases hs : canonicalize q.filter with
  | error => rw [hs] at hc; cases hc
  | ok s => rw [hs] at hc; exact congrArg _ (Option.some.inj hc)

/-- The shape of the filter and the stages of a query are known from the text under which it is
counted, so queries that differ in one of them are never counted together. -/
theorem key_text_unambiguous :
    (∀ {operation ns body scan operation' ns' body' scan' : Text} {q q' : Query} {c c' : Text},
      Query.extract? operation ns body scan = some q →
      Query.extract? operation' ns' body' scan' = some q' →
      canonicalize q.filter = .ok c → canonicalize q'.filter = .ok c' →
      c ++ q.stages = c' ++ q'.stages → c = c' ∧ q.stages = q'.stages) ∧
    ∀ {line line' : Text} {r r' : Line} {x x' : Sample},
      Sample.of? line r = some x → Sample.of? line' r' = some x' → x.key.filter = x'.key.filter →
      ∃ q q' c, Query.extract? r.operation r.ns r.body (scanType line) = some q ∧
        Query.extract? r'.operation r'.ns r'.body (scanType line') = some q' ∧
        canonicalize q.filter = .ok c ∧ canonicalize q'.filter = .ok c ∧ q.stages = q'.stages := by
  constructor
  · intro _ _ _ _ _ _ _ _ q q' c c' hq hq' hc hc' h
    exact shape_append_inj (Query.extract?_opens hq) (Query.extract?_opens hq') hc hc' h
  · intro line line' r r' x x' hx hx' hkey
    obtain ⟨q, c, hq, hc, hxc⟩ := Sample.query_of hx
    obtain ⟨q', c', hq', hc', hxc'⟩ := Sample.query_of hx'
    rw [hxc, hxc'] at hkey
    obtain ⟨rfl, hs⟩ := shape_append_inj (Query.extract?_opens hq) (Query.extract?_opens hq') hc hc' hkey
    exact ⟨q, q', c, hq, hq', hc, hc', hs⟩

theorem key_text_of_sorted_finds :
    let find (value : Text) : Line :=
      { timestamp := [], component := [], operation := "find".toList, ns := "db.c".toList
        millis := 5
        body := "\x7b filter: \x7b a: ".toList ++ (value ++ " \x7d, sort: \x7b b: 1 \x7d \x7d".toList) }
    let query (value : Text) (q : Query) :=
      Query.extract? "find".toList "db.c".toList (find value).body [] = some q
    ∃ q q' c c', query ['5'] q ∧ query "'x'".toList q' ∧ canonicalize q.filter = .ok c ∧
      canonicalize q'.filter = .ok c' ∧ c = c' ∧ q.stages = q'.stages := by
  intro find query
  have hsome : ∀ value ∈ [['5'], "'x'".toList], (Sample.of? [] (find value)).isSome = true := by
    decide +kernel
  obtain ⟨x, hx⟩ := Option.isSome_iff_exists.mp (hsome ['5'] (by decide))
  obtain ⟨x', hx'⟩ := Option.isSome_iff_exists.mp (hsome "'x'".toList (by decide))
  have hkey : (Sample.of? [] (find ['5'])).map (·.key.filter) =
      (Sample.of? [] (find "'x'".toList)).map (·.key.filter) := by
    decide +kernel
  rw [hx, hx'] at hkey
  obtain ⟨q, q', c, hq, hq', hc, hc', hs⟩ := key_text_unambiguous.2 hx hx' (Option.some.inj hkey)
  have hboth := key_text_unambiguous.1 hq hq' hc hc' (by rw [hs])
  exact ⟨q, q', c, c, hq, hq', hc, hc', hboth⟩

end SlowQuery.Run
