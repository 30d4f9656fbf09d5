import SlowQuery.Artifact
import SlowQuery.Proofs.Utf8
import Mathlib.Algebra.Group.Nat.Defs

namespace SlowQuery

namespace Bytes

variable {bs front rest : Bytes} {w n : Nat}

theorem length_ofNat (w n : Nat) : (ofNat w n).length = w := by
  induction w generalizing n with
  | zero => rfl
  | succ w ih => rw [ofNat, List.length_cons, ih]

theorem toNat_ofNat (h : n < 256 ^ w) : toNat (ofNat w n) = n := by
  induction w generalizing n with
  | zero =>
      rw [Nat.pow_zero] at h
      rw [ofNat, toNat]
      omega
  | succ w ih =>
      rw [Nat.pow_succ, Nat.mul_comm] at h
      have hhigh : n / 256 < 256 ^ w := Nat.div_lt_of_lt_mul h
      have hlow : (UInt8.ofNat (n % 256)).toNat = n % 256 := Text.Utf8.toNat_ofNat (by omega)
      rw [ofNat, toNat, ih hhigh, hlow]
      omega

theorem ofNat_toNat (h : bs.length = w) : ofNat w (toNat bs) = bs := by
  induction bs generalizing w with
  | nil =>
      subst h
      rfl
  | cons b bs ih =>
      subst h
      have hb := b.toNat_lt
      have hlow : (b.toNat + 256 * toNat bs) % 256 = b.toNat := by
        omega
      have hhigh : (b.toNat + 256 * toNat bs) / 256 = toNat bs := by
        omega
      rw [List.length_cons, toNat, ofNat, hlow, hhigh, ih rfl, UInt8.ofNat_toNat]

theorem toNat_lt (bs : Bytes) : toNat bs < 256 ^ bs.length := by
  induction bs with
  | nil => exact Nat.one_pos
  | cons b bs ih =>
      have hb := b.toNat_lt
      rw [toNat, List.length_cons, Nat.pow_succ]
      omega

theorem split?_eq_some :
    split? n bs = some (front, rest) ↔ bs = front ++ rest ∧ front.length = n := by
  simp only [split?, List.splitAt_eq, Option.ite_none_right_eq_some, Option.some.injEq,
    Prod.mk.injEq]
  constructor
  · rintro ⟨hlen, rfl, rfl⟩
    exact ⟨(List.take_append_drop n bs).symm, hlen⟩
  · rintro ⟨rfl, rfl⟩
    simp

end Bytes

namespace Artifact

open Text Run

variable {α β : Type}

theorem length_numberBytes (n : UInt64) : (numberBytes n).length = 8 := Bytes.length_ofNat 8 n.toNat

theorem numberBytes_toNat {bs : Bytes} (h : bs.length = 8) :
    numberBytes (UInt64.ofNat (Bytes.toNat bs)) = bs := by
  have hlt : Bytes.toNat bs < 256 ^ 8 := by
    rw [← h]
    exact Bytes.toNat_lt bs
  rw [numberBytes, UInt64.toNat_ofNat_of_lt' hlt, Bytes.ofNat_toNat h]

theorem toNat_numberBytes (n : UInt64) : UInt64.ofNat (Bytes.toNat (numberBytes n)) = n := by
  rw [numberBytes, Bytes.toNat_ofNat n.toNat_lt, UInt64.ofNat_toNat]

/-- What is read is what was written for a value that fits, in front of what is left over. -/
def Exact (item : α → Bytes) (read : Reader α) (fits : α → Prop) : Prop :=
  ∀ bs a rest, read bs = .ok (a, rest) ↔ fits a ∧ bs = item a ++ rest

section

variable {item : α → Bytes} {read : Reader α} {fits : α → Prop}

theorem Exact.bind (h : Exact item read fits) {bs : Bytes} {next : α × Bytes → Except Corruption β}
    {b : β} :
    read bs >>= next = .ok b ↔
      ∃ a rest, (fits a ∧ bs = item a ++ rest) ∧ next (a, rest) = .ok b := by
  rw [bind_eq_ok]
  constructor
  · rintro ⟨⟨a, rest⟩, hread, hnext⟩
    exact ⟨a, rest, (h bs a rest).mp hread, hnext⟩
  · rintro ⟨a, rest, hfits, hnext⟩
    exact ⟨(a, rest), (h bs a rest).mpr hfits, hnext⟩

theorem exact_number : Exact numberBytes readNumber fun _ => True := by
  intro bs n rest
  rw [readNumber]
  constructor
  · intro h
    split at h
    next => cases h
    next front rest hs =>
        cases h
        obtain ⟨rfl, hlen⟩ := Bytes.split?_eq_some.mp hs
        exact ⟨trivial, by rw [numberBytes_toNat hlen]⟩
  · rintro ⟨-, rfl⟩
    rw [Bytes.split?_eq_some.mpr ⟨rfl, length_numberBytes n⟩]
    dsimp only
    rw [toNat_numberBytes]

def TextFits (t : Text) : Prop := (Utf8.encode t).length < 2 ^ 64
deriving Decidable

theorem exact_text : Exact textBytes readText TextFits := by
  intro bs t rest
  simp only [readText, exact_number.bind, true_and]
  constructor
  · rintro ⟨n, more, rfl, h⟩
    split at h
    next => cases h
    next front left hs =>
        obtain ⟨rfl, hlen⟩ := Bytes.split?_eq_some.mp hs
        split at h
        next u hd =>
            cases h
            rw [Utf8.decode_eq_ok_iff] at hd
            subst hd
            refine ⟨?_, ?_⟩
            · rw [TextFits, hlen]
              exact n.toNat_lt
            · rw [textBytes, hlen, UInt64.ofNat_toNat, List.append_assoc]
        next => cases h
  · rintro ⟨hfits, rfl⟩
    have hlen : (UInt64.ofNat (Utf8.encode t).length).toNat = (Utf8.encode t).length :=
      UInt64.toNat_ofNat_of_lt' hfits
    refine ⟨_, Utf8.encode t ++ rest, by rw [textBytes, List.append_assoc], ?_⟩
    rw [Bytes.split?_eq_some.mpr ⟨rfl, hlen.symm⟩]
    dsimp only
    rw [Utf8.decode_eq_ok_iff.mpr rfl]

def OptionFits (fits : α → Prop) (o : Option α) : Prop := ∀ a ∈ o, fits a

instance [DecidablePred fits] (o : Option α) : Decidable (OptionFits fits o) :=
  inferInstanceAs (Decidable (∀ a ∈ o, fits a))

theorem exact_option (h : Exact item read fits) :
    Exact (optionBytes item) (readOption read) (OptionFits fits) := by
  intro bs o rest
  constructor
  · intro hread
    rw [readOption.eq_def] at hread
    split at hread
    next => cases hread
    next =>
        cases hread
        exact ⟨nofun, rfl⟩
    next =>
        obtain ⟨a, more, ⟨ha, rfl⟩, he⟩ := h.bind.mp hread
        cases he
        exact ⟨fun _ hb => Option.mem_some_iff.mp hb ▸ ha, rfl⟩
    next => cases hread
  · rintro ⟨hfits, rfl⟩
    cases o with
    | none => rfl
    | some a => exact h.bind.mpr ⟨a, rest, ⟨hfits a rfl, rfl⟩, rfl⟩

def ListFits (fits : α → Prop) (as : List α) : Prop := as.length < 2 ^ 64 ∧ ∀ a ∈ as, fits a

instance [DecidablePred fits] (as : List α) : Decidable (ListFits fits as) :=
  inferInstanceAs (Decidable (as.length < 2 ^ 64 ∧ ∀ a ∈ as, fits a))

theorem readItems_eq_ok (h : Exact item read fits) {n : Nat} {bs rest : Bytes} {as : List α} :
    readItems read n bs = .ok (as, rest) ↔
      as.length = n ∧ (∀ a ∈ as, fits a) ∧ bs = as.flatMap item ++ rest := by
  induction n generalizing bs as with
  | zero =>
      rw [readItems, List.length_eq_zero_iff]
      constructor
      · intro he
        cases he
        exact ⟨rfl, by simp, rfl⟩
      · rintro ⟨rfl, -, rfl⟩
        rfl
  | succ n ih =>
      simp only [readItems, h.bind, bind_eq_ok, Prod.exists]
      constructor
      · rintro ⟨a, more, ⟨ha, rfl⟩, as', left, hrest, he⟩
        cases he
        obtain ⟨rfl, has, rfl⟩ := ih.mp hrest
        exact ⟨rfl, List.forall_mem_cons.mpr ⟨ha, has⟩, by simp⟩
      · rintro ⟨hlen, hfits, rfl⟩
        obtain ⟨a, as, rfl⟩ := List.exists_cons_of_length_eq_add_one hlen
        obtain ⟨ha, has⟩ := List.forall_mem_cons.mp hfits
        exact ⟨a, _, ⟨ha, by rw [List.flatMap_cons, List.append_assoc]⟩, as, rest,
          ih.mpr ⟨Nat.succ.inj hlen, has, rfl⟩, rfl⟩

theorem exact_list (h : Exact item read fits) :
    Exact (listBytes item) (readList read) (ListFits fits) := by
  intro bs as rest
  simp only [readList, exact_number.bind, true_and, readItems_eq_ok h]
  constructor
  · rintro ⟨n, more, rfl, hlen, hfits, rfl⟩
    refine ⟨⟨hlen ▸ n.toNat_lt, hfits⟩, ?_⟩
    rw [listBytes, hlen, UInt64.ofNat_toNat, List.append_assoc]
  · rintro ⟨⟨hlen, hfits⟩, rfl⟩
    refine ⟨_, _, by rw [listBytes, List.append_assoc], ?_, hfits, rfl⟩
    rw [UInt64.toNat_ofNat_of_lt' hlen]

end

def StatsFit (s : Shape.Stats) : Prop :=
  TextFits s.key.operation ∧ TextFits s.key.filter ∧ TextFits s.key.scan ∧ TextFits s.ns ∧
    TextFits s.index
deriving Decidable

def SlowOpFits (op : SlowOp) : Prop := TextFits op.line
deriving Decidable

def SessionFits (s : Session) : Prop :=
  ListFits TextFits s.dbLines ∧ OptionFits TextFits s.configOptions ∧ OptionFits TextFits s.dbPath
deriving Decidable

def SummaryFits (s : Summary) : Prop :=
  OptionFits TextFits s.startDate ∧ OptionFits TextFits s.endDate
deriving Decidable

/-- The length of each text and of each list can be told in 64 bits, as any in memory can. -/
def Fits (r : Result) : Prop :=
  ListFits StatsFit r.shapes ∧ ListFits SlowOpFits r.slowOps ∧ SessionFits r.session ∧
    SummaryFits r.summary
deriving Decidable

theorem exact_stats : Exact statsBytes readStats StatsFit := by
  intro bs s rest
  obtain ⟨⟨operation, filter, scan⟩, ns, index, count, total, max, min⟩ := s
  simp only [readStats, exact_text.bind, exact_number.bind, pure_eq_ok, Prod.mk.injEq,
    Shape.Stats.mk.injEq, Shape.Key.mk.injEq, StatsFit, statsBytes, List.append_assoc]
  grind

theorem exact_slowOp : Exact slowOpBytes readSlowOp SlowOpFits := by
  intro bs op rest
  obtain ⟨millis, line⟩ := op
  simp only [readSlowOp, exact_text.bind, exact_number.bind, pure_eq_ok, Prod.mk.injEq,
    SlowOp.mk.injEq, SlowOpFits, slowOpBytes, List.append_assoc]
  grind

theorem exact_session : Exact sessionBytes readSession SessionFits := by
  intro bs s rest
  obtain ⟨dbLines, configOptions, dbPath⟩ := s
  simp only [readSession, (exact_list exact_text).bind, (exact_option exact_text).bind, pure_eq_ok,
    Prod.mk.injEq, Session.mk.injEq, SessionFits, sessionBytes, List.append_assoc]
  grind

theorem exact_summary : Exact summaryBytes readSummary SummaryFits := by
  intro bs s rest
  obtain ⟨total, matched, aggregated, skipped, start, stop⟩ := s
  simp only [readSummary, exact_number.bind, (exact_option exact_text).bind, pure_eq_ok,
    Prod.mk.injEq, Summary.mk.injEq, SummaryFits, summaryBytes, List.append_assoc]
  grind

theorem exact_result : Exact resultBytes readResult Fits := by
  intro bs r rest
  obtain ⟨shapes, slowOps, session, summary⟩ := r
  simp only [readResult, (exact_list exact_stats).bind, (exact_list exact_slowOp).bind,
    exact_session.bind, exact_summary.bind, pure_eq_ok, Prod.mk.injEq, Result.mk.injEq, Fits,
    resultBytes, List.append_assoc]
  grind

theorem header_unique {head : Bytes} (hlen : head.length = header.length)
    (hmark : head.take mark.length = mark)
    (hversion : Bytes.toNat (head.drop mark.length) = version) : head = header := by
  have hdrop : (head.drop mark.length).length = 4 := by
    rw [List.length_drop, hlen]
    rfl
  calc
    head = head.take mark.length ++ head.drop mark.length := (List.take_append_drop _ _).symm
    _ = mark ++ Bytes.ofNat 4 version := by rw [hmark, ← hversion, Bytes.ofNat_toNat hdrop]

theorem decode_eq_ok {bs : Bytes} {r : Result} :
    decode bs = .ok r ↔ ∃ body rest, bs = header ++ body ∧ readResult body = .ok (r, rest) := by
  rw [decode]
  constructor
  · intro h
    split at h
    next => cases h
    next head body hs =>
        obtain ⟨rfl, hlen⟩ := Bytes.split?_eq_some.mp hs
        dsimp only at h
        split at h
        next => cases h
        next hmark =>
          split at h
          next => cases h
          next hversion =>
            split at h
            next r' rest hr =>
                cases h
                rw [header_unique hlen (Classical.not_not.mp hmark) (Classical.not_not.mp hversion)]
                exact ⟨body, rest, rfl, hr⟩
            next => cases h
  · rintro ⟨body, rest, rfl, hr⟩
    have hmark : header.take mark.length = mark := rfl
    have hversion : Bytes.toNat (header.drop mark.length) = version := rfl
    rw [Bytes.split?_eq_some.mpr ⟨rfl, rfl⟩]
    simp only [hmark, hversion, ne_eq, not_true_eq_false, if_false, hr]

theorem decode_eq_ok_iff {bs : Bytes} {r : Result} :
    decode bs = .ok r ↔ Fits r ∧ encode r <+: bs := by
  simp only [decode_eq_ok, exact_result _ _ _, encode]
  constructor
  · rintro ⟨_, rest, rfl, hfits, rfl⟩
    exact ⟨hfits, rest, List.append_assoc _ _ _⟩
  · rintro ⟨hfits, rest, rfl⟩
    exact ⟨_, rest, List.append_assoc _ _ _, hfits, rfl⟩

/-- A file is read as the result with whose bytes it begins, if it begins with those of any. -/
theorem decode_exact :
    (∀ bs r, decode bs = .ok r ↔ Fits r ∧ encode r <+: bs) ∧
    (∀ r, Fits r → decode (encode r) = .ok r) ∧
    (∀ r r', Fits r → Fits r' → encode r = encode r' → r = r') ∧
    ∀ r bs, Fits r → bs <+: encode r → bs ≠ encode r → ∃ fault, decode bs = .error fault := by
  have hself : ∀ r, Fits r → decode (encode r) = .ok r := fun r h =>
    decode_eq_ok_iff.mpr ⟨h, List.prefix_rfl⟩
  refine ⟨fun bs r => decode_eq_ok_iff, hself, fun r r' hr hr' he => ?_, fun r bs hr hbs hne => ?_⟩
  · have h := hself r hr
    rw [he, hself r' hr'] at h
    exact (Except.ok.inj h).symm
  · cases hd : decode bs with
    | error fault => exact ⟨fault, rfl⟩
    | ok r' =>
        obtain ⟨hr', hpre⟩ := decode_eq_ok_iff.mp hd
        have h := decode_eq_ok_iff.mpr ⟨hr', hpre.trans hbs⟩
        rw [hself r hr] at h
        cases h
        exact absurd (hbs.eq_of_length_le hpre.length_le) hne

theorem decode_cut_short :
    let r : Result :=
      { shapes := [⟨⟨"find".toList, "\x7ba: 1\x7d".toList, []⟩, "é".toList, [], 2, 9, 5, 4⟩]
        slowOps := [⟨5, "one".toList⟩, ⟨4, "two".toList⟩]
        summary := { totalLines := 2, startDate := some "now".toList } }
    decode (encode r) = .ok r ∧ ∃ fault, decode (encode r).dropLast = .error fault := by
  intro r
  have hfits : Fits r := by decide +zetaReduce
  have hne : (encode r).dropLast ≠ encode r := by
    intro he
    have hlen : (encode r).length - 1 = (encode r).length := by rw [← List.length_dropLast, he]
    have hpos : 0 < (encode r).length := Nat.zero_lt_succ _
    omega
  exact ⟨decode_exact.2.1 r hfits,
    decode_exact.2.2.2 r _ hfits (List.dropLast_prefix _) hne⟩

end Artifact

end SlowQuery
