import SlowQuery.Proofs.Utf8
import SlowQuery.Run.Ingest

namespace SlowQuery.Run

open Text

inductive LineEnd where
  | feed
  | returnAndFeed

def LineEnd.bytes : LineEnd → Bytes
  | .feed => [lineFeed]
  | .returnAndFeed => [carriageReturn, lineFeed]

/-- Lines with an end each, and a last line without one unless it is empty. -/
def writtenLines (lines : List (Text × LineEnd)) (last : Text) : Bytes :=
  lines.flatMap (fun (t, e) => Utf8.encode t ++ e.bytes) ++ Utf8.encode last

/-- A line that is the same with either end. -/
structure IsLine (t : Text) : Prop where
  unbroken : '\n' ∉ t
  ending : t.getLast? ≠ some '\r'

variable {line body rest bs : Bytes} {t last : Text}

theorem byteLines_append (line piece rest : Bytes) :
    byteLines line (piece ++ rest) =
      (feed line piece).1 ++ byteLines (feed line piece).2 rest := by
  induction piece generalizing line with
  | nil => rfl
  | cons b piece ih =>
      rw [List.cons_append, byteLines, feed]
      split
      next => rw [ih]; rfl
      next => exact ih (b :: line)

theorem pieceLines_eq (line : Bytes) (pieces : List Bytes) :
    pieceLines line pieces = byteLines line pieces.flatten := by
  induction pieces generalizing line with
  | nil => rfl
  | cons piece pieces ih => rw [List.flatten_cons, byteLines_append, ← ih, pieceLines]

theorem linesOfPieces_eq (pieces : List Bytes) : linesOfPieces pieces = linesOf pieces.flatten := by
  rw [linesOfPieces, pieceLines_eq, linesOf]

theorem length_byteLines (line bs : Bytes) :
    (byteLines line bs).length =
      bs.count lineFeed + if line = [] ∧ bs = [] ∨ bs.getLast? = some lineFeed then 0 else 1 := by
  induction bs generalizing line with
  | nil => cases line <;> simp [byteLines]
  | cons b bs ih =>
      rw [byteLines]
      split
      next hb =>
        rw [List.length_cons, ih, hb, List.count_cons_self]
        cases bs with
        | nil => simp
        | cons c bs =>
            simp
            omega
      next hb =>
        rw [ih, List.count_cons_of_ne hb]
        cases bs <;> simp [hb]

theorem byteLines_line (h : lineFeed ∉ body) :
    byteLines line (body ++ lineFeed :: rest) = chomp (line.reverse ++ body) :: byteLines [] rest := by
  induction body generalizing line with
  | nil => rw [List.nil_append, byteLines, if_pos rfl, List.append_nil]
  | cons b body ih =>
      obtain ⟨hb, hbody⟩ := not_or.mp (mt List.mem_cons.mpr h)
      rw [List.cons_append, byteLines, if_neg (Ne.symm hb), ih hbody]
      simp

theorem byteLines_last (h : lineFeed ∉ body) (hne : line ≠ [] ∨ body ≠ []) :
    byteLines line body = [line.reverse ++ body] := by
  induction body generalizing line with
  | nil =>
      obtain ⟨b, line, rfl⟩ := List.exists_cons_of_ne_nil (hne.resolve_right (· rfl))
      simp [byteLines]
  | cons b body ih =>
      obtain ⟨hb, hbody⟩ := not_or.mp (mt List.mem_cons.mpr h)
      rw [byteLines, if_neg (Ne.symm hb), ih hbody (.inl (List.cons_ne_nil b line))]
      simp

theorem lineFeed_not_mem (h : '\n' ∉ t) : lineFeed ∉ Utf8.encode t :=
  fun hb => h (Utf8.mem_of_mem_encode hb (by decide))

theorem chomp_return (bs : Bytes) : chomp (bs ++ [carriageReturn]) = bs := by
  rw [chomp, if_pos List.getLast?_concat, List.dropLast_concat]

theorem IsLine.chomp_encode (h : IsLine t) : chomp (Utf8.encode t) = Utf8.encode t :=
  if_neg fun hr => h.ending (Utf8.getLast?_of_encode hr (by decide))

theorem IsLine.byteLines_append (h : IsLine t) (e : LineEnd) (rest : Bytes) :
    byteLines [] (Utf8.encode t ++ e.bytes ++ rest) = Utf8.encode t :: byteLines [] rest := by
  have hfeed := lineFeed_not_mem h.unbroken
  cases e with
  | feed =>
      rw [LineEnd.bytes, List.append_assoc, List.singleton_append, byteLines_line hfeed,
        List.reverse_nil, List.nil_append, h.chomp_encode]
  | returnAndFeed =>
      have hbody : lineFeed ∉ Utf8.encode t ++ [carriageReturn] := by
        rw [List.mem_append, List.mem_singleton]
        exact not_or.mpr ⟨hfeed, by decide⟩
      rw [LineEnd.bytes, List.append_cons, List.append_assoc, List.singleton_append,
        byteLines_line hbody, List.reverse_nil, List.nil_append, chomp_return]

theorem encode_ne_nil (h : t ≠ []) : Utf8.encode t ≠ [] := by
  obtain ⟨c, t, rfl⟩ := List.exists_cons_of_ne_nil h
  rw [Utf8.encode_cons]
  exact List.append_ne_nil_of_left_ne_nil String.utf8EncodeChar_ne_nil _

theorem linesOf_written {lines : List (Text × LineEnd)} (h : ∀ l ∈ lines, IsLine l.1)
    (hlast : '\n' ∉ last) :
    linesOf (writtenLines lines last) = lines.map (·.1) ++ if last = [] then [] else [last] := by
  induction lines with
  | nil =>
      rw [writtenLines, List.flatMap_nil, List.nil_append, List.map_nil, List.nil_append]
      split
      next hnil => rw [hnil]; rfl
      next hne =>
        rw [linesOf, byteLines_last (lineFeed_not_mem hlast) (.inr (encode_ne_nil hne))]
        exact congrArg (fun t => [t]) (Utf8.decodeLossy_encode last)
  | cons l lines ih =>
      obtain ⟨hl, hlines⟩ := List.forall_mem_cons.mp h
      have hcut : linesOf (writtenLines (l :: lines) last) =
          l.1 :: linesOf (writtenLines lines last) := by
        rw [writtenLines, List.flatMap_cons, List.append_assoc, linesOf, hl.byteLines_append,
          List.map_cons, Utf8.decodeLossy_encode]
        rfl
      rw [hcut, ih hlines, List.map_cons, List.cons_append]

/-- Lines depend on the bytes and not on the pieces in which they arrive; line feeds and a last line
without one make their number; and lines are read as they were written, whatever their ends. -/
theorem lines_exact (pieces : List Bytes) :
    linesOfPieces pieces = linesOf pieces.flatten ∧
    (linesOf pieces.flatten).length = pieces.flatten.count lineFeed +
      (if pieces.flatten = [] ∨ pieces.flatten.getLast? = some lineFeed then 0 else 1) ∧
    ∀ (lines : List (Text × LineEnd)) (last : Text), (∀ l ∈ lines, IsLine l.1) → '\n' ∉ last →
      pieces.flatten = writtenLines lines last →
      linesOfPieces pieces = lines.map (·.1) ++ if last = [] then [] else [last] := by
  refine ⟨linesOfPieces_eq pieces, ?_, fun lines last h hlast hpieces => ?_⟩
  · rw [linesOf, List.length_map, length_byteLines]
    simp only [true_and]
  · rw [linesOfPieces_eq, hpieces, linesOf_written h hlast]

theorem lines_exact_split :
    let pieces : List Bytes := [[0x61, 0x0D], [0x0A, 0xC3], [0xA9, 0x0A, 0x0A], [0x62]]
    let lines : List (Text × LineEnd) := [(['a'], .returnAndFeed), (['é'], .feed), ([], .feed)]
    ((∀ l ∈ lines, IsLine l.1) ∧ '\n' ∉ ['b'] ∧ pieces.flatten = writtenLines lines ['b']) ∧
      linesOfPieces pieces = [['a'], ['é'], [], ['b']] := by
  intro pieces lines
  have hlines : ∀ l ∈ lines, IsLine l.1 := by
    simp only [lines, List.forall_mem_cons]
    exact ⟨⟨by decide, by decide⟩, ⟨by decide, by decide⟩, ⟨by decide, by decide⟩,
      List.forall_mem_nil _⟩
  have hlast : '\n' ∉ ['b'] := by decide
  have hpieces : pieces.flatten = writtenLines lines ['b'] := by decide
  exact ⟨⟨hlines, hlast, hpieces⟩, (lines_exact pieces).2.2 lines ['b'] hlines hlast hpieces⟩

end SlowQuery.Run
