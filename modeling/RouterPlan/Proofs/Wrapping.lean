import RouterPlan.Pattern.Engine
import RouterPlan.Proofs.Lemmas.StatementLines

/-!
# Wrapped lines

An export wraps long lines at any place: within words, within quotes, right after a backslash, and also where nothing is left.
Main statement: wrapping does not show (`wrapping_exact`). Lines that are written in pieces, with a backslash, a line break and four
blanks between two of them, are read as the lines that they were, each with the number of its first physical line, and a text of
such lines says what it would say in any other wrapping, or in none. A piece may end in a backslash itself, and the line that it is
joined to is tested again after each join; this does no harm because the backslash of the wrapping comes after it.
-/

namespace RouterPlan

namespace Text

/-- A line that can be written on lines of its own: it has no line feed, and its end is taken neither for the end of a wrapped piece
nor for a part of the line break. -/
structure Wrappable (line : List Char) : Prop where
  noFeed : '\n' ∉ line
  noBackslash : line.getLast? ≠ some '\\'
  noReturn : line.getLast? ≠ some '\r'

/-- A line cut into pieces, with the line breaks to write after them. -/
structure CutLine where
  /-- The pieces before the last one. -/
  cuts : List (List Char × LineBreak)
  /-- The last piece, which is all of a line that is not cut. -/
  last : List Char
  ending : LineBreak

namespace CutLine

/-- The line that was cut. -/
def line (w : CutLine) : List Char :=
  w.cuts.flatMap (·.1) ++ w.last

/-- On how many physical lines it is written. -/
def height (w : CutLine) : Nat :=
  w.cuts.length + 1

/-- Pieces as they are written, each with a backslash, a line break and the indent of the next one. -/
def cutsText (cuts : List (List Char × LineBreak)) : List Char :=
  cuts.flatMap fun (piece, ending) => piece ++ '\\' :: (ending.chars ++ continuationIndent)

/-- The line as it is written. -/
def text (w : CutLine) : List Char :=
  cutsText w.cuts ++ (w.last ++ w.ending.chars)

/-- The text of lines that are written one after the other. -/
def textOf (ws : List CutLine) : List Char :=
  ws.flatMap text

/-- The lines that were cut, each with the number of the first physical line that it is written on. -/
def numberedFrom (first : Nat) : List CutLine → List (Nat × List Char)
  | [] => []
  | w :: ws => (first, w.line) :: numberedFrom (first + w.height) ws

theorem map_numberedFrom (first : Nat) (ws : List CutLine) : (numberedFrom first ws).map (·.2) = ws.map (·.line) := by
  induction ws generalizing first with
  | nil => rfl
  | cons w ws ih => rw [numberedFrom, List.map_cons, List.map_cons, ih]

/-! ## The physical lines -/

/-- The physical lines of pieces, the first of which stands behind `start`. -/
def physicalFrom (start : List Char) : List (List Char × LineBreak) → List Char → List (List Char)
  | [], last => [start ++ last]
  | (piece, _) :: cuts, last => (start ++ (piece ++ ['\\'])) :: physicalFrom continuationIndent cuts last

/-- The physical lines of a line that was cut. -/
def physical (w : CutLine) : List (List Char) :=
  physicalFrom [] w.cuts w.last

/-- The physical lines of pieces are read as they are written. In front of the first piece stands nothing or the indent. -/
theorem lines_pieces {start : List Char} (hstart : start = [] ∨ start = continuationIndent) {cuts : List (List Char × LineBreak)}
    {last : List Char} (ending : LineBreak) (hcuts : ∀ cut ∈ cuts, '\n' ∉ cut.1) (hlast : '\n' ∉ last)
    (hreturn : last.getLast? ≠ some '\r') (rest : List Char) :
    lines (start ++ (cutsText cuts ++ (last ++ (ending.chars ++ rest)))) = physicalFrom start cuts last ++ lines rest := by
  have hnoFeed : '\n' ∉ start := by
    rcases hstart with rfl | rfl <;> decide
  induction cuts generalizing start with
  | nil =>
    have hline : '\n' ∉ start ++ last := by
      simp [hnoFeed, hlast]
    rw [cutsText, List.flatMap_nil, List.nil_append, ← List.append_assoc, lines_append_break hline ending]
    · rfl
    · intro _ hend
      rw [List.getLast?_append] at hend
      cases hc : last.getLast? with
      | none =>
        rw [hc, Option.none_or] at hend
        rcases hstart with rfl | rfl <;> cases hend
      | some c =>
        rw [hc, Option.some_or] at hend
        exact hreturn (hc.trans hend)
  | cons cut cuts ih =>
    obtain ⟨piece, brk⟩ := cut
    obtain ⟨hpiece, hcuts⟩ := List.forall_mem_cons.1 hcuts
    have hline : '\n' ∉ start ++ (piece ++ ['\\']) := by
      simp [hnoFeed, hpiece]
    have hsplit : start ++ (cutsText ((piece, brk) :: cuts) ++ (last ++ (ending.chars ++ rest))) =
        (start ++ (piece ++ ['\\'])) ++ (brk.chars ++ (continuationIndent ++ (cutsText cuts ++ (last ++ (ending.chars ++ rest))))) := by
      simp [cutsText]
    rw [hsplit, lines_append_break hline brk (fun _ => by simp), ih (.inr rfl) hcuts (by decide)]
    rfl

/-- The physical lines of lines that were cut are read as they are written. -/
theorem lines_textOf {ws : List CutLine} (h : ∀ w ∈ ws, Wrappable w.line) : lines (textOf ws) = ws.flatMap physical := by
  induction ws with
  | nil => rfl
  | cons w ws ih =>
    obtain ⟨hw, hws⟩ := List.forall_mem_cons.1 h
    have hcuts : ∀ cut ∈ w.cuts, '\n' ∉ cut.1 := by
      intro cut hcut hmem
      exact hw.noFeed (List.mem_append_left _ (List.mem_flatMap.2 ⟨cut, hcut, hmem⟩))
    have hlast : '\n' ∉ w.last := fun hmem => hw.noFeed (List.mem_append_right _ hmem)
    have hreturn : w.last.getLast? ≠ some '\r' := by
      intro hend
      apply hw.noReturn
      rw [line, List.getLast?_append, hend, Option.some_or]
    have hpieces := lines_pieces (.inl rfl) w.ending hcuts hlast hreturn (textOf ws)
    rw [ih hws, List.nil_append] at hpieces
    rw [textOf, List.flatMap_cons, ← textOf, text, List.append_assoc, List.append_assoc, hpieces]
    rfl

/-! ## The logical lines -/

/-- The backslash of the wrapping and the indent after it are dropped, and nothing else. -/
theorem continued?_indent (before line : List Char) :
    continued? (before ++ ['\\']) (continuationIndent ++ line) = some (before ++ line) := by
  unfold continued?
  simp [continuationIndent]

/-- A piece that ends in the backslash of the wrapping goes on in the physical lines of the pieces after it, until all are joined. -/
theorem joinWrapped_pieces (first : Nat) (cuts : List (List Char × LineBreak)) (before last : List Char) (next : Nat)
    (rest : List (List Char)) :
    joinWrapped first (before ++ ['\\']) next (physicalFrom continuationIndent cuts last ++ rest) =
      joinWrapped first (before ++ (cuts.flatMap (·.1) ++ last)) (next + (cuts.length + 1)) rest := by
  induction cuts generalizing before next with
  | nil =>
    rw [physicalFrom, List.singleton_append, joinWrapped, continued?_indent]
    rfl
  | cons cut cuts ih =>
    obtain ⟨piece, brk⟩ := cut
    have hnext : next + 1 + (cuts.length + 1) = next + ((piece, brk) :: cuts).length + 1 := by
      rw [List.length_cons]
      omega
    rw [physicalFrom, List.cons_append, joinWrapped, continued?_indent]
    dsimp only
    rw [← List.append_assoc before, ih, hnext, List.flatMap_cons]
    simp only [List.append_assoc, Nat.add_assoc]

/-- The physical lines of a line that was cut make that line, whatever comes after them. -/
theorem numbered_physical {w : CutLine} (h : Wrappable w.line) (first : Nat) (rest : List (List Char)) :
    numbered first (w.physical ++ rest) = (first, w.line) :: numbered (first + w.height) rest := by
  obtain ⟨cuts, last, ending⟩ := w
  have hends := not_goesOn_of_getLast? h.noBackslash rest
  cases cuts with
  | nil =>
    rw [← joinWrapped_of_not_goesOn hends]
    rfl
  | cons cut cuts =>
    obtain ⟨piece, brk⟩ := cut
    have hjoin := joinWrapped_pieces first cuts piece last (first + 1) rest
    have hline : piece ++ (cuts.flatMap (·.1) ++ last) = (CutLine.mk ((piece, brk) :: cuts) last ending).line := by
      simp [line]
    have hheight : first + 1 + (cuts.length + 1) = first + (CutLine.mk ((piece, brk) :: cuts) last ending).height := by
      simp only [height, List.length_cons]
      omega
    rw [hline, hheight, joinWrapped_of_not_goesOn hends] at hjoin
    rw [← hjoin]
    rfl

/-- The logical lines of a text of lines that were cut are these lines. -/
theorem logicalLines_textOf {ws : List CutLine} (h : ∀ w ∈ ws, Wrappable w.line) :
    logicalLines (textOf ws) = numberedFrom 1 ws := by
  have hnumbered : ∀ first, numbered first (ws.flatMap physical) = numberedFrom first ws := by
    induction ws with
    | nil => exact fun first => rfl
    | cons w ws ih =>
      obtain ⟨hw, hws⟩ := List.forall_mem_cons.1 h
      intro first
      rw [List.flatMap_cons, numbered_physical hw, ih hws, numberedFrom]
  rw [logicalLines_eq, lines_textOf h, hnumbered]

end CutLine

/-- Lines that are written in pieces, cut anywhere, with a backslash, a line break of either kind and four blanks between two
pieces: the logical lines of the text are the lines that were cut, in their order, each with the number of its first physical line.
A text of the same lines in another wrapping, or in none, describes a configuration exactly if this one does, and the same, and is
a script exactly if this one is, and the same. -/
theorem wrapping_exact {ws : List CutLine} (h : ∀ w ∈ ws, Wrappable w.line) :
    logicalLines (CutLine.textOf ws) = CutLine.numberedFrom 1 ws ∧
      ∀ ws' : List CutLine, ws'.map (·.line) = ws.map (·.line) → ∀ order : OrderTable,
        (∀ c, Configuration.read order (String.ofList (CutLine.textOf ws)) = .ok c ↔
          Configuration.read order (String.ofList (CutLine.textOf ws')) = .ok c) ∧
        ∀ script, Script.read order (String.ofList (CutLine.textOf ws)) = .ok script ↔
          Script.read order (String.ofList (CutLine.textOf ws')) = .ok script := by
  refine ⟨CutLine.logicalLines_textOf h, fun ws' hlines order => ?_⟩
  have h' : ∀ w ∈ ws', Wrappable w.line := by
    intro w hw
    have hmem : w.line ∈ ws.map (·.line) := hlines ▸ List.mem_map_of_mem hw
    obtain ⟨v, hv, hline⟩ := List.mem_map.1 hmem
    exact hline ▸ h v hv
  have hsame : (logicalLines (String.ofList (CutLine.textOf ws)).toList).map (·.2) =
      (logicalLines (String.ofList (CutLine.textOf ws')).toList).map (·.2) := by
    rw [String.toList_ofList, String.toList_ofList, CutLine.logicalLines_textOf h, CutLine.logicalLines_textOf h',
      CutLine.map_numberedFrom, CutLine.map_numberedFrom, hlines]
  exact ⟨Statement.foldlM_ofText_congr Statement.ignoresNumbers_configuration hsame _,
    Statement.foldlM_ofText_congr (Statement.ignoresNumbers_script order) hsame _⟩

/-- Two lines, the second of which is cut within its quotes, right after a backslash and twice at one place. -/
def cutSample : List CutLine :=
  [⟨[], "/ip firewall filter".toList, .returnFeed⟩,
    ⟨[("add comment=\"long\\".toList, .feed), ([], .returnFeed), ("\"rule".toList, .feed)], "s\" disabled=yes".toList, .feed⟩]

/-- The sample as it is written, what its lines are, and that it describes what it describes where no line is cut. -/
theorem wrapping_exact_sample :
    (∀ w ∈ cutSample, Wrappable w.line) ∧
      String.ofList (CutLine.textOf cutSample) =
        "/ip firewall filter\r\nadd comment=\"long\\\\\n    \\\r\n    \"rule\\\n    s\" disabled=yes\n" ∧
      logicalLines (CutLine.textOf cutSample) =
        [(1, "/ip firewall filter".toList), (2, "add comment=\"long\\\"rules\" disabled=yes".toList)] ∧
      ∃ c, Configuration.read .builtin (String.ofList (CutLine.textOf cutSample)) = .ok c ∧
        Configuration.read .builtin "/ip firewall filter\nadd comment=\"long\\\"rules\" disabled=yes\n" = .ok c := by
  have hsample : ∀ w ∈ cutSample, Wrappable w.line := by
    intro w hw
    simp only [cutSample, List.mem_cons, List.not_mem_nil, or_false] at hw
    rcases hw with rfl | rfl <;> exact ⟨by decide, by decide, by decide⟩
  obtain ⟨hlines, hreads⟩ := wrapping_exact hsample
  have huncut := (hreads [⟨[], "/ip firewall filter".toList, .feed⟩,
    ⟨[], "add comment=\"long\\\"rules\" disabled=yes".toList, .feed⟩] rfl .builtin).1
  refine ⟨hsample, by decide, hlines, ?_⟩
  have hok : (Configuration.read .builtin (String.ofList (CutLine.textOf cutSample))).toOption.isSome = true := by decide +kernel
  cases hc : Configuration.read .builtin (String.ofList (CutLine.textOf cutSample)) with
  | error cause =>
    rw [hc] at hok
    cases hok
  | ok c => exact ⟨c, rfl, (huncut c).1 hc⟩

end Text

end RouterPlan
