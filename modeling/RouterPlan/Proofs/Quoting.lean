import RouterPlan.Proofs.Lemmas.WordStarts

/-!
# Quoted values among separators

Main statement: whatever values are quoted and put one after the other, with separators between them and any at the ends, the words
of the text are the values, each at the byte where it was written (`splitWords_quoted`). By induction on the values: the separators
in front of a value end the word before it, and the value leaves its own word open.
-/

namespace RouterPlan.Text

variable {pos : Nat} {scan : Scan} {gap tail : List Char} {pieces : List (List Char × String)}

/-- Quoted values, each with what stands in front of it. -/
def quotedText (pieces : List (List Char × String)) : List Char :=
  pieces.flatMap fun (gap, value) => gap ++ (quote value).toList

/-- The words that quoted values make in a text that starts at `pos`. -/
def quotedWords (pos : Nat) : List (List Char × String) → List Word
  | [] => []
  | (gap, value) :: pieces =>
    ⟨value, pos + byteSize gap⟩ :: quotedWords (pos + byteSize (gap ++ (quote value).toList)) pieces

/-- Separators end the word that is open, if there are any. -/
theorem scans_gap (pos : Nat) (hscan : scan.isQuoted = false) (hgap : ∀ c ∈ gap, isSeparator c = true)
    (happart : gap ≠ [] ∨ scan = .between) : Scans pos scan gap scan.finished (pos + byteSize gap) .between := by
  induction gap generalizing pos scan with
  | nil =>
    rw [happart.resolve_left fun h => h rfl]
    exact .nil pos .between
  | cons c gap ih =>
    obtain ⟨hc, hgap⟩ := List.forall_mem_cons.1 hgap
    have hboth := (scans_separator pos scan hscan hc).append (ih _ rfl hgap (.inr rfl))
    rwa [Scan.finished, List.append_nil, Nat.add_assoc] at hboth

/-- The words of quoted values in the midst of a line: the word that is open comes first. -/
theorem scanWords_quotedText (hgaps : ∀ piece ∈ pieces, ∀ c ∈ piece.1, isSeparator c = true)
    (happart : ∀ piece ∈ pieces.tail, piece.1 ≠ []) (htail : ∀ c ∈ tail, isSeparator c = true) (hscan : scan.isQuoted = false)
    (hfirst : ∀ piece, pieces.head? = some piece → piece.1 ≠ [] ∨ scan = .between) :
    scanWords pos scan (quotedText pieces ++ tail) = .ok (scan.finished ++ quotedWords pos pieces) := by
  induction pieces generalizing pos scan with
  | nil =>
    rw [quotedText, quotedWords, List.flatMap_nil, List.nil_append, List.append_nil]
    by_cases hempty : tail = []
    · rw [hempty, scanWords_nil pos hscan]
    · have hend := scans_gap pos hscan htail (.inl hempty) []
      rw [List.append_nil] at hend
      rw [hend, scanWords_nil _ Scan.isQuoted_between]
      exact congrArg Except.ok (List.append_nil _)
  | cons piece pieces ih =>
    obtain ⟨gap, value⟩ := piece
    obtain ⟨hgap, hgaps⟩ := List.forall_mem_cons.1 hgaps
    have hword := (scans_gap pos hscan hgap (hfirst _ rfl)).append (writes_quote value _ .between rfl)
    have hopen : (Scan.inside ((Scan.between.word (pos + byteSize gap)).append value)).isQuoted = false := rfl
    have hrest := fun pos => @ih pos _ hgaps (fun piece hpiece => happart piece (List.mem_of_mem_tail hpiece)) hopen
      (fun piece hpiece => .inl (happart piece (List.mem_of_mem_head? hpiece)))
    rw [quotedText, List.flatMap_cons, List.append_assoc, hword, ← quotedText, hrest, quotedWords, byteSize_append,
      Nat.add_assoc]
    simp [Except.map, Scan.finished, Scan.word, Word.append, Word.startingAt]

/-- Each value has its own word. -/
theorem quotedWords_append (pos : Nat) (before : List (List Char × String)) (gap : List Char) (value : String)
    (after : List (List Char × String)) :
    (quotedWords pos (before ++ (gap, value) :: after))[before.length]? =
      some ⟨value, pos + byteSize (quotedText before ++ gap)⟩ := by
  induction before generalizing pos with
  | nil => rfl
  | cons piece before ih =>
    obtain ⟨first, other⟩ := piece
    rw [List.cons_append, quotedWords, List.length_cons, List.getElem?_cons_succ, ih, quotedText, quotedText, List.flatMap_cons,
      List.append_assoc, byteSize_append _ (_ ++ gap), Nat.add_assoc]

theorem text_quotedWords (pos : Nat) (pieces : List (List Char × String)) :
    (quotedWords pos pieces).map (·.text) = pieces.map (·.2) := by
  induction pieces generalizing pos with
  | nil => rfl
  | cons piece pieces ih => exact congrArg _ (ih _)

/-- Values of any kind, quoted and put one after the other with separators in front of each of them, which only the first one can
do without, and with any separators at the end, are the words of that text in the same order, each at the byte where its quoted form
starts. -/
theorem splitWords_quoted (hgaps : ∀ piece ∈ pieces, ∀ c ∈ piece.1, isSeparator c = true)
    (happart : ∀ piece ∈ pieces.tail, piece.1 ≠ []) (htail : ∀ c ∈ tail, isSeparator c = true) :
    ∃ words, splitWords (quotedText pieces ++ tail) = .ok words ∧ words.map (·.text) = pieces.map (·.2) ∧
      ∀ before gap value after, pieces = before ++ (gap, value) :: after →
        words[before.length]? = some ⟨value, (String.ofList (quotedText before ++ gap)).utf8ByteSize⟩ := by
  refine ⟨quotedWords 0 pieces, ?_, text_quotedWords 0 pieces, ?_⟩
  · exact scanWords_quotedText hgaps happart htail rfl fun _ _ => .inr rfl
  · rintro before gap value after rfl
    rw [quotedWords_append, utf8ByteSize_ofList, Nat.zero_add]

/-- An empty value, one with a quote, a backslash and a blank, and one beyond ASCII that needs no quotes. -/
theorem splitWords_quoted_sample :
    ∃ words, splitWords (quotedText [([';'], ""), ([' ', ';'], "a\" \\"), (['\t'], "é\u200b"), ([' '], "=")] ++ [' ']) = .ok words ∧
      words.map (·.text) = ["", "a\" \\", "é\u200b", "="] ∧ words[2]? = some ⟨"é\u200b", 14⟩ ∧ words[3]? = some ⟨"=", 20⟩ := by
  have hseparators : isSeparator ' ' = true ∧ isSeparator ';' = true ∧ isSeparator '\t' = true := by decide
  obtain ⟨words, hwords, htexts, hplaces⟩ :=
    @splitWords_quoted [' '] [([';'], ""), ([' ', ';'], "a\" \\"), (['\t'], "é\u200b"), ([' '], "=")]
      (by simp [hseparators]) (by simp) (by simp [hseparators])
  exact ⟨words, hwords, htexts, hplaces [([';'], ""), ([' ', ';'], "a\" \\")] ['\t'] "é\u200b" _ rfl,
    hplaces [([';'], ""), ([' ', ';'], "a\" \\"), (['\t'], "é\u200b")] [' '] "=" [] rfl⟩

end RouterPlan.Text
