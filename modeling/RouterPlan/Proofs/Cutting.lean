import RouterPlan.Proofs.Lemmas.WordStarts

/-!
# Lines that are cut at a word

Main statement: a line can be cut in front of any of its words (`splitWords_cut`). The places of the words ascend and lie between
characters, never at a separator, and what is left of the line after a cut has the words from there on, counted from the cut. This is
what a line with a path in front relies on, whose command is read from the rest of the line.
-/

namespace RouterPlan.Text

variable {pos : Nat} {line cs : List Char} {word later : Word} {words after : List Word}

/-- Of two words of a text the later one starts further on: a scan from the place of the earlier one still finds both. -/
theorem offset_lt_of_startIn (h : StartIn pos cs (word :: after)) (hmem : later ∈ after) : word.offset < later.offset := by
  obtain ⟨ahead, c, rest, hstart⟩ := h [] word after rfl
  obtain ⟨before, more, rfl⟩ := List.append_of_mem hmem
  obtain ⟨ahead', d, rest', hstart'⟩ := startIn_of_scanWords hstart.scan (word :: before) later more rfl
  rw [hstart'.offset]
  cases ahead' with
  | cons e ahead' =>
    rw [byteSize]
    have hpos := e.utf8Size_pos
    omega
  | nil =>
    -- the same scan would have found fewer words
    have hscan := hstart'.scan
    rw [hstart'.offset, byteSize, Nat.add_zero, ← List.nil_append (d :: rest'), ← hstart'.text, hstart.scan] at hscan
    have hlength := congrArg List.length (Except.ok.inj hscan)
    simp only [List.length_cons, List.length_append] at hlength
    omega

/-- The places of words that start in a text ascend. -/
theorem pairwise_offset (h : StartIn pos cs words) : (words.map (·.offset)).Pairwise (· < ·) := by
  induction words with
  | nil => exact List.Pairwise.nil
  | cons word words ih =>
    refine List.pairwise_cons.2 ⟨fun offset hoffset => ?_, ih fun before first after hwords => ?_⟩
    · obtain ⟨later, hlater, rfl⟩ := List.mem_map.1 hoffset
      exact offset_lt_of_startIn h hlater
    · exact h (word :: before) first after (by rw [hwords, List.cons_append])

/-- Taking the bytes in front of a place away from what was found there. -/
theorem map_shift_sub (n : Nat) (words : List Word) :
    (words.map (Word.shift n)).map (fun word => { word with offset := word.offset - n }) = words := by
  simp [Function.comp_def, Word.shift]

/-- Where a line is split into words, their places ascend, and each is a place between two characters of the line with a character
behind it that is no separator. The line cut there is split too, into the words from that one on with their places counted from the
cut. -/
theorem splitWords_cut (h : splitWords line = .ok words) :
    (words.map (·.offset)).Pairwise (· < ·) ∧
      ∀ k word, words[k]? = some word → ∃ ahead c rest, line = ahead ++ c :: rest ∧
        (String.ofList ahead).utf8ByteSize = word.offset ∧ isSeparator c = false ∧ dropBytes word.offset line = c :: rest ∧
        splitWords (dropBytes word.offset line) =
          .ok ((words.drop k).map fun later => { later with offset := later.offset - word.offset }) := by
  have hstarts := startIn_of_scanWords h
  refine ⟨pairwise_offset hstarts, fun k word hk => ?_⟩
  obtain ⟨hlt, hword⟩ := List.getElem?_eq_some_iff.1 hk
  obtain ⟨ahead, c, rest, hstart⟩ := hstarts (words.take k) word (words.drop (k + 1)) (by
    rw [← hword, ← List.drop_eq_getElem_cons, List.take_append_drop])
  have hoffset : word.offset = byteSize ahead := by rw [hstart.offset, Nat.zero_add]
  have hdrop : dropBytes word.offset line = c :: rest := by rw [hoffset, hstart.text, dropBytes_append]
  refine ⟨ahead, c, rest, hstart.text, by rw [utf8ByteSize_ofList, hoffset], hstart.notSeparator, hdrop, ?_⟩
  have hshift := scanWords_shift word.offset 0 .between (c :: rest)
  rw [Nat.add_zero, Scan.shift, hstart.scan] at hshift
  have hrest : words.drop k = word :: words.drop (k + 1) := by rw [← hword, ← List.drop_eq_getElem_cons]
  rw [hdrop, hrest]
  change scanWords 0 .between (c :: rest) = _
  cases hcut : scanWords 0 .between (c :: rest) with
  | error cause =>
    rw [hcut] at hshift
    cases hshift
  | ok found =>
    rw [hcut] at hshift
    rw [Except.ok.inj hshift, map_shift_sub]

/-- Words that are opened by a letter of two bytes, a quote and a backslash; the cut is in front of the last. -/
theorem splitWords_cut_sample :
    ∃ words, splitWords "é=1; \"a b\"c \\;d".toList = .ok words ∧ words.map (·.offset) = [0, 6, 13] ∧
      splitWords (dropBytes 13 "é=1; \"a b\"c \\;d".toList) = .ok [⟨";d", 0⟩] := by
  have hsplit : splitWords "é=1; \"a b\"c \\;d".toList = .ok [⟨"é=1", 0⟩, ⟨"a bc", 6⟩, ⟨";d", 13⟩] := by decide +kernel
  obtain ⟨-, hcut⟩ := splitWords_cut hsplit
  obtain ⟨-, -, -, -, -, -, -, hrest⟩ := hcut 2 _ rfl
  exact ⟨_, hsplit, rfl, hrest⟩

end RouterPlan.Text
