import RouterPlan.Proofs.Lemmas.Marks

/-!
# Where words start

A scan for words counts bytes and reads characters, and the two do not meddle: further on in a text the same words are found
further on (`scanWords_shift`). At the start of a word a scan is as at the start of a line, so from there the word and those after
it are read again (`startIn_of_scanWords`; by induction along the scan, where a word that is open when the text begins starts
before it).
-/

namespace RouterPlan

/-- The word as it is found when `n` more bytes stand before it. -/
def Word.shift (n : Nat) (word : Word) : Word :=
  { word with offset := n + word.offset }

namespace Text

variable {pos n : Nat} {scan : Scan} {c : Char} {cs : List Char} {word : Word} {words : List Word}

/-- The bytes of a text are those of the string that it makes. -/
theorem utf8ByteSize_ofList (cs : List Char) : (String.ofList cs).utf8ByteSize = byteSize cs := by
  induction cs with
  | nil => rfl
  | cons c cs ih =>
    rw [← List.singleton_append, String.ofList_append, String.utf8ByteSize_append, ih, ← String.singleton_eq_ofList,
      String.utf8ByteSize_singleton]
    rfl

/-! ## Outside quotes -/

theorem Scan.isQuoted_of_ne (h : ∀ word, scan = quoted word → False) : scan.isQuoted = false := by
  cases scan with
  | between => rfl
  | inside word => rfl
  | quoted word => exact absurd rfl (h word)

/-- A double quote opens quoted text. -/
theorem scanWords_open (hscan : scan.isQuoted = false) (pos : Nat) (cs : List Char) :
    scanWords pos scan ('"' :: cs) = scanWords (pos + 1) (.quoted (scan.word pos)) cs := by
  cases scan with
  | between => rfl
  | inside word => rfl
  | quoted word => cases hscan

/-- A backslash takes the next character as it is. -/
theorem scanWords_escape (hscan : scan.isQuoted = false) (pos : Nat) (c : Char) (cs : List Char) :
    scanWords pos scan ('\\' :: c :: cs) = scanWords (pos + 1 + c.utf8Size) (.inside ((scan.word pos).push c)) cs := by
  cases scan with
  | between => rfl
  | inside word => rfl
  | quoted word => cases hscan

/-- A backslash at the end of a text is one too many. -/
theorem scanWords_dangling (hscan : scan.isQuoted = false) (pos : Nat) :
    scanWords pos scan ['\\'] = .error .danglingEscape := by
  cases scan with
  | between => rfl
  | inside word => rfl
  | quoted word => cases hscan

/-- A separator ends the word that is open. -/
theorem scanWords_separator (hscan : scan.isQuoted = false) (hc : isSeparator c = true) (pos : Nat) (cs : List Char) :
    scanWords pos scan (c :: cs) = (scanWords (pos + c.utf8Size) .between cs).map (scan.finished ++ ·) :=
  scans_separator pos scan hscan hc cs

/-- Any other character belongs to the word. -/
theorem scanWords_plain (hscan : scan.isQuoted = false) (hc : isPlain c = true) (pos : Nat) (cs : List Char) :
    scanWords pos scan (c :: cs) = scanWords (pos + c.utf8Size) (.inside ((scan.word pos).push c)) cs := by
  have hplain := scans_plain pos scan hscan hc cs
  rw [List.singleton_append] at hplain
  rw [hplain]
  cases scanWords (pos + c.utf8Size) (.inside ((scan.word pos).push c)) cs <;> rfl

theorem isPlain_of_ne (hquote : c = '"' → False) (hslash : c ≠ '\\') (hsep : ¬isSeparator c = true) : isPlain c = true := by
  simp [isPlain, hsep, show c ≠ '"' from hquote, hslash]

/-! ## Further on in a text -/

/-- The scan as it stands when `n` more bytes are before it. -/
def Scan.shift (n : Nat) : Scan → Scan
  | between => between
  | inside word => inside (word.shift n)
  | quoted word => quoted (word.shift n)

theorem Scan.isQuoted_shift (n : Nat) (scan : Scan) : (scan.shift n).isQuoted = scan.isQuoted := by
  cases scan <;> rfl

theorem Scan.word_shift (n pos : Nat) (scan : Scan) : (scan.shift n).word (n + pos) = (scan.word pos).shift n := by
  cases scan <;> rfl

theorem Scan.finished_shift (n : Nat) (scan : Scan) : (scan.shift n).finished = scan.finished.map (Word.shift n) := by
  cases scan <;> rfl

/-- Bytes in front of a text move its words and change nothing else. -/
theorem scanWords_shift (n pos : Nat) (scan : Scan) (cs : List Char) :
    scanWords (n + pos) (scan.shift n) cs = (scanWords pos scan cs).map (List.map (Word.shift n)) := by
  have hunquoted : ∀ {scan : Scan}, (∀ word, scan = .quoted word → False) → (scan.shift n).isQuoted = false :=
    fun hscan => (Scan.isQuoted_shift n _).trans (Scan.isQuoted_of_ne hscan)
  fun_induction scanWords pos scan cs with
  | case1 => rfl
  | case2 pos word cs ih => exact ih
  | case3 pos word cs ih => exact ih
  | case4 pos word cs ih => exact ih
  | case5 pos word c cs hquote hescaped hslashes ih =>
    rw [← ih, Scan.shift, scanWords, Nat.add_assoc]
    · rfl
    · exact hquote
    · exact hescaped
    · exact hslashes
  | case6 pos scan hscan =>
    rw [scanWords_nil _ (hunquoted hscan), Scan.finished_shift]
    rfl
  | case7 pos scan cs hscan ih =>
    rw [scanWords_open (hunquoted hscan), Scan.word_shift]
    exact ih
  | case8 pos scan hscan =>
    rw [scanWords_dangling (hunquoted hscan)]
    rfl
  | case9 pos scan c cs _ _ hscan ih =>
    rw [scanWords_escape (hunquoted hscan), Scan.word_shift, Nat.add_assoc, Nat.add_assoc, ← Nat.add_assoc pos]
    exact ih
  | case10 pos scan c cs _ _ _ hscan hquote hlast hslash hsep ih =>
    have hnext : scanWords (n + (pos + c.utf8Size)) .between cs =
      (scanWords (pos + c.utf8Size) .between cs).map (List.map (Word.shift n)) := ih
    rw [scanWords_separator (hunquoted hscan) hsep, Scan.finished_shift, Nat.add_assoc, hnext]
    cases scanWords (pos + c.utf8Size) .between cs with
    | error cause => rfl
    | ok more => exact congrArg Except.ok List.map_append.symm
  | case11 pos scan c cs _ _ _ hscan hquote hlast hslash hsep ih =>
    rw [scanWords_plain (hunquoted hscan) (isPlain_of_ne hquote (ne_backslash hlast hslash) hsep), Scan.word_shift, Nat.add_assoc]
    exact ih

/-! ## The start of a word -/

/-- A word starts at its place in a text that begins at `pos`: the character there is no separator, and a scan from there gives the
word and those after it. -/
structure StartsAt (pos : Nat) (cs : List Char) (word : Word) (after : List Word) (ahead : List Char) (c : Char)
    (rest : List Char) : Prop where
  text : cs = ahead ++ c :: rest
  offset : word.offset = pos + byteSize ahead
  notSeparator : isSeparator c = false
  scan : scanWords word.offset .between (c :: rest) = .ok (word :: after)

/-- Each of some words starts at its place in a text. -/
def StartIn (pos : Nat) (cs : List Char) (words : List Word) : Prop :=
  ∀ before word after, words = before ++ word :: after → ∃ ahead c rest, StartsAt pos cs word after ahead c rest

theorem StartIn.nil (pos : Nat) (cs : List Char) : StartIn pos cs [] :=
  fun _ _ _ h => absurd h (by simp)

/-- Words start in a text as they start after its first character. -/
theorem StartIn.cons (h : StartIn (pos + c.utf8Size) cs words) : StartIn pos (c :: cs) words := by
  intro before word after hwords
  obtain ⟨ahead, d, rest, hstart⟩ := h before word after hwords
  refine ⟨c :: ahead, d, rest, by rw [hstart.text, List.cons_append], ?_, hstart.notSeparator, hstart.scan⟩
  rw [hstart.offset, byteSize, Nat.add_assoc]

/-- A word that is opened by the first character of a text, and those after it. -/
theorem StartIn.open (h : StartIn pos (c :: cs) words) (hoffset : word.offset = pos) (hc : isSeparator c = false)
    (hscan : scanWords pos .between (c :: cs) = .ok (word :: words)) : StartIn pos (c :: cs) (word :: words) := by
  intro before first after hwords
  cases before with
  | nil =>
    cases hwords
    exact ⟨[], c, cs, rfl, by rw [hoffset]; rfl, hc, by rw [hoffset, hscan]⟩
  | cons _ before => exact h before first after (List.cons.inj hwords).2

/-- What comes of a text: the word that is open before it, if there is one, and words that start in it. -/
def Yields (pos : Nat) (cs : List Char) (opened : List Nat) (words : List Word) : Prop :=
  ∃ own others, words = own ++ others ∧ own.map (·.offset) = opened ∧ StartIn pos cs others

theorem Yields.cons {opened : List Nat} (h : Yields (pos + c.utf8Size) cs opened words) : Yields pos (c :: cs) opened words := by
  obtain ⟨own, others, hwords, hown, hothers⟩ := h
  exact ⟨own, others, hwords, hown, hothers.cons⟩

/-- The word that a character belongs to outside quotes was open before it or starts with it. -/
theorem Yields.ofWord (hscan : scan.isQuoted = false) (hc : isSeparator c = false)
    (hok : scanWords pos scan (c :: cs) = .ok words) (h : Yields pos (c :: cs) [(scan.word pos).offset] words) :
    Yields pos (c :: cs) (scan.finished.map (·.offset)) words := by
  cases scan with
  | inside word => exact h
  | quoted word => cases hscan
  | between =>
    obtain ⟨own, others, rfl, hown, hothers⟩ := h
    obtain ⟨word, rfl, hoffset⟩ := List.map_eq_singleton_iff.1 hown
    exact ⟨[], _, rfl, rfl, hothers.open hoffset hc hok⟩

/-- Every word of a scan was open when it began, or starts in the text. -/
theorem yields_scanWords (hok : scanWords pos scan cs = .ok words) :
    Yields pos cs (scan.finished.map (·.offset)) words := by
  fun_induction scanWords pos scan cs generalizing words with
  | case1 => cases hok
  | case2 pos word cs ih => exact (ih hok).cons
  | case3 pos word cs ih => exact (ih hok).cons.cons
  | case4 pos word cs ih => exact (ih hok).cons.cons
  | case5 pos word c cs _ _ _ ih => exact (ih hok).cons
  | case6 pos scan =>
    cases hok
    exact ⟨_, [], (List.append_nil _).symm, rfl, .nil pos []⟩
  | case7 pos scan cs hscan ih =>
    have hscan := Scan.isQuoted_of_ne hscan
    exact .ofWord hscan (by decide) ((scanWords_open hscan pos cs).trans hok) (ih hok).cons
  | case8 => cases hok
  | case9 pos scan c cs _ _ hscan ih =>
    have hscan := Scan.isQuoted_of_ne hscan
    exact .ofWord hscan (by decide) ((scanWords_escape hscan pos c cs).trans hok) (ih hok).cons.cons
  | case10 pos scan c cs _ _ _ hscan _ _ _ hsep ih =>
    obtain ⟨more, hmore, hafter⟩ := bind_eq_ok_iff.1 hok
    cases hafter
    obtain ⟨own, others, rfl, hown, hothers⟩ := ih hmore
    obtain rfl := List.map_eq_nil_iff.1 hown
    exact ⟨scan.finished, others, rfl, rfl, hothers.cons⟩
  | case11 pos scan c cs _ _ _ hscan hquote hlast hslash hsep ih =>
    have hscan := Scan.isQuoted_of_ne hscan
    have hplain := isPlain_of_ne hquote (ne_backslash hlast hslash) hsep
    exact .ofWord hscan (isSeparator_of_isPlain c hplain) ((scanWords_plain hscan hplain pos cs).trans hok) (ih hok).cons

/-- Every word of a line starts at its place in the line. -/
theorem startIn_of_scanWords (hok : scanWords pos .between cs = .ok words) : StartIn pos cs words := by
  obtain ⟨own, others, rfl, hown, hothers⟩ := yields_scanWords hok
  obtain rfl := List.map_eq_nil_iff.1 hown
  exact hothers

end Text

end RouterPlan
