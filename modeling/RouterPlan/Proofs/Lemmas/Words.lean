import Mathlib.Data.List.TakeDrop
import Mathlib.Data.List.TakeWhile
import RouterPlan.Text.Digit
import RouterPlan.Text.Word

/-!
# Reading back written words

`Scans` says what a scan for words makes of a piece of text whatever comes after it, so the pieces of a line can be put
together. A piece that `Writes` a word adds it to the word that is open; plain characters do, and so does a quoted value
(`writes_quote`). From this, words with blanks before them are read back as they are (`splitWords_spaced`), and so are indices
(`readIndex_toString`) and pairs (`splitPair_pair`).
-/

namespace RouterPlan

/-- A word with further characters. -/
def Word.append (word : Word) (text : String) : Word :=
  { word with text := word.text ++ text }

theorem Word.append_append (word : Word) (text more : String) :
    (word.append text).append more = word.append (text ++ more) := by
  simp [Word.append, String.append_assoc]

theorem Word.push_eq (word : Word) (c : Char) : word.push c = word.append (String.ofList [c]) := by
  rw [Word.push, Word.append, String.push_eq_append]
  rfl

theorem Word.text_append_startingAt (offset : Nat) (text : String) : ((startingAt offset).append text).text = text := by
  simp [Word.append, startingAt]

theorem Word.append_nil (word : Word) : word.append "" = word := by
  simp [Word.append]

namespace Text

/-! ## Blanks and runs of characters -/

/-- Nothing is blank at the ends of a text. -/
def Trimmed (cs : List Char) : Prop :=
  (∀ c, cs.head? = some c → isBlank c = false) ∧ ∀ c, cs.getLast? = some c → isBlank c = false

/-- Characters at the end that fail a test are kept. -/
theorem dropWhile_eq_self {p : Char → Bool} {cs : List Char} (h : ∀ c, cs.head? = some c → p c = false) :
    cs.dropWhile p = cs := by
  cases cs with
  | nil => rfl
  | cons c cs => rw [List.dropWhile_cons_of_neg (by simp [h c rfl])]

/-- A run that is dropped ends in front of the first character that fails its test. -/
theorem dropWhile_append_of_neg {α : Type} {p : α → Bool} {a : α} (ha : ¬p a = true) (l more : List α) :
    (l ++ a :: more).dropWhile p = l.dropWhile p ++ a :: more := by
  induction l with
  | nil => exact List.dropWhile_cons_of_neg ha
  | cons b l ih =>
    rw [List.cons_append, List.dropWhile_cons, List.dropWhile_cons]
    split
    · exact ih
    · rfl

theorem mem_dropWhile_of_neg {α : Type} {p : α → Bool} {a : α} {l : List α} (h : a ∈ l) (ha : p a = false) : a ∈ l.dropWhile p := by
  rw [← List.takeWhile_append_dropWhile (p := p) (l := l), List.mem_append] at h
  refine h.resolve_left fun hrun => ?_
  rw [List.mem_takeWhile_imp hrun] at ha
  cases ha

theorem trimStart_eq_self {cs : List Char} (h : Trimmed cs) : trimStart cs = cs :=
  dropWhile_eq_self h.1

/-- A text without blanks at its ends is left as it is. -/
theorem trim_eq_self {cs : List Char} (h : Trimmed cs) : trim cs = cs := by
  have hend : cs.reverse.dropWhile isBlank = cs.reverse :=
    dropWhile_eq_self fun c hc => h.2 c (by rwa [List.head?_reverse] at hc)
  rw [trim, trimStart_eq_self h, trimEnd, hend, List.reverse_reverse]

/-- Trimming keeps the start of what is left when the blanks in front are dropped. -/
theorem trim_prefix (cs : List Char) : trim cs <+: trimStart cs := by
  rw [trim, trimEnd, ← List.reverse_suffix, List.reverse_reverse]
  exact List.dropWhile_suffix isBlank

/-- A trimmed text has no blanks at its ends. -/
theorem trimmed_trim (cs : List Char) : Trimmed (trim cs) := by
  refine ⟨fun c hc => ?_, fun c hc => ?_⟩
  · obtain ⟨rest, hrest⟩ := trim_prefix cs
    refine head?_trimStart cs c ?_
    rw [← hrest, List.head?_append, hc, Option.some_or]
  · rw [trim, trimEnd, List.getLast?_reverse] at hc
    exact head?_trimStart (trimStart cs).reverse c hc

/-- A text that is not changed by trimming has no blanks at its ends. -/
theorem trimmed_of_trim_eq {cs : List Char} (h : trim cs = cs) : Trimmed cs :=
  h ▸ trimmed_trim cs

/-- A run of characters that pass a test ends where the next one fails it. -/
theorem span_append {p : Char → Bool} {run rest : List Char} (hrun : ∀ c ∈ run, p c = true)
    (hrest : ∀ c, rest.head? = some c → p c = false) : (run ++ rest).span p = (run, rest) := by
  rw [List.span_eq_takeWhile_dropWhile, List.takeWhile_append_of_pos hrun, List.dropWhile_append_of_pos hrun,
    dropWhile_eq_self hrest]
  cases rest with
  | nil => simp
  | cons c rest => simp [hrest c rfl]

/-- How many bytes a text takes in UTF-8. -/
def byteSize : List Char → Nat
  | [] => 0
  | c :: cs => c.utf8Size + byteSize cs

theorem byteSize_append (cs ds : List Char) : byteSize (cs ++ ds) = byteSize cs + byteSize ds := by
  induction cs with
  | nil => simp [byteSize]
  | cons c cs ih => simp [byteSize, ih, Nat.add_assoc]

/-- The text after the bytes of its first part is the rest. -/
theorem dropBytes_append (cs rest : List Char) : dropBytes (byteSize cs) (cs ++ rest) = rest := by
  induction cs with
  | nil => cases rest <;> rfl
  | cons c cs ih =>
    have hpos : 0 < c.utf8Size := Char.utf8Size_pos c
    obtain ⟨n, hn⟩ : ∃ n, byteSize (c :: cs) = n + 1 := ⟨c.utf8Size + byteSize cs - 1, by simp only [byteSize]; omega⟩
    have hrest : n + 1 - c.utf8Size = byteSize cs := by
      simp only [byteSize] at hn
      omega
    rw [hn, List.cons_append, dropBytes, hrest, ih]

/-! ## Indices -/

/-- The digits of a number are digits, and there are some. -/
theorem toList_toString (n : Nat) : (toString n).toList = Nat.toDigits 10 n := by
  rw [Nat.toString_eq_repr, Nat.toList_repr]

theorem isDigit_of_mem_toString {n : Nat} {c : Char} (h : c ∈ (toString n).toList) : c.isDigit = true := by
  rw [toList_toString] at h
  exact Nat.isDigit_of_mem_toDigits (by decide) (by decide) h

theorem not_mem_toString {n : Nat} {c : Char} (h : c.isDigit = false) : c ∉ (toString n).toList := by
  intro hmem
  rw [isDigit_of_mem_toString hmem] at h
  cases h

theorem toString_ne_nil (n : Nat) : (toString n).toList ≠ [] := by
  rw [toList_toString]
  exact Nat.toDigits_ne_nil

/-- An index is read back. -/
theorem readIndex_toString {n : Nat} (h : n < indexBound) : readIndex (toString n) = some n := by
  have hall : (toString n).toList.all Char.isDigit = true := by
    rw [List.all_eq_true]
    exact fun c hc => isDigit_of_mem_toString hc
  have hvalue : Nat.ofDigitChars 10 (toString n).toList 0 = n := by
    rw [toList_toString]
    exact Nat.ofDigitChars_toDigits (by decide) (by decide)
  have hsome : ((toString n).toList.isEmpty || !(toString n).toList.all Char.isDigit) = false := by
    rw [hall, Bool.not_true, Bool.or_false, List.isEmpty_eq_false_iff]
    exact toString_ne_nil n
  simp only [readIndex, hsome, hvalue, if_pos h, Bool.false_eq_true, if_false]

/-! ## Scans -/

/-- A character that stands for itself in a word. -/
def isPlain (c : Char) : Bool :=
  !(isSeparator c || c == '"' || c == '\\')

/-- Whether the scan is inside quotes. -/
def Scan.isQuoted : Scan → Bool
  | quoted _ => true
  | _ => false

theorem Scan.isQuoted_between : between.isQuoted = false := rfl

theorem Scan.isQuoted_inside (word : Word) : (inside word).isQuoted = false := rfl

/-- Reading a text takes a scan from one place to another and finishes some words, whatever comes after it. -/
def Scans (pos : Nat) (scan : Scan) (cs : List Char) (words : List Word) (pos' : Nat) (scan' : Scan) : Prop :=
  ∀ rest, scanWords pos scan (cs ++ rest) = (scanWords pos' scan' rest).map (words ++ ·)

/-- A text that finishes no word. -/
theorem Scans.of_eq {pos pos' : Nat} {scan scan' : Scan} {cs : List Char}
    (h : ∀ rest, scanWords pos scan (cs ++ rest) = scanWords pos' scan' rest) : Scans pos scan cs [] pos' scan' := by
  intro rest
  rw [h]
  cases scanWords pos' scan' rest <;> rfl

theorem Scans.nil (pos : Nat) (scan : Scan) : Scans pos scan [] [] pos scan :=
  .of_eq fun _ => rfl

/-- One text after the other. -/
theorem Scans.append {pos pos' pos'' : Nat} {scan scan' scan'' : Scan} {cs ds : List Char} {words more : List Word}
    (h : Scans pos scan cs words pos' scan') (h' : Scans pos' scan' ds more pos'' scan'') :
    Scans pos scan (cs ++ ds) (words ++ more) pos'' scan'' := by
  intro rest
  rw [List.append_assoc, h, h']
  cases scanWords pos'' scan'' rest <;> simp [Except.map]

/-- A plain character belongs to the word that is open. -/
theorem scans_plain (pos : Nat) (scan : Scan) (hscan : scan.isQuoted = false) {c : Char} (hc : isPlain c = true) :
    Scans pos scan [c] [] (pos + c.utf8Size) (.inside ((scan.word pos).push c)) := by
  simp only [isPlain, Bool.not_eq_true', Bool.or_eq_false_iff, beq_eq_false_iff_ne] at hc
  obtain ⟨⟨hsep, hquote⟩, hslash⟩ := hc
  refine .of_eq fun rest => ?_
  rw [List.singleton_append]
  cases scan with
  | between =>
    rw [scanWords]
    all_goals simp [hquote, hslash, hsep]
  | inside word =>
    rw [scanWords]
    all_goals simp [hquote, hslash, hsep]
  | quoted word => cases hscan

/-- A double quote opens quoted text. -/
theorem scans_open (pos : Nat) (scan : Scan) (hscan : scan.isQuoted = false) :
    Scans pos scan ['"'] [] (pos + 1) (.quoted (scan.word pos)) := by
  refine .of_eq fun rest => ?_
  cases scan with
  | between => rfl
  | inside word => rfl
  | quoted word => cases hscan

/-- A double quote closes quoted text. -/
theorem scans_close (pos : Nat) (word : Word) : Scans pos (.quoted word) ['"'] [] (pos + 1) (.inside word) :=
  .of_eq fun _ => rfl

/-- A character between quotes, with its backslash where it needs one. -/
theorem scans_escapeQuoted (pos : Nat) (word : Word) (c : Char) :
    Scans pos (.quoted word) (escapeQuoted c) [] (pos + byteSize (escapeQuoted c)) (.quoted (word.push c)) := by
  refine .of_eq fun rest => ?_
  by_cases hquote : c = '"'
  · subst hquote
    rfl
  · by_cases hslash : c = '\\'
    · subst hslash
      rfl
    · have hesc : escapeQuoted c = [c] := by simp [escapeQuoted, hquote, hslash]
      rw [hesc, List.singleton_append, scanWords]
      all_goals simp [hquote, hslash, byteSize]

/-- A separator finishes the word that is open. -/
theorem scans_separator (pos : Nat) (scan : Scan) (hscan : scan.isQuoted = false) {c : Char} (hc : isSeparator c = true) :
    Scans pos scan [c] scan.finished (pos + c.utf8Size) .between := by
  have hquote : c ≠ '"' := by
    rintro rfl
    revert hc
    decide
  have hslash : c ≠ '\\' := by
    rintro rfl
    revert hc
    decide
  intro rest
  rw [List.singleton_append]
  cases scan with
  | between =>
    rw [scanWords]
    · rw [if_pos hc]
      cases scanWords (pos + c.utf8Size) .between rest <;> rfl
    all_goals simp [hquote, hslash]
  | inside word =>
    rw [scanWords]
    · rw [if_pos hc]
      cases scanWords (pos + c.utf8Size) .between rest <;> rfl
    all_goals simp [hquote, hslash]
  | quoted word => cases hscan

/-- At the end of a text the open word is the last one. -/
theorem scanWords_nil (pos : Nat) {scan : Scan} (hscan : scan.isQuoted = false) :
    scanWords pos scan [] = .ok scan.finished := by
  cases scan with
  | between => rfl
  | inside word => rfl
  | quoted word => cases hscan

/-! ## Words -/

/-- A text that adds another one to the word that is open. -/
def Writes (cs : List Char) (text : String) : Prop :=
  ∀ pos scan, scan.isQuoted = false → Scans pos scan cs [] (pos + byteSize cs) (.inside ((scan.word pos).append text))

theorem Writes.append {cs ds : List Char} {text more : String} (h : Writes cs text) (h' : Writes ds more) :
    Writes (cs ++ ds) (text ++ more) := by
  intro pos scan hscan
  have hboth := (h pos scan hscan).append (h' _ _ rfl)
  rwa [Nat.add_assoc, ← byteSize_append, Scan.word, Word.append_append] at hboth

/-- Plain characters write themselves into a word that is open. -/
theorem scans_plains {cs : List Char} (h : ∀ c ∈ cs, isPlain c = true) (pos : Nat) (word : Word) :
    Scans pos (.inside word) cs [] (pos + byteSize cs) (.inside (word.append (String.ofList cs))) := by
  induction cs generalizing pos word with
  | nil =>
    rw [String.ofList_nil, Word.append_nil]
    exact .nil pos _
  | cons c cs ih =>
    obtain ⟨hc, hcs⟩ := List.forall_mem_cons.1 h
    have hboth := (scans_plain pos (.inside word) rfl hc).append (ih hcs _ _)
    rwa [Nat.add_assoc, Scan.word, Word.push_eq, Word.append_append, ← String.ofList_append] at hboth

/-- Plain characters write themselves. -/
theorem writes_plains {cs : List Char} (hne : cs ≠ []) (h : ∀ c ∈ cs, isPlain c = true) : Writes cs (String.ofList cs) := by
  intro pos scan hscan
  cases cs with
  | nil => exact absurd rfl hne
  | cons c cs =>
    obtain ⟨hc, hcs⟩ := List.forall_mem_cons.1 h
    have hboth := (scans_plain pos scan hscan hc).append (scans_plains hcs _ _)
    rwa [Nat.add_assoc, Word.push_eq, Word.append_append, ← String.ofList_append] at hboth

/-- Escaped characters write themselves between quotes. -/
theorem scans_escaped (cs : List Char) (pos : Nat) (word : Word) :
    Scans pos (.quoted word) (cs.flatMap escapeQuoted) [] (pos + byteSize (cs.flatMap escapeQuoted))
      (.quoted (word.append (String.ofList cs))) := by
  induction cs generalizing pos word with
  | nil =>
    rw [String.ofList_nil, Word.append_nil]
    exact .nil pos _
  | cons c cs ih =>
    have hboth := (scans_escapeQuoted pos word c).append (ih _ _)
    rwa [Nat.add_assoc, ← byteSize_append, Word.push_eq, Word.append_append, ← String.ofList_append] at hboth

/-- A value without quotes is plain. -/
theorem isPlain_of_needsQuotes {value : String} (h : needsQuotes value = false) :
    value.toList ≠ [] ∧ ∀ c ∈ value.toList, isPlain c = true := by
  obtain ⟨hne, hplain⟩ := Bool.or_eq_false_iff.1 h
  refine ⟨by simpa using hne, fun c hc => ?_⟩
  rw [List.any_eq_false] at hplain
  rw [isPlain, Bool.not_eq_true']
  simpa using hplain c hc

/-- A quoted value writes the value. -/
theorem writes_quote (value : String) : Writes (quote value).toList value := by
  unfold quote
  cases hq : needsQuotes value with
  | false =>
    rw [if_neg Bool.false_ne_true]
    obtain ⟨hne, hplain⟩ := isPlain_of_needsQuotes hq
    have hwrites := writes_plains hne hplain
    rwa [String.ofList_toList] at hwrites
  | true =>
    rw [if_pos rfl, String.toList_ofList]
    intro pos scan hscan
    have hopen := (scans_open pos scan hscan).append (scans_escaped value.toList (pos + 1) (scan.word pos))
    have hclose := hopen.append (scans_close _ _)
    rw [String.ofList_toList] at hclose
    have hsize : pos + 1 + byteSize (value.toList.flatMap escapeQuoted) + 1 =
        pos + byteSize ('"' :: value.toList.flatMap escapeQuoted ++ ['"']) := by
      rw [byteSize_append]
      have hone : ('"' : Char).utf8Size = 1 := by decide
      simp only [byteSize, hone]
      omega
    rwa [hsize] at hclose

/-- Words that are written with a blank before each of them. -/
def spaced (tokens : List (List Char)) : List Char :=
  tokens.flatMap (' ' :: ·)

theorem spaced_append (tokens more : List (List Char)) : spaced (tokens ++ more) = spaced tokens ++ spaced more :=
  List.flatMap_append

/-- Words with blanks before them are read one after the other; the last one stays open. -/
theorem scans_spaced {tokens : List (List Char × String)} (h : ∀ token ∈ tokens, Writes token.1 token.2) (pos : Nat)
    (scan : Scan) (hscan : scan.isQuoted = false) :
    ∃ words scan', Scans pos scan (spaced (tokens.map (·.1))) words (pos + byteSize (spaced (tokens.map (·.1)))) scan' ∧
      scan'.isQuoted = false ∧ ∃ more, words ++ scan'.finished = scan.finished ++ more ∧
        more.map (·.text) = tokens.map (·.2) := by
  induction tokens generalizing pos scan with
  | nil => exact ⟨[], scan, .nil pos scan, hscan, [], by simp, rfl⟩
  | cons token tokens ih =>
    obtain ⟨htoken, htokens⟩ := List.forall_mem_cons.1 h
    have hblank := scans_separator pos scan hscan (show isSeparator ' ' = true by decide)
    have hword := hblank.append (htoken _ .between rfl)
    obtain ⟨words, scan', hrest, hscan', more, hfinished, htexts⟩ :=
      ih htokens _ (.inside ((Word.startingAt (pos + ' '.utf8Size)).append token.2)) rfl
    have hboth := hword.append hrest
    have hsize : pos + ' '.utf8Size + byteSize token.1 + byteSize (spaced (tokens.map (·.1))) =
        pos + byteSize (spaced ((token :: tokens).map (·.1))) := by
      simp only [spaced, List.map_cons, List.flatMap_cons, List.cons_append, byteSize, byteSize_append]
      omega
    have htext : spaced ((token :: tokens).map (·.1)) = [' '] ++ token.1 ++ spaced (tokens.map (·.1)) := by
      simp [spaced]
    rw [hsize, ← htext] at hboth
    refine ⟨_, scan', hboth, hscan', (Word.startingAt (pos + ' '.utf8Size)).append token.2 :: more, ?_, ?_⟩
    · rw [List.append_nil, List.append_assoc, hfinished]
      rfl
    · rw [List.map_cons, List.map_cons, htexts]
      simp [Word.append, Word.startingAt]

/-- Words that are written with blanks before them are read back. -/
theorem splitWords_spaced {tokens : List (List Char × String)} (h : ∀ token ∈ tokens, Writes token.1 token.2) :
    ∃ words, splitWords (spaced (tokens.map (·.1))) = .ok words ∧ words.map (·.text) = tokens.map (·.2) := by
  obtain ⟨words, scan', hscans, hscan', more, hfinished, htexts⟩ := scans_spaced h 0 .between rfl
  have hend := hscans []
  rw [List.append_nil, scanWords_nil _ hscan'] at hend
  exact ⟨_, hend, (congrArg (List.map (·.text)) hfinished).trans htexts⟩

/-- So they are where no blank is before the first. -/
theorem splitWords_cons_spaced {token : List Char × String} {tokens : List (List Char × String)}
    (htoken : Writes token.1 token.2) (htokens : ∀ token ∈ tokens, Writes token.1 token.2) :
    ∃ words, splitWords (token.1 ++ spaced (tokens.map (·.1))) = .ok words ∧
      words.map (·.text) = token.2 :: tokens.map (·.2) := by
  obtain ⟨words, scan', hscans, hscan', more, hfinished, htexts⟩ :=
    scans_spaced htokens _ (.inside ((Word.startingAt 0).append token.2)) rfl
  have hend := ((htoken 0 .between rfl).append hscans) []
  rw [List.append_nil, scanWords_nil _ hscan'] at hend
  refine ⟨_, hend, (congrArg (List.map (·.text)) hfinished).trans ?_⟩
  rw [List.map_append, htexts]
  simp [Scan.finished, Word.append, Word.startingAt]

/-! ## Pairs -/

/-- A key and a value with an equals sign between them are told apart again. -/
theorem splitPair_pair {key value : String} (hne : key.toList ≠ []) (hkey : '=' ∉ key.toList)
    (hvalue : Trimmed value.toList) : splitPair (key ++ "=" ++ value) = some (key, value) := by
  have hspan : (key ++ "=" ++ value).toList.span (· != '=') = (key.toList, '=' :: value.toList) := by
    have htext : (key ++ "=" ++ value).toList = key.toList ++ '=' :: value.toList := by simp
    rw [htext]
    refine span_append (fun c hc => ?_) (fun c hc => ?_)
    · have hne : c ≠ '=' := by
        rintro rfl
        exact hkey hc
      simpa using hne
    · simp only [List.head?_cons, Option.some.injEq] at hc
      simp [← hc]
  simp only [splitPair, hspan, trim_eq_self hvalue, String.ofList_toList]
  simp [hne]

/-- A text without an equals sign is no pair. -/
theorem splitPair_eq_none {word : String} (h : '=' ∉ word.toList) : splitPair word = none := by
  have hspan : word.toList.span (· != '=') = (word.toList, []) := by
    have happend : (word.toList ++ []).span (· != '=') = (word.toList, []) := by
      refine span_append (fun c hc => ?_) (by simp)
      have hne : c ≠ '=' := by
        rintro rfl
        exact h hc
      simpa using hne
    rwa [List.append_nil] at happend
  simp only [splitPair, hspan]

end Text

end RouterPlan
