import RouterPlan.Proofs.Lemmas.CommandReading
import RouterPlan.Proofs.Lemmas.Pieces
import RouterPlan.Script.Render

/-!
# Reading back written lines

A header is read as its path (`Statement.ofLine_text`). On a line that starts with a path, the words of the path are told from the
command by its verb, and the command is cut off at the byte where that word starts (`Statement.ofLine_withCommand`).
-/

namespace RouterPlan

/-! ## Paths as words -/

namespace Path

/-- The first word of a written path. -/
def firstWord (path : Path) : String :=
  "/" ++ path.segments.headD ""

/-- The words of a written path. -/
def words (path : Path) : List String :=
  path.firstWord :: path.segments.tail

/-- A path is written as its first word and a blank before every further segment. -/
theorem toList_text (path : Path) :
    path.text.toList = path.firstWord.toList ++ Text.spaced (path.segments.tail.map (·.toList)) := by
  obtain ⟨segments⟩ := path
  cases segments with
  | nil => rfl
  | cons segment segments =>
    have hblank := Text.blank_intercalate (List.cons_ne_nil segment segments)
    have hparts : (" ".intercalate (segment :: segments)).toList = segment.toList ++ Text.spaced (segments.map (·.toList)) :=
      List.tail_eq_of_cons_eq hblank
    rw [text, String.toList_append, hparts, firstWord, String.toList_append, List.append_assoc]
    rfl

/-- Every segment stands for itself as a word; it may still be a verb. -/
def PlainSegments (path : Path) : Prop :=
  ∀ segment ∈ path.segments, Text.WritesPlain ['/', ';', '"', '\\'] segment

theorem Printable.plainSegments {path : Path} (h : path.Printable) : path.PlainSegments :=
  fun segment hmem => (h segment hmem).1

/-- The words of a path with plain segments are plain. -/
theorem isPlain_words {path : Path} (h : path.PlainSegments) :
    ∀ word ∈ path.words, word.toList ≠ [] ∧ ∀ c ∈ word.toList, Text.isPlain c = true := by
  have hsegment : ∀ segment ∈ path.segments, segment.toList ≠ [] ∧ ∀ c ∈ segment.toList, Text.isPlain c = true :=
    fun segment hmem => ⟨(h segment hmem).1, (h segment hmem).isPlain (by simp)⟩
  intro word hword
  rcases List.mem_cons.1 hword with rfl | hword
  · have hfirst : path.firstWord.toList = '/' :: (path.segments.headD "").toList := by
      rw [firstWord, String.toList_append]
      rfl
    rw [hfirst]
    refine ⟨List.cons_ne_nil _ _, List.forall_mem_cons.2 ⟨by decide, fun c hc => ?_⟩⟩
    cases hsegments : path.segments with
    | nil =>
      rw [hsegments] at hc
      cases hc
    | cons segment segments =>
      rw [hsegments] at hc hsegment
      exact (hsegment segment List.mem_cons_self).2 c hc
  · exact hsegment word (List.mem_of_mem_tail hword)

end Path

namespace Statement

/-- A segment has no slashes. -/
theorem not_slash {segment : String} (h : Text.WritesPlain ['/', ';', '"', '\\'] segment) :
    ∀ c ∈ segment.toList, (c == '/') = false := by
  intro c hc
  have hne : c ≠ '/' := by
    rintro rfl
    exact (h.2 _ hc).2 (by decide)
  simpa using hne

/-- A segment is no verb, and it is added to the path. -/
theorem splitPath_segment (line : List Char) (segments : List String) {segment : String}
    (h : Text.WritesPlain ['/', ';', '"', '\\'] segment ∧ segment ∉ verbs) {word : Word} (hword : word.text = segment)
    (words : List Word) : splitPath line segments (word :: words) = splitPath line (segments ++ [segment]) words := by
  obtain ⟨hplain, hverb⟩ := h
  have hslash := not_slash hplain
  have hspan : word.text.toList.span (· == '/') = ([], segment.toList) := by
    rw [hword]
    have hnil : ([] ++ segment.toList).span (· == '/') = ([], segment.toList) :=
      Text.span_append (by simp) fun c hc => hslash c (List.mem_of_head? hc)
    exact hnil
  have hfields : Text.fields (· == '/') word.text.toList = [segment.toList] := by
    rw [hword, Text.fields, Text.pieces_eq_singleton hslash]
    simp [hplain.1]
  have hcontains : verbs.contains segment = false := by simpa using hverb
  simp only [splitPath, hspan, hfields, String.ofList_toList, hcontains, Bool.false_and, List.map_cons, List.map_nil]
  rfl

/-- The word with the slash starts the path. -/
theorem splitPath_firstWord (line : List Char) {path : Path} (h : path.Printable) {word : Word}
    (hword : word.text = path.firstWord) (words : List Word) :
    splitPath line [] (word :: words) = splitPath line (path.segments.take 1) words := by
  obtain ⟨segments⟩ := path
  cases segments with
  | nil =>
    have hempty : word.text.toList = ['/'] := by
      rw [hword]
      rfl
    have hspan : ['/'].span (· == '/') = (['/'], []) := by decide
    have hfields : Text.fields (· == '/') ['/'] = [] := by decide
    have hcontains : verbs.contains (String.ofList []) = false := by decide +kernel
    simp only [splitPath, hempty, hspan, hfields, hcontains, Bool.false_and]
    rfl
  | cons segment segments =>
    obtain ⟨hplain, hverb⟩ := h segment List.mem_cons_self
    have hslash := not_slash hplain
    have htext : word.text.toList = ['/'] ++ segment.toList := by
      rw [hword, Path.firstWord, String.toList_append]
      rfl
    have hspan : (['/'] ++ segment.toList).span (· == '/') = (['/'], segment.toList) :=
      Text.span_append (by simp) fun c hc => hslash c (List.mem_of_head? hc)
    have hfields : Text.fields (· == '/') (['/'] ++ segment.toList) = [segment.toList] := by
      rw [List.singleton_append, Text.fields, Text.pieces_cons_of_separator (by decide), Text.pieces_eq_singleton hslash]
      simp [hplain.1]
    have hcontains : verbs.contains segment = false := by simpa using hverb
    simp only [splitPath, htext, hspan, hfields, String.ofList_toList, hcontains, Bool.false_and, List.map_cons, List.map_nil]
    rfl

/-- The words of a printable path are read as its segments. -/
theorem splitPath_words (line : List Char) {path : Path} (h : path.Printable) {words : List Word}
    (hwords : words.map (·.text) = path.words) (more : List Word) :
    splitPath line [] (words ++ more) = splitPath line path.segments more := by
  have hrest : ∀ (words : List Word) (segments before : List String), (∀ segment ∈ segments, segment ∈ path.segments) →
      words.map (·.text) = segments → splitPath line before (words ++ more) = splitPath line (before ++ segments) more := by
    intro words
    induction words with
    | nil =>
      rintro segments before - rfl
      rw [List.map_nil, List.append_nil, List.nil_append]
    | cons word words ih =>
      rintro segments before hmem rfl
      obtain ⟨hword, hwords⟩ := List.forall_mem_cons.1 hmem
      rw [List.cons_append, splitPath_segment line before (h _ hword) rfl, ih _ _ hwords rfl, List.map_cons,
        List.append_assoc, List.singleton_append]
  cases words with
  | nil => cases hwords
  | cons word words =>
    obtain ⟨hword, htail⟩ := List.cons.inj hwords
    rw [List.cons_append, splitPath_firstWord line h hword,
      hrest words path.segments.tail _ (fun _ hmem => List.mem_of_mem_tail hmem) htail, ← List.drop_one, List.take_append_drop]

/-! ## Lines that start with a path -/

/-- The words of a written path, and where the scan stands after it. -/
theorem scans_path {path : Path} (h : path.PlainSegments) :
    ∃ words scan, Text.Scans 0 .between path.text.toList words (0 + Text.byteSize path.text.toList) scan ∧
      scan.isQuoted = false ∧ (words ++ scan.finished).map (·.text) = path.words := by
  obtain ⟨⟨hne, hplain⟩, htail⟩ := List.forall_mem_cons.1 (Path.isPlain_words h)
  have hfirst := Text.writes_plains hne hplain 0 .between rfl
  rw [String.ofList_toList] at hfirst
  let tokens := path.segments.tail.map fun segment => (segment.toList, segment)
  have hwrites : ∀ token ∈ tokens, Text.Writes token.1 token.2 := by
    intro token hmem
    obtain ⟨segment, hsegment, rfl⟩ := List.mem_map.1 hmem
    have hwrites := Text.writes_plains (htail segment hsegment).1 (htail segment hsegment).2
    rwa [String.ofList_toList] at hwrites
  obtain ⟨words, scan, hscans, hscan, more, hfinished, htexts⟩ := Text.scans_spaced hwrites _ (.inside _) rfl
  have hboth := hfirst.append hscans
  have hchars : path.firstWord.toList ++ Text.spaced (tokens.map (·.1)) = path.text.toList := by
    rw [Path.toList_text, List.map_map]
    rfl
  rw [Nat.add_assoc, ← Text.byteSize_append, hchars] at hboth
  refine ⟨_, scan, hboth, hscan, ?_⟩
  have hsegments : tokens.map (·.2) = path.segments.tail := by simp [tokens, Function.comp_def]
  rw [List.nil_append, hfinished, List.map_append, htexts, hsegments]
  simp [Text.Scan.finished, Text.Scan.word, Word.append, Word.startingAt, Path.words]

/-- A written path is read as its words. -/
theorem splitWords_text {path : Path} (h : path.PlainSegments) :
    ∃ words, Text.splitWords path.text.toList = .ok words ∧ words.map (·.text) = path.words := by
  obtain ⟨words, scan, hscans, hscan, htexts⟩ := scans_path h
  have hend := hscans []
  rw [List.append_nil, Text.scanWords_nil _ hscan] at hend
  exact ⟨_, hend, htexts⟩

/-- A line that starts with a slash and ends before a verb is a header. -/
theorem ofLine_eq_enter (current : Path) {line : List Char} (hslash : line.head? = some '/') {words : List Word}
    (hwords : Text.splitWords line = .ok words) {path : Path} (hsplit : splitPath line [] words = (path, none)) :
    ofLine current line = (path, .ok .enter) := by
  obtain ⟨tail, rfl⟩ := List.head?_eq_some_iff.1 hslash
  simp only [ofLine, hwords, hsplit]

/-- A line that starts with a slash and goes on after its path is a command at that path. -/
theorem ofLine_eq_readBody (current : Path) {line : List Char} (hslash : line.head? = some '/') {words : List Word}
    (hwords : Text.splitWords line = .ok words) {path : Path} {body : List Char}
    (hsplit : splitPath line [] words = (path, some body)) : ofLine current line = (path, readBody body) := by
  obtain ⟨tail, rfl⟩ := List.head?_eq_some_iff.1 hslash
  simp only [ofLine, hwords, hsplit]

theorem head?_text (path : Path) : path.text.toList.head? = some '/' := by
  rw [Path.text, String.toList_append]
  rfl

/-- A written path is read as a header. -/
theorem ofLine_text (current : Path) {path : Path} (h : path.Printable) :
    ofLine current path.text.toList = (path, .ok .enter) := by
  obtain ⟨words, hwords, htexts⟩ := splitWords_text h.plainSegments
  have hsplit := splitPath_words path.text.toList h htexts []
  rw [List.append_nil] at hsplit
  exact ofLine_eq_enter current (head?_text path) hwords hsplit

/-- A verb takes the rest of the line, wherever it starts. -/
theorem splitPath_verb {line before body : List Char} (hline : line = before ++ body) (segments : List String) {word : Word}
    {slashes : List Char} {verb : String} (hverb : verb ∈ verbs)
    (hspan : word.text.toList.span (· == '/') = (slashes, verb.toList)) (hplace : slashes = [] ∨ segments = [])
    (hoffset : word.offset + slashes.length = Text.byteSize before) (words : List Word) :
    splitPath line segments (word :: words) = (⟨segments⟩, some body) := by
  have hstarts : (verbs.contains verb && (slashes.isEmpty || segments.isEmpty)) = true := by
    rw [Bool.and_eq_true, Bool.or_eq_true, List.contains_iff_mem, List.isEmpty_iff, List.isEmpty_iff]
    exact ⟨hverb, hplace⟩
  simp only [splitPath, hspan, String.ofList_toList, hstarts, if_true, hoffset, hline, Text.dropBytes_append]

/-- Verbs are plain. -/
theorem isPlain_verbs {verb : String} (h : verb ∈ verbs) :
    verb.toList ≠ [] ∧ ∀ c ∈ verb.toList, Text.isPlain c = true ∧ (c == '/') = false := by
  have hall : ∀ verb ∈ verbs, verb.toList ≠ [] ∧ verb.toList.all (fun c => Text.isPlain c && !(c == '/')) = true := by
    decide +kernel
  obtain ⟨hne, hchars⟩ := hall verb h
  refine ⟨hne, fun c hc => ?_⟩
  simpa using List.all_eq_true.1 hchars c hc

/-- After the root's slash comes the command. -/
theorem ofLine_root (current : Path) {verb body : String} (hverb : verb ∈ verbs) {rest : List Char}
    (hbody : body.toList = verb.toList ++ rest)
    (hrest : ∀ pos word, ∃ words, Text.scanWords pos (.inside word) rest = .ok (word :: words)) :
    ofLine current (Path.root.withCommand body).toList = (.root, readBody body.toList) := by
  obtain ⟨-, hplain⟩ := isPlain_verbs hverb
  have hline : (Path.root.withCommand body).toList = ['/'] ++ body.toList := by
    have hroot : Path.root.isRoot = true := rfl
    rw [Path.withCommand, if_pos hroot, String.toList_append]
    rfl
  -- the slash and the verb are one word
  have hwrites : Text.Writes (['/'] ++ verb.toList) (String.ofList (['/'] ++ verb.toList)) :=
    Text.writes_plains (List.cons_ne_nil _ _) (List.forall_mem_cons.2 ⟨by decide, fun c hc => (hplain c hc).1⟩)
  let word : Word := (Word.startingAt 0).append (String.ofList (['/'] ++ verb.toList))
  have hscans : Text.Scans 0 .between (['/'] ++ verb.toList) [] (0 + Text.byteSize (['/'] ++ verb.toList)) (.inside word) :=
    hwrites 0 .between rfl
  obtain ⟨more, hmore⟩ := hrest (0 + Text.byteSize (['/'] ++ verb.toList)) word
  have hwords := hscans rest
  rw [hmore, List.append_assoc, ← hbody, ← hline] at hwords
  have hspan : word.text.toList.span (· == '/') = (['/'], verb.toList) := by
    rw [Word.text_append_startingAt, String.toList_ofList]
    exact Text.span_append (by simp) fun c hc => (hplain c (List.mem_of_head? hc)).2
  exact ofLine_eq_readBody current (by rw [hline]; rfl) hwords (splitPath_verb hline [] hverb hspan (.inr rfl) rfl more)

/-- A line with a path and a command is read as the command at that path. -/
theorem ofLine_withCommand (current : Path) {path : Path} (h : path.Printable) {verb body : String} (hverb : verb ∈ verbs)
    {rest : List Char} (hbody : body.toList = verb.toList ++ rest)
    (hrest : ∀ pos word, ∃ words, Text.scanWords pos (.inside word) rest = .ok (word :: words)) :
    ofLine current (path.withCommand body).toList = (path, readBody body.toList) := by
  cases hroot : path.isRoot with
  | true =>
    have hpath : path = .root := congrArg Path.mk (List.isEmpty_iff.1 hroot)
    rw [hpath]
    exact ofLine_root current hverb hbody hrest
  | false =>
    obtain ⟨hne, hplain⟩ := isPlain_verbs hverb
    obtain ⟨words, scan, hscans, hscan, htexts⟩ := scans_path h.plainSegments
    have hline : (path.withCommand body).toList = path.text.toList ++ [' '] ++ body.toList := by
      rw [Path.withCommand, hroot, if_neg Bool.false_ne_true, String.toList_append, String.toList_append]
      rfl
    -- the blank finishes the last word of the path, and the verb is the word after it
    have hblank := hscans.append (Text.scans_separator _ scan hscan (show Text.isSeparator ' ' = true by decide))
    have hwrites := Text.writes_plains hne (fun c hc => (hplain c hc).1)
    rw [String.ofList_toList] at hwrites
    let start := 0 + Text.byteSize path.text.toList + ' '.utf8Size
    let word : Word := (Word.startingAt start).append verb
    have hword : Text.Scans start .between verb.toList [] (start + Text.byteSize verb.toList) (.inside word) :=
      hwrites start .between rfl
    obtain ⟨more, hmore⟩ := hrest (start + Text.byteSize verb.toList) word
    have hwords := (hblank.append hword) rest
    rw [hmore, List.append_assoc, ← hbody, ← hline, List.append_nil] at hwords
    have hspan : word.text.toList.span (· == '/') = ([], verb.toList) := by
      have hnil : ([] ++ verb.toList).span (· == '/') = ([], verb.toList) :=
        Text.span_append (by simp) fun c hc => (hplain c (List.mem_of_head? hc)).2
      rw [Word.text_append_startingAt]
      exact hnil
    have hoffset : word.offset + ([] : List Char).length = Text.byteSize (path.text.toList ++ [' ']) := by
      rw [Text.byteSize_append, ← Nat.zero_add (Text.byteSize path.text.toList)]
      rfl
    have hsplit := splitPath_words (path.withCommand body).toList h htexts (word :: more)
    rw [splitPath_verb hline path.segments hverb hspan (.inl rfl) hoffset more] at hsplit
    refine ofLine_eq_readBody current ?_ hwords hsplit
    rw [hline, List.append_assoc, List.head?_append, head?_text, Option.some_or]

/-- A word that only asks for new numbers. -/
theorem readBody_refreshWord : readBody refreshWord.toList = .ok .refresh := by
  decide +kernel

/-- A printable command is read as an edit. -/
theorem readBody_text {command : Command} (h : command.Printable) : readBody command.text.toList = .ok (.edit command) := by
  have hspan := Command.span_keyword command.keyword (Text.head?_spaced (Command.ends_tokens h.accepted).ne_nil)
  rw [List.span_eq_takeWhile_dropWhile] at hspan
  have hrefresh : isRefresh command.text.toList = false := by
    rw [isRefresh, Command.toList_text h.accepted, (Prod.mk.inj hspan).1, String.ofList_toList]
    cases command.keyword <;> decide
  rw [readBody, hrefresh, if_neg Bool.false_ne_true, Command.ofChars_text h.accepted h.plain]

/-- A printable command without a path is read as an edit of the current section. -/
theorem ofLine_command (current : Path) {command : Command} (h : command.Printable) :
    ofLine current command.text.toList = (current, .ok (.edit command)) := by
  rw [← readBody_text h, Command.toList_text h.accepted]
  cases command.keyword <;> rfl

/-- A printable command with a path is read as an edit there. -/
theorem ofLine_withCommand_text (current : Path) {path : Path} (hpath : path.Printable) {command : Command}
    (h : command.Printable) : ofLine current (path.withCommand command.text).toList = (path, .ok (.edit command)) := by
  have hverb : command.keyword.text ∈ verbs := by
    cases command.keyword <;> decide
  have hends := (Command.ends_tokens h.accepted).ne_nil
  rw [ofLine_withCommand current hpath hverb (Command.toList_text h.accepted)
    (Text.scanWords_balanced (Text.head?_spaced hends) (Command.balanced_tokens h)), readBody_text h]

/-- The line that asks a device for new numbers edits nothing. -/
theorem ofLine_withCommand_refreshWord (current : Path) {path : Path} (hpath : path.Printable) :
    ofLine current (path.withCommand refreshWord).toList = (path, .ok .refresh) := by
  have hverb : refreshWord ∈ verbs := by decide
  rw [ofLine_withCommand current hpath hverb (List.append_nil _).symm fun pos word => ⟨[], rfl⟩, readBody_refreshWord]

end Statement

end RouterPlan
