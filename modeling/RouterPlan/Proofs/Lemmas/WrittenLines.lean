import RouterPlan.Proofs.Lemmas.PhysicalLines
import RouterPlan.Proofs.Lemmas.StatementText

/-!
# Reading back written lines, whatever is made of them

Written lines stay on their lines, and none of them looks wrapped, so the logical lines of a written text are the lines it was
made of, with line feeds between them (`Text.map_logicalLines`) or after each (`Text.map_logicalLines_flatMap`). `Statement.Reads`
says what some lines do to anything that follows statements, a script or a configuration, wherever the lines stand; a whole text
does what its lines do (`Statement.foldlM_intercalate`, `Statement.foldlM_join`).
-/

namespace RouterPlan

/-! ## Lines of a text -/

namespace Text

/-- A line that is read as it is: it has no line feed and no blank in front, and it is empty or ends in something that is kept. -/
structure IsLine (cs : List Char) : Prop where
  not_mem : '\n' ∉ cs
  head : ∀ c, cs.head? = some c → isBlank c = false
  ends : cs = [] ∨ Ends cs

theorem isLine_nil : IsLine [] where
  not_mem := List.not_mem_nil
  head := by
    intro c hc
    cases hc
  ends := .inl rfl

/-- The last character of a line is neither a blank nor a backslash. -/
theorem IsLine.getLast {cs : List Char} (h : IsLine cs) :
    ∀ c, cs.getLast? = some c → isBlank c = false ∧ c ≠ '\\' := by
  intro c hc
  rcases h.ends with rfl | ⟨d, hd, hblank, hslash⟩
  · cases hc
  · cases hd.symm.trans hc
    exact ⟨hblank, hslash⟩

theorem IsLine.trim_eq {cs : List Char} (h : IsLine cs) : trim cs = cs :=
  trim_eq_self ⟨h.head, fun c hc => (h.getLast c hc).1⟩

/-- A line ends at the line feed after it. -/
theorem lines_append {cs : List Char} (h : IsLine cs) (rest : List Char) : lines (cs ++ '\n' :: rest) = cs :: lines rest := by
  refine lines_append_break h.not_mem .feed (fun _ hlast => ?_) rest
  have hblank := (h.getLast _ hlast).1
  revert hblank
  decide

/-- The lines of a text are those that it was made of, if the last one is not empty. -/
theorem lines_intercalate {ls : List (List Char)} (h : ∀ l ∈ ls, IsLine l) (hlast : ls.getLast? ≠ some []) :
    lines (['\n'].intercalate ls) = ls := by
  induction ls with
  | nil => rfl
  | cons l ls ih =>
    obtain ⟨hl, hls⟩ := List.forall_mem_cons.1 h
    cases ls with
    | nil =>
      rw [List.intercalate_singleton]
      exact lines_eq_singleton hl.not_mem fun heq => hlast (heq ▸ rfl)
    | cons next ls =>
      rw [List.getLast?_cons_cons] at hlast
      rw [List.intercalate_cons_cons, List.append_assoc, List.singleton_append, lines_append hl, ih hls hlast]

/-- Lines with a line feed after each of them. -/
theorem lines_flatMap {ls : List (List Char)} (h : ∀ l ∈ ls, IsLine l) : lines (ls.flatMap (· ++ ['\n'])) = ls := by
  induction ls with
  | nil => rfl
  | cons l ls ih =>
    obtain ⟨hl, hls⟩ := List.forall_mem_cons.1 h
    rw [List.flatMap_cons, List.append_assoc, List.singleton_append, lines_append hl, ih hls]

/-- Lines that do not end in a backslash do not go on. -/
theorem map_joinWrapped {first next : Nat} {line : List Char} {ls : List (List Char)} (h : ∀ l ∈ line :: ls, IsLine l) :
    (joinWrapped first line next ls).map (·.2) = line :: ls := by
  induction ls generalizing first next line with
  | nil => rfl
  | cons physical ls ih =>
    obtain ⟨hline, hls⟩ := List.forall_mem_cons.1 h
    have hends : ¬GoesOn line (physical :: ls) := not_goesOn_of_getLast? (fun hlast => (hline.getLast _ hlast).2 rfl) _
    rw [joinWrapped_of_not_goesOn hends, List.map_cons, numbered, ih hls]

/-- The logical lines of a text are the lines that it was made of. -/
theorem map_logicalLines {ls : List (List Char)} (h : ∀ l ∈ ls, IsLine l) (hlast : ls.getLast? ≠ some []) :
    (logicalLines (['\n'].intercalate ls)).map (·.2) = ls := by
  rw [logicalLines, lines_intercalate h hlast]
  cases ls with
  | nil => rfl
  | cons line ls => exact map_joinWrapped h

/-- The logical lines of a text with a line feed after each line are those lines. -/
theorem map_logicalLines_flatMap {ls : List (List Char)} (h : ∀ l ∈ ls, IsLine l) :
    (logicalLines (ls.flatMap (· ++ ['\n']))).map (·.2) = ls := by
  rw [logicalLines, lines_flatMap h]
  cases ls with
  | nil => rfl
  | cons line ls => exact map_joinWrapped h

end Text

/-! ## Written lines are lines -/

/-- A written path is a line. -/
theorem Path.isLine_text {path : Path} (h : path.Printable) : Text.IsLine path.text.toList := by
  obtain ⟨⟨hne, hplain⟩, htail⟩ := List.forall_mem_cons.1 (isPlain_words h.plainSegments)
  refine ⟨?_, fun c hc => ?_, .inr ?_⟩
  · rw [toList_text]
    intro hmem
    rcases List.mem_append.1 hmem with hmem | hmem
    · exact Text.not_mem_of_isPlain hplain hmem
    · refine Text.not_mem_spaced (fun cs hcs => ?_) hmem
      obtain ⟨segment, hsegment, rfl⟩ := List.mem_map.1 hcs
      exact Text.not_mem_of_isPlain (htail segment hsegment).2
  · cases (Statement.head?_text path).symm.trans hc
    decide
  · rw [toList_text]
    by_cases hsegments : path.segments.tail = []
    · rw [hsegments]
      simpa [Text.spaced] using Text.ends_of_isPlain hne hplain
    · refine (Text.ends_spaced (fun heq => hsegments (List.map_eq_nil_iff.1 heq)) fun cs hcs => ?_).append _
      obtain ⟨segment, hsegment, rfl⟩ := List.mem_map.1 hcs
      exact Text.ends_of_isPlain (htail segment hsegment).1 (htail segment hsegment).2

/-- A written command stays on its line. -/
theorem Command.not_mem_text {command : Command} (h : command.Printable) : '\n' ∉ command.text.toList := by
  rw [toList_text h.accepted]
  intro hmem
  rcases List.mem_append.1 hmem with hmem | hmem
  · exact Text.not_mem_of_isPlain (isPlain_keyword command.keyword) hmem
  · exact not_mem_tokens h hmem

/-- A written command has something at its end that is kept. -/
theorem Command.ends_text {command : Command} (h : command.Printable) : Text.Ends command.text.toList := by
  rw [toList_text h.accepted]
  exact (ends_tokens h.accepted).append _

/-- A written command is a line. -/
theorem Command.isLine_text {command : Command} (h : command.Printable) : Text.IsLine command.text.toList := by
  refine ⟨not_mem_text h, fun c hc => ?_, .inr (ends_text h)⟩
  have hfirst : ∃ d, command.keyword.text.toList.head? = some d ∧ Text.isBlank d = false := by
    cases command.keyword <;> exact ⟨_, rfl, by decide⟩
  obtain ⟨d, hd, hblank⟩ := hfirst
  rw [toList_text h.accepted, List.head?_append, hd, Option.some_or, Option.some.injEq] at hc
  rwa [← hc]

/-- What is in front of a command with a path starts with a slash and is on one line. -/
theorem Path.toList_withCommand {path : Path} (h : path.Printable) (body : String) :
    ∃ before, (path.withCommand body).toList = before ++ body.toList ∧ before.head? = some '/' ∧ '\n' ∉ before := by
  rw [withCommand]
  split
  · exact ⟨['/'], by rw [String.toList_append]; rfl, rfl, by decide⟩
  · refine ⟨path.text.toList ++ [' '], by rw [String.toList_append, String.toList_append]; rfl, ?_, fun hmem => ?_⟩
    · rw [List.head?_append, Statement.head?_text, Option.some_or]
    · rcases List.mem_append.1 hmem with hmem | hmem
      · exact (isLine_text h).not_mem hmem
      · cases List.mem_singleton.1 hmem

/-- A command with a path is a line, and not an empty one. -/
theorem Path.isLine_withCommand {path : Path} (h : path.Printable) {body : String} (hfeed : '\n' ∉ body.toList)
    (hends : Text.Ends body.toList) :
    Text.IsLine (path.withCommand body).toList ∧ (path.withCommand body).toList ≠ [] := by
  obtain ⟨before, htext, hslash, hbefore⟩ := toList_withCommand h body
  rw [htext]
  refine ⟨⟨fun hmem => ?_, fun c hc => ?_, .inr (hends.append _)⟩, (hends.append _).ne_nil⟩
  · exact (List.mem_append.1 hmem).elim hbefore hfeed
  · rw [List.head?_append, hslash, Option.some_or] at hc
    cases hc
    decide

/-- A command with its path is a line. -/
theorem Path.isLine_command {path : Path} (h : path.Printable) {command : Command} (hcommand : command.Printable) :
    Text.IsLine (path.withCommand command.text).toList ∧ (path.withCommand command.text).toList ≠ [] :=
  isLine_withCommand h (Command.not_mem_text hcommand) (Command.ends_text hcommand)

/-- What asks for new numbers is a line. -/
theorem Path.isLine_refresh {path : Path} (h : path.Printable) :
    Text.IsLine (path.withCommand refreshWord).toList ∧ (path.withCommand refreshWord).toList ≠ [] :=
  isLine_withCommand h (by decide) ⟨'t', rfl, by decide, by decide⟩

/-! ## What lines do to what was read before them -/

namespace Statement

variable {σ : Type} {follow : σ → Statement → Except ParseError σ}

/-- Reading some lines takes what was made of the lines before them from one state to another, and changes the section that lines
speak about, whatever the numbers of the lines are and whatever comes after them. -/
def Reads (follow : σ → Statement → Except ParseError σ) (current : Path) (state : σ) (ls : List (List Char)) (current' : Path)
    (state' : σ) : Prop :=
  ∀ numbered rest, numbered.map (·.2) = ls →
    (ofLines current (numbered ++ rest)).foldlM follow state = (ofLines current' rest).foldlM follow state'

theorem Reads.nil (current : Path) (state : σ) : Reads follow current state [] current state := by
  intro numbered rest h
  rw [List.map_eq_nil_iff.1 h, List.nil_append]

/-- Some lines after others. -/
theorem Reads.append {current current' current'' : Path} {state state' state'' : σ} {ls more : List (List Char)}
    (h : Reads follow current state ls current' state') (h' : Reads follow current' state' more current'' state'') :
    Reads follow current state (ls ++ more) current'' state'' := by
  intro numbered rest hls
  obtain ⟨first, second, rfl, hfirst, hsecond⟩ := List.map_eq_append_iff.1 hls
  rw [List.append_assoc, h first _ hfirst, h' second _ hsecond]

/-- One line, before others. -/
theorem Reads.cons {current current' current'' : Path} {state state' state'' : σ} {line : List Char} {more : List (List Char)}
    (h : Reads follow current state [line] current' state') (h' : Reads follow current' state' more current'' state'') :
    Reads follow current state (line :: more) current'' state'' :=
  h.append h'

/-- A single line, by what it says. -/
theorem reads_singleton {current path current' : Path} {state state' : σ} {line : List Char} (hline : Text.IsLine line)
    (hne : line ≠ []) {directive : Directive} (hmeans : ofLine current line = (path, .ok directive))
    (hcurrent : (if directive = .enter then path else current) = current')
    (hfollow : ∀ number text, follow state ⟨number, text, path, .ok directive⟩ = .ok state') :
    Reads follow current state [line] current' state' := by
  intro numbered rest hls
  obtain ⟨numberedLine, rfl, rfl⟩ := List.map_eq_singleton_iff.1 hls
  obtain ⟨number, line⟩ := numberedLine
  have hsome : line.isEmpty = false := by simpa using hne
  have hcontent : ofLines current ((number, line) :: rest) =
      ⟨number, String.ofList line, path, .ok directive⟩ :: ofLines current' rest := by
    rw [← hcurrent]
    cases directive <;> simp [ofLines, hline.trim_eq, hsome, hmeans]
  rw [List.singleton_append, hcontent, List.foldlM_cons, hfollow]
  rfl

/-- An empty line says nothing. -/
theorem reads_nil (current : Path) (state : σ) : Reads follow current state [[]] current state := by
  intro numbered rest hls
  obtain ⟨numberedLine, rfl, hline⟩ := List.map_eq_singleton_iff.1 hls
  obtain ⟨number, line⟩ := numberedLine
  cases hline
  rfl

/-- A header is the section of the lines after it. -/
theorem reads_header (current : Path) {state state' : σ} {path : Path} (h : path.Printable)
    (hfollow : ∀ number text, follow state ⟨number, text, path, .ok .enter⟩ = .ok state') :
    Reads follow current state [path.text.toList] path state' :=
  reads_singleton (Path.isLine_text h) (List.ne_nil_of_mem (List.mem_of_head? (head?_text path)))
    (ofLine_text current h) (if_pos rfl) hfollow

/-- A command without a path is for the current section. -/
theorem reads_command (current : Path) {state state' : σ} {command : Command} (h : command.Printable)
    (hfollow : ∀ number text, follow state ⟨number, text, current, .ok (.edit command)⟩ = .ok state') :
    Reads follow current state [command.text.toList] current state' :=
  reads_singleton (Command.isLine_text h) (Command.ends_text h).ne_nil (ofLine_command current h) (if_neg (by simp)) hfollow

/-- A text does what its lines do. -/
theorem foldlM_of_reads {lines : List (List Char)} {numbered : List (Nat × List Char)} (hlines : numbered.map (·.2) = lines)
    {current : Path} {state state' : σ} (h : Reads follow .root state lines current state') :
    (ofLines .root numbered).foldlM follow state = .ok state' := by
  have hread := h _ [] hlines
  rw [List.append_nil] at hread
  exact hread

/-- A text that is made of lines with line feeds between them does what they do. -/
theorem foldlM_intercalate {ls : List String} (hlines : ∀ l ∈ ls, Text.IsLine l.toList) (hlast : ls.getLast? ≠ some "")
    {current : Path} {state state' : σ} (h : Reads follow .root state (ls.map (·.toList)) current state') :
    (ofText ("\n".intercalate ls)).foldlM follow state = .ok state' := by
  refine foldlM_of_reads ?_ h
  rw [String.toList_intercalate]
  refine Text.map_logicalLines (by simpa using hlines) fun heq => hlast ?_
  rw [List.getLast?_map, Option.map_eq_some_iff] at heq
  obtain ⟨l, hl, hnil⟩ := heq
  rw [hl, String.toList_eq_nil_iff.1 hnil]

/-- A text that is made of lines with a line feed after each of them does what they do. -/
theorem foldlM_join {ls : List String} (hlines : ∀ l ∈ ls, Text.IsLine l.toList) {current : Path} {state state' : σ}
    (h : Reads follow .root state (ls.map (·.toList)) current state') :
    (ofText (String.join (ls.map (· ++ "\n")))).foldlM follow state = .ok state' := by
  refine foldlM_of_reads ?_ h
  have hchars : (String.join (ls.map (· ++ "\n"))).toList = (ls.map (·.toList)).flatMap (· ++ ['\n']) := by
    simp [List.flatMap, Function.comp_def]
  rw [hchars]
  exact Text.map_logicalLines_flatMap (by simpa using hlines)

end Statement

end RouterPlan
