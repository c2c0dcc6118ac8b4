import RouterPlan.Proofs.Lemmas.Lists
import RouterPlan.Proofs.Lemmas.PhysicalLines
import RouterPlan.Reading

/-!
# Statements and the lines they stand on

Which statements a list of logical lines gives does not depend on their numbers, but for the numbers that the statements carry
(`Statement.map_unnumbered_ofLines`), so texts with the same logical lines are read alike. What carries over from some lines to those
after them is the section of the last header (`Statement.ofLines_append`).
-/

namespace RouterPlan

/-- The error without the number of its line. -/
def ParseError.unnumbered (e : ParseError) : ParseError :=
  { e with line := 0 }

namespace Statement

/-- The statement without the number of its line. -/
def unnumbered (s : Statement) : Statement :=
  { s with line := 0 }

/-! ## Numbers of lines -/

/-- The statements of lines do not depend on the numbers of the lines. -/
theorem map_unnumbered_ofLines {ls ls' : List (Nat × List Char)} (h : ls.map (·.2) = ls'.map (·.2)) (current : Path) :
    (ofLines current ls).map unnumbered = (ofLines current ls').map unnumbered := by
  induction ls generalizing ls' current with
  | nil =>
    rw [List.map_eq_nil_iff.1 h.symm]
  | cons l ls ih =>
    obtain ⟨number, raw⟩ := l
    obtain ⟨l', rest, rfl, hl, hrest⟩ := List.map_eq_cons_iff.1 h.symm
    obtain ⟨number', raw'⟩ := l'
    obtain rfl : raw' = raw := hl
    unfold ofLines
    dsimp only
    split
    · exact ih hrest.symm current
    · rw [List.map_cons, List.map_cons, ih hrest.symm]
      rfl

/-- What follows statements without looking at the numbers of their lines, but that errors carry them. -/
def IgnoresNumbers {σ : Type} (follow : σ → Statement → Except ParseError σ) : Prop :=
  ∀ state s, (follow state s).mapError ParseError.unnumbered = follow state s.unnumbered

/-- Statements come to the same without the numbers of their lines. -/
theorem mapError_foldlM {σ : Type} {follow : σ → Statement → Except ParseError σ} (h : IgnoresNumbers follow)
    (statements : List Statement) (state : σ) :
    (statements.foldlM follow state).mapError ParseError.unnumbered = (statements.map unnumbered).foldlM follow state := by
  induction statements generalizing state with
  | nil => rfl
  | cons s statements ih =>
    rw [List.map_cons, List.foldlM_cons, List.foldlM_cons, ← h state s]
    cases hs : follow state s with
    | error e => rfl
    | ok next => exact ih next

theorem ignoresNumbers_configuration : IgnoresNumbers Configuration.follow := by
  intro c s
  obtain ⟨line, text, path, content⟩ := s
  cases content with
  | error fault => rfl
  | ok directive =>
    cases directive with
    | comment text => rfl
    | enter => rfl
    | refresh => rfl
    | edit command =>
      simp only [Configuration.follow, unnumbered]
      rcases c.load path command with ⟨_ | _, _⟩ <;> rfl

theorem ignoresNumbers_script (order : OrderTable) : IgnoresNumbers (Script.follow order) := by
  intro script s
  obtain ⟨line, text, path, content⟩ := s
  cases content with
  | error fault => rfl
  | ok directive =>
    cases directive with
    | comment text => rfl
    | enter => rfl
    | refresh => rfl
    | edit command =>
      simp only [Script.follow, unnumbered]
      cases command.checkAllowed path (order.modeFor path) <;> rfl

/-- Texts with the same logical lines come to the same, and one is refused exactly if the other is. -/
theorem foldlM_ofText_congr {σ : Type} {follow : σ → Statement → Except ParseError σ} (h : IgnoresNumbers follow)
    {text text' : String} (hlines : (Text.logicalLines text.toList).map (·.2) = (Text.logicalLines text'.toList).map (·.2))
    (start state : σ) : (ofText text).foldlM follow start = .ok state ↔ (ofText text').foldlM follow start = .ok state := by
  have hsame : ((ofText text).foldlM follow start).mapError ParseError.unnumbered =
      ((ofText text').foldlM follow start).mapError ParseError.unnumbered := by
    rw [mapError_foldlM h, mapError_foldlM h, ofText, ofText, map_unnumbered_ofLines hlines]
  rw [← mapError_eq_ok_iff, hsame, mapError_eq_ok_iff]

/-! ## The section that lines speak about -/

/-- The words of a line that starts with a slash, if they can be told apart. -/
def pathWords? (line : List Char) : Option (List Word) :=
  if line.head? = some '/' then (Text.splitWords line).toOption else none

/-- The section that a line names, in front of a verb or as a header. -/
def namedPath? (line : List Char) : Option Path :=
  (pathWords? line).map fun words => (splitPath line [] words).1

/-- The section that a header names; other lines are no headers. -/
def headerPath? (line : List Char) : Option Path :=
  (pathWords? line).bind fun words =>
    match splitPath line [] words with
    | (path, none) => some path
    | (_, some _) => none

/-- The section of the last header among numbered lines, and the one of before if there is none. -/
def sectionAfter (current : Path) (ls : List (Nat × List Char)) : Path :=
  (ls.filterMap fun l => headerPath? (Text.trim l.2)).getLast?.getD current

theorem readBody_ne_enter (body : List Char) : readBody body ≠ .ok .enter := by
  unfold readBody
  split
  · exact fun h => by cases h
  · split <;> exact fun h => by cases h

/-- What a line can be: it names no section and is no header, or its words give a path, which a header ends with and a command
follows otherwise. -/
theorem ofLine_cases (current : Path) (line : List Char) :
    (pathWords? line = none ∧ (ofLine current line).1 = current ∧ (ofLine current line).2 ≠ .ok .enter) ∨
      ∃ words, pathWords? line = some words ∧
        ((∃ path, splitPath line [] words = (path, none) ∧ ofLine current line = (path, .ok .enter)) ∨
          ∃ path body, splitPath line [] words = (path, some body) ∧ ofLine current line = (path, readBody body)) := by
  by_cases hslash : line.head? = some '/'
  · obtain ⟨tail, rfl⟩ := List.head?_eq_some_iff.1 hslash
    unfold pathWords?
    rw [if_pos hslash]
    cases hwords : Text.splitWords ('/' :: tail) with
    | error cause =>
      have hline : ofLine current ('/' :: tail) = (current, .error (.lex cause)) := by
        simp only [ofLine, hwords]
      rw [hline]
      exact .inl ⟨rfl, rfl, fun h => by cases h⟩
    | ok words =>
      refine .inr ⟨words, rfl, ?_⟩
      cases hsplit : splitPath ('/' :: tail) [] words with
      | mk path body =>
        cases body with
        | none => exact .inl ⟨path, rfl, by simp only [ofLine, hwords, hsplit]⟩
        | some body => exact .inr ⟨path, body, rfl, by simp only [ofLine, hwords, hsplit]⟩
  · refine .inl ⟨if_neg hslash, ?_⟩
    unfold ofLine
    split
    · exact ⟨rfl, fun h => by cases h⟩
    · exact absurd rfl hslash
    · exact ⟨rfl, readBody_ne_enter line⟩

/-- A line is a header only if it starts with a slash and its words give the path and no verb. -/
theorem exists_of_ofLine {current path : Path} {line : List Char} (h : ofLine current line = (path, .ok .enter)) :
    ∃ words, Text.splitWords line = .ok words ∧ splitPath line [] words = (path, none) := by
  rcases ofLine_cases current line with ⟨-, -, hne⟩ | ⟨words, hwords, ⟨path', hsplit, hline⟩ | ⟨path', body, -, hline⟩⟩
  · rw [h] at hne
    exact absurd rfl hne
  · rw [h] at hline
    cases hline
    unfold pathWords? at hwords
    split at hwords
    · cases hsplitWords : Text.splitWords line with
      | error cause =>
        rw [hsplitWords] at hwords
        cases hwords
      | ok words' =>
        rw [hsplitWords] at hwords
        cases hwords
        exact ⟨words, rfl, hsplit⟩
    · cases hwords
  · rw [h] at hline
    exact absurd (Prod.mk.inj hline).2.symm (readBody_ne_enter body)

/-- A line speaks about the section that it names, and otherwise about the current one. -/
theorem fst_ofLine (current : Path) (line : List Char) : (ofLine current line).1 = (namedPath? line).getD current := by
  unfold namedPath?
  rcases ofLine_cases current line with ⟨hnone, hpath, -⟩ | ⟨words, hwords, ⟨path, hsplit, hline⟩ | ⟨path, body, hsplit, hline⟩⟩
  · rw [hnone, hpath]
    rfl
  · rw [hwords, hline, Option.map_some, hsplit]
    rfl
  · rw [hwords, hline, Option.map_some, hsplit]
    rfl

/-- The section of the lines after a line is that of the header, if it is one, and otherwise the current one. -/
theorem next_ofLine (current : Path) (line : List Char) :
    (match (ofLine current line).2 with
      | .ok .enter => (ofLine current line).1
      | _ => current) = (headerPath? line).getD current := by
  unfold headerPath?
  rcases ofLine_cases current line with ⟨hnone, -, hne⟩ | ⟨words, hwords, ⟨path, hsplit, hline⟩ | ⟨path, body, hsplit, hline⟩⟩
  · rw [hnone]
    split
    · rename_i henter
      exact absurd henter hne
    · rfl
  · rw [hwords, hline, Option.bind_some, hsplit]
    rfl
  · rw [hwords, hline, Option.bind_some, hsplit]
    dsimp only
    split
    · rename_i henter
      exact absurd henter (readBody_ne_enter body)
    · rfl

theorem sectionAfter_cons (current : Path) (l : Nat × List Char) (ls : List (Nat × List Char)) :
    sectionAfter current (l :: ls) = sectionAfter ((headerPath? (Text.trim l.2)).getD current) ls := by
  unfold sectionAfter
  rw [List.filterMap_cons]
  cases headerPath? (Text.trim l.2) with
  | none => rfl
  | some path => rw [List.getLast?_cons]; rfl

/-- The statement of a line that is not blank. -/
def ofNumbered (current : Path) (number : Nat) (raw : List Char) : Statement :=
  { line := number, text := String.ofList (Text.trim raw), path := (ofLine current (Text.trim raw)).1,
    content := (ofLine current (Text.trim raw)).2 }

/-- The statements of a line and those of the lines after it. -/
theorem ofLines_cons (current : Path) (number : Nat) (raw : List Char) (ls : List (Nat × List Char)) :
    ofLines current ((number, raw) :: ls) =
      (if (Text.trim raw).isEmpty then [] else [ofNumbered current number raw]) ++
        ofLines (sectionAfter current [(number, raw)]) ls := by
  have hnext : sectionAfter current [(number, raw)] = (headerPath? (Text.trim raw)).getD current := sectionAfter_cons _ _ _
  rw [ofLines]
  dsimp only
  split
  · rename_i hempty
    rw [hnext, List.isEmpty_iff.1 hempty]
    rfl
  · have hsame := (next_ofLine current (Text.trim raw)).trans hnext.symm
    exact congrArg (fun next => ofNumbered current number raw :: ofLines next ls) hsame

theorem sectionAfter_append (current : Path) (ls ls' : List (Nat × List Char)) :
    sectionAfter current (ls ++ ls') = sectionAfter (sectionAfter current ls) ls' := by
  unfold sectionAfter
  rw [List.filterMap_append, List.getLast?_append]
  cases (ls'.filterMap fun l => headerPath? (Text.trim l.2)).getLast? <;> rfl

/-- The lines after some others are read in the section that these leave. -/
theorem ofLines_append (current : Path) (ls ls' : List (Nat × List Char)) :
    ofLines current (ls ++ ls') = ofLines current ls ++ ofLines (sectionAfter current ls) ls' := by
  induction ls generalizing current with
  | nil => rfl
  | cons l ls ih =>
    obtain ⟨number, raw⟩ := l
    rw [List.cons_append, ofLines_cons, ofLines_cons, ih, ← sectionAfter_append, List.singleton_append, List.append_assoc]

/-- Every statement is that of a line, in the section that the lines before it leave. -/
theorem exists_of_ofLines {current : Path} {ls : List (Nat × List Char)} {pre post : List Statement} {s : Statement}
    (h : ofLines current ls = pre ++ s :: post) :
    ∃ before number raw after, ls = before ++ (number, raw) :: after ∧ ofLines current before = pre ∧
      ¬(Text.trim raw).isEmpty ∧ s = ofNumbered (sectionAfter current before) number raw := by
  induction ls generalizing current pre with
  | nil => cases pre <;> cases h
  | cons l ls ih =>
    obtain ⟨number, raw⟩ := l
    rw [ofLines_cons] at h
    have hafter : ∀ before, sectionAfter (sectionAfter current [(number, raw)]) before =
        sectionAfter current ((number, raw) :: before) :=
      fun before => (sectionAfter_append current [(number, raw)] before).symm
    split at h
    · rename_i hempty
      obtain ⟨before, number', raw', after, rfl, hpre, hs⟩ := ih h
      refine ⟨(number, raw) :: before, number', raw', after, rfl, ?_, hafter before ▸ hs⟩
      rw [ofLines_cons, if_pos hempty]
      exact hpre
    · rename_i hsome
      cases pre with
      | nil =>
        cases h
        exact ⟨[], number, raw, ls, rfl, rfl, hsome, rfl⟩
      | cons first pre =>
        obtain ⟨hfirst, hrest⟩ := List.cons.inj h
        obtain ⟨before, number', raw', after, rfl, hpre, hs⟩ := ih hrest
        refine ⟨(number, raw) :: before, number', raw', after, rfl, ?_, hafter before ▸ hs⟩
        rw [ofLines_cons, if_neg hsome, hpre, hfirst]
        rfl

end Statement

end RouterPlan
