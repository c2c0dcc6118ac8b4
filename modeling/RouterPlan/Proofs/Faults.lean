import RouterPlan.Pattern.Engine
import RouterPlan.Proofs.Lemmas.StatementLines

/-!
# Where a reading stops

Main statement: the error that ends a reading points at the first bad line (`read_error_exact`). The lines before it are accepted as a
text of their own, so the reading would not have stopped earlier, and nothing that comes after the line, or is put in its place, has
a part in the error. This is a matter of the order in which statements are followed: what a list of statements comes to is decided by
the first of them that is refused (`exists_refused_of_foldlM`). A line may be wrapped, so it is found among the physical lines by
`Text.numbered_split`; its section is the one that it names or else that of the last header before it (`Statement.fst_ofLine`).
-/

namespace RouterPlan

/-- A chain of steps that is refused has a first step that is refused, after others that go through. -/
theorem exists_refused_of_foldlM {α σ ε : Type} {step : σ → α → Except ε σ} {l : List α} {start : σ} {e : ε}
    (h : l.foldlM step start = .error e) :
    ∃ pre a post state, l = pre ++ a :: post ∧ pre.foldlM step start = .ok state ∧ step state a = .error e := by
  induction l generalizing start with
  | nil => cases h
  | cons a l ih =>
    rw [List.foldlM_cons] at h
    cases hstep : step start a with
    | error cause =>
      rw [hstep] at h
      cases h
      exact ⟨[], a, l, start, rfl, rfl, hstep⟩
    | ok next =>
      rw [hstep] at h
      obtain ⟨pre, b, post, state, rfl, hpre, hb⟩ := ih h
      refine ⟨a :: pre, b, post, state, rfl, ?_, hb⟩
      rw [List.foldlM_cons, hstep]
      exact hpre

/-- What comes after the first step that is refused has no part in it. -/
theorem foldlM_of_refused {α σ ε : Type} {step : σ → α → Except ε σ} {pre : List α} {a : α} {start state : σ} {e : ε}
    (hpre : pre.foldlM step start = .ok state) (ha : step state a = .error e) (post : List α) :
    (pre ++ a :: post).foldlM step start = .error e := by
  have hrest : (a :: post).foldlM step state = .error e := by
    rw [List.foldlM_cons, ha]
    rfl
  rw [List.foldlM_append, hpre]
  exact hrest

namespace Statement

/-- What follows statements so that an error tells where the statement stands that is refused. -/
def TellsPlace {σ : Type} (follow : σ → Statement → Except ParseError σ) : Prop :=
  ∀ state s e, follow state s = .error e → e.line = s.line ∧ e.text = s.text ∧ e.path = s.path

theorem tellsPlace_configuration : TellsPlace Configuration.follow := by
  intro c s e h
  unfold Configuration.follow at h
  split at h
  · cases h
    exact ⟨rfl, rfl, rfl⟩
  · cases h
  · cases h
  · cases h
  · split at h
    · cases h
    · cases h
      exact ⟨rfl, rfl, rfl⟩

theorem tellsPlace_script (order : OrderTable) : TellsPlace (Script.follow order) := by
  intro script s e h
  unfold Script.follow at h
  split at h
  · cases h
    exact ⟨rfl, rfl, rfl⟩
  · split at h
    · cases h
    · cases h
      exact ⟨rfl, rfl, rfl⟩
  · cases h

/-- What it means that an error of reading a text points at the first bad line. The physical lines of the text are those `before` the
bad line, its `own`, which are more than one if it is wrapped, and those `after` it; `line` is the bad line as a logical line. -/
structure FirstFault {σ : Type} (read : String → Except ParseError σ) (text : String) (e : ParseError)
    (before own after : List (List Char)) (line : List Char) : Prop where
  lines : Text.lines text.toList = before ++ own ++ after
  /-- The number is that of the first physical line of the bad line. -/
  number : e.line = before.length + 1
  joined : Text.numbered e.line own = [(e.line, line)]
  ends : ¬Text.GoesOn line after
  /-- It is one of the logical lines of the text. -/
  logical : Text.logicalLines text.toList =
    Text.numbered 1 before ++ (e.line, line) :: Text.numbered (e.line + own.length) after
  /-- The start of the text that has the lines before the bad one is accepted. -/
  start : ∃ start, start <+: text.toList ∧ Text.lines start = before ∧ ∃ state, read (String.ofList start) = .ok state
  /-- So is every text of the same physical lines. -/
  accepted : ∀ text', Text.lines text'.toList = before → ∃ state, read text' = .ok state
  /-- With other lines after the bad one, which do not continue it, the error is the same. -/
  same : ∀ text' after', Text.lines text'.toList = before ++ own ++ after' → ¬Text.GoesOn line after' → read text' = .error e
  shown : e.text = String.ofList (Text.trim line)
  /-- The section is the one that the line names, and otherwise that of the last header before it. -/
  path : e.path = (namedPath? (Text.trim line)).getD (sectionAfter .root (Text.numbered 1 before))

/-- A text whose statements are followed to an error has its first bad line where the error says. -/
theorem exists_firstFault {σ : Type} {follow : σ → Statement → Except ParseError σ} (hfollow : TellsPlace follow) {init : σ}
    {text : String} {e : ParseError} (h : (ofText text).foldlM follow init = .error e) :
    ∃ before own after line, FirstFault (fun text => (ofText text).foldlM follow init) text e before own after line := by
  obtain ⟨pre, s, post, state, hstatements, hpre, hs⟩ := exists_refused_of_foldlM h
  obtain ⟨hline, htext, hpath⟩ := hfollow state s e hs
  obtain ⟨first, number, line, rest, hlogical, rfl, hsome, rfl⟩ := exists_of_ofLines hstatements
  obtain rfl : e.line = number := hline
  rw [Text.logicalLines_eq] at hlogical
  obtain ⟨before, own, after, hlines, hnumber, rfl, hown, hends, hjoins⟩ := Text.numbered_split hlogical
  have haccepted : ∀ text', Text.lines text'.toList = before → ∃ state, (ofText text').foldlM follow init = .ok state := by
    intro text' h'
    refine ⟨state, ?_⟩
    rw [ofText, Text.logicalLines_eq, h']
    exact hpre
  refine ⟨before, own, after, line, ?_⟩
  exact {
    lines := hlines
    number := by omega
    joined := hown
    ends := hends
    logical := by rw [Text.logicalLines_eq, hlines, hjoins after hends]
    start := by
      have hbefore : Text.lines (Text.takeLines before.length text.toList) = before := by
        rw [Text.lines_takeLines, hlines, List.append_assoc, List.take_left]
      refine ⟨_, Text.takeLines_prefix before.length text.toList, hbefore, haccepted _ ?_⟩
      rw [String.toList_ofList, hbefore]
    accepted := haccepted
    same := by
      intro text' after' h' hends'
      show (ofText text').foldlM follow init = .error e
      rw [ofText, Text.logicalLines_eq, h', hjoins after' hends', ofLines_append, ofLines_cons, if_neg hsome]
      exact foldlM_of_refused hpre hs _
    shown := htext
    path := hpath.trans (fst_ofLine _ _) }

/-- An error that ends the reading of a text, as a configuration or as a script, points at the first bad line: the text up to the
physical line with its number is accepted, other lines after the bad one give the same error, its text is that line, and its section
is the one that the line names, if it can be cut into words, and otherwise that of the last header before it. -/
theorem read_error_exact (order : OrderTable) (text : String) (e : ParseError) :
    (Configuration.read order text = .error e →
      ∃ before own after line, FirstFault (Configuration.read order) text e before own after line) ∧
    (Script.read order text = .error e →
      ∃ before own after line, FirstFault (Script.read order) text e before own after line) :=
  ⟨exists_firstFault tellsPlace_configuration, exists_firstFault (tellsPlace_script order)⟩

/-- A text whose last line but one is wrapped and asks for a position in a section, not that of the header, that has none. -/
def faultySample : String :=
  "/ip firewall filter\nadd comment=a\n/ip route add \\\n    gateway=b\n/ip address add address=c \\\n    place-before=0\nprint\n"

/-- The error that the sample is refused with. -/
def faultyError : ParseError :=
  { line := 5, text := "/ip address add address=c place-before=0", path := ⟨["ip", "address"]⟩,
    fault := .integrity (.placementNotAllowed ⟨["ip", "address"]⟩ .unordered) }

/-- The error of a reading that is refused, which can be computed where its result cannot be compared. -/
theorem eq_error_iff {ε α : Type} {x : Except ε α} {e : ε} :
    x = .error e ↔ (match x with
      | .error cause => some cause
      | .ok _ => none) = some e := by
  cases x <;> simp

/-- The sample is refused, read either way, at its fifth physical line, and that is its first bad one. -/
theorem read_error_exact_wrapped :
    Configuration.read .builtin faultySample = .error faultyError ∧ Script.read .builtin faultySample = .error faultyError ∧
      (∃ before own after line, FirstFault (Configuration.read .builtin) faultySample faultyError before own after line) ∧
      ∃ before own after line, FirstFault (Script.read .builtin) faultySample faultyError before own after line := by
  obtain ⟨hconfiguration, hscript⟩ := read_error_exact .builtin faultySample faultyError
  have hread : Configuration.read .builtin faultySample = .error faultyError := eq_error_iff.2 (by decide +kernel)
  have hreadScript : Script.read .builtin faultySample = .error faultyError := eq_error_iff.2 (by decide +kernel)
  exact ⟨hread, hreadScript, hconfiguration hread, hscript hreadScript⟩

end Statement

end RouterPlan
