import RouterPlan.Text.Line

/-!
# Physical lines and the logical lines they make

How the physical lines of a text come about from the text (`Text.lines_append_break`), which lines a text has up to one of them
(`Text.lines_takeLines`), and how logical lines are made of physical ones. A logical line depends on the physical lines that it is
made of and on whether the next one goes on from it, and on nothing else (`Text.joinWrapped_split`); so the first logical lines of a
text stay as they are whatever is put in after them (`Text.numbered_split`).
-/

namespace RouterPlan.Text

/-! ## Line breaks -/

/-- What ends a physical line. -/
inductive LineBreak where
  | feed
  | returnFeed
deriving DecidableEq, Repr

/-- The characters of a line break. -/
def LineBreak.chars : LineBreak → List Char
  | feed => ['\n']
  | returnFeed => ['\r', '\n']

/-- A character that is no part of a line break goes in front of the first line, or makes the only one. -/
theorem lines_cons_eq {c : Char} (hc : c ≠ '\n') {cs : List Char} (hbreak : c = '\r' → cs.head? ≠ some '\n') :
    lines (c :: cs) = (c :: (lines cs).head?.getD []) :: (lines cs).tail := by
  rw [lines]
  · cases lines cs <;> rfl
  · rintro ds rfl rfl
    exact hbreak rfl rfl
  · rintro rfl
    exact hc rfl

theorem lines_cons {c : Char} (hc : c ≠ '\n') {cs : List Char} (hbreak : c = '\r' → cs.head? ≠ some '\n') {line : List Char}
    {ls : List (List Char)} (h : lines cs = line :: ls) : lines (c :: cs) = (c :: line) :: ls := by
  rw [lines_cons_eq hc hbreak, h]
  rfl

/-- A line ends at the line break after it. A carriage return at its end would be taken for a part of a single line feed. -/
theorem lines_append_break {cs : List Char} (hfeed : '\n' ∉ cs) (ending : LineBreak)
    (hreturn : ending = .feed → cs.getLast? ≠ some '\r') (rest : List Char) :
    lines (cs ++ (ending.chars ++ rest)) = cs :: lines rest := by
  induction cs with
  | nil => cases ending <;> rfl
  | cons c cs ih =>
    obtain ⟨hc, hcs⟩ := List.ne_and_not_mem_of_not_mem_cons hfeed
    cases cs with
    | nil =>
      refine lines_cons hc.symm ?_ (ih hcs (fun _ h => by cases h))
      intro hcr
      cases ending with
      | feed => exact absurd (congrArg some hcr) (hreturn rfl)
      | returnFeed => simp [LineBreak.chars]
    | cons d ds =>
      refine lines_cons hc.symm ?_ (ih hcs ?_)
      · intro _ hd
        cases hd
        exact hcs List.mem_cons_self
      · intro hending
        have hlast := hreturn hending
        rwa [List.getLast?_cons_cons] at hlast

/-- A text without line feeds is one line. -/
theorem lines_eq_singleton {cs : List Char} (h : '\n' ∉ cs) (hne : cs ≠ []) : lines cs = [cs] := by
  induction cs with
  | nil => exact absurd rfl hne
  | cons c cs ih =>
    obtain ⟨hc, hcs⟩ := List.ne_and_not_mem_of_not_mem_cons h
    cases cs with
    | nil => exact lines_cons_eq hc.symm (fun _ hhead => by cases hhead)
    | cons d ds =>
      refine lines_cons hc.symm (fun _ hd => ?_) (ih hcs (List.cons_ne_nil _ _))
      cases hd
      exact hcs List.mem_cons_self

/-! ## The first lines of a text -/

/-- The text up to the end of its first `n` physical lines, their line breaks included. -/
def takeLines : Nat → List Char → List Char
  | 0, _ => []
  | _ + 1, [] => []
  | n + 1, c :: cs => c :: takeLines (if c = '\n' then n else n + 1) cs

/-- It is where the text starts. -/
theorem takeLines_prefix (n : Nat) (cs : List Char) : takeLines n cs <+: cs := by
  induction cs generalizing n with
  | nil => cases n <;> exact List.prefix_refl []
  | cons c cs ih =>
    cases n with
    | zero => exact List.nil_prefix
    | succ n =>
      unfold takeLines
      rw [List.cons_prefix_cons]
      exact ⟨rfl, ih _⟩

/-- The first line of a text that is not empty starts as the text does. -/
theorem head?_takeLines_succ (n : Nat) (cs : List Char) : (takeLines (n + 1) cs).head? = cs.head? := by
  cases cs <;> rfl

/-- A first line goes on behind a character that is no part of a line break. -/
theorem lines_takeLines_cons {c : Char} (hc : c ≠ '\n') {cs : List Char} (hbreak : c = '\r' → cs.head? ≠ some '\n') {n : Nat}
    (h : lines (takeLines (n + 1) cs) = (lines cs).take (n + 1)) :
    lines (takeLines (n + 1) (c :: cs)) = (lines (c :: cs)).take (n + 1) := by
  have htake : takeLines (n + 1) (c :: cs) = c :: takeLines (n + 1) cs := by
    rw [takeLines, if_neg hc]
  rw [htake, lines_cons_eq hc hbreak, lines_cons_eq hc (head?_takeLines_succ n cs ▸ hbreak), h]
  cases lines cs <;> simp

theorem head?_ne_of_not_pair {c : Char} {cs : List Char} (h : ∀ ds, c = '\r' → cs = '\n' :: ds → False) :
    c = '\r' → cs.head? ≠ some '\n' := by
  intro hc hhead
  obtain ⟨ds, rfl⟩ := List.head?_eq_some_iff.1 hhead
  exact h ds hc rfl

/-- The lines of a text up to the end of its first lines are these. -/
theorem lines_takeLines (n : Nat) (cs : List Char) : lines (takeLines n cs) = (lines cs).take n := by
  induction cs using lines.induct generalizing n with
  | case1 => cases n <;> rfl
  | case2 cs ih =>
    cases n with
    | zero => rfl
    | succ n =>
      have htake : takeLines (n + 1) ('\r' :: '\n' :: cs) = '\r' :: '\n' :: takeLines n cs := rfl
      rw [htake, lines, lines, ih, List.take_succ_cons]
  | case3 cs ih =>
    cases n with
    | zero => rfl
    | succ n =>
      have htake : takeLines (n + 1) ('\n' :: cs) = '\n' :: takeLines n cs := rfl
      rw [htake, lines, lines, ih, List.take_succ_cons]
  | case4 c cs hpair hfeed hnil ih =>
    cases n with
    | zero => rfl
    | succ n => exact lines_takeLines_cons hfeed (head?_ne_of_not_pair hpair) (ih (n + 1))
  | case5 c cs hpair hfeed line rest hlines ih =>
    cases n with
    | zero => rfl
    | succ n => exact lines_takeLines_cons hfeed (head?_ne_of_not_pair hpair) (ih (n + 1))

/-! ## Logical lines -/

/-- The logical lines that physical lines make, the first of which has the number `first`. -/
def numbered (first : Nat) : List (List Char) → List (Nat × List Char)
  | [] => []
  | line :: rest => joinWrapped first line (first + 1) rest

theorem logicalLines_eq (cs : List Char) : logicalLines cs = numbered 1 (lines cs) := by
  unfold logicalLines
  cases lines cs <;> rfl

/-- Whether a line goes on in the first of the physical lines after it. -/
def GoesOn (line : List Char) (rest : List (List Char)) : Prop :=
  ∃ next ∈ rest.head?, (continued? line next).isSome

theorem not_goesOn_nil (line : List Char) : ¬GoesOn line [] := by
  rintro ⟨next, hnext, -⟩
  cases hnext

/-- A line that does not go on is a logical line. -/
theorem joinWrapped_of_not_goesOn {line : List Char} {rest : List (List Char)} (h : ¬GoesOn line rest) (first next : Nat) :
    joinWrapped first line next rest = (first, line) :: numbered next rest := by
  cases rest with
  | nil => rfl
  | cons physical rest =>
    have hnone : continued? line physical = none := by
      cases hc : continued? line physical with
      | none => rfl
      | some joined => exact absurd ⟨physical, rfl, by rw [hc]; rfl⟩ h
    rw [joinWrapped, hnone]
    rfl

/-- A line that does not end in a backslash does not go on. -/
theorem not_goesOn_of_getLast? {line : List Char} (h : line.getLast? ≠ some '\\') (rest : List (List Char)) :
    ¬GoesOn line rest := by
  rintro ⟨next, -, hsome⟩
  unfold continued? at hsome
  rw [if_neg fun hboth => h hboth.1] at hsome
  cases hsome

theorem goesOn_congr {line : List Char} {rest rest' : List (List Char)} (h : rest.head? = rest'.head?) :
    GoesOn line rest ↔ GoesOn line rest' := by
  unfold GoesOn
  rw [h]

/-- A line and the physical lines that it goes on in make one logical line, whatever comes after them that does not continue it. -/
theorem joinWrapped_split (first : Nat) (line : List Char) (next : Nat) (rest : List (List Char)) :
    ∃ own after joined, rest = own ++ after ∧ ¬GoesOn joined after ∧ ∀ after', ¬GoesOn joined after' →
      joinWrapped first line next (own ++ after') = (first, joined) :: numbered (next + own.length) after' := by
  induction rest generalizing line next with
  | nil =>
    exact ⟨[], [], line, rfl, not_goesOn_nil line, fun after' h => joinWrapped_of_not_goesOn h first next⟩
  | cons physical rest ih =>
    cases hc : continued? line physical with
    | none =>
      refine ⟨[], physical :: rest, line, rfl, ?_, fun after' h => joinWrapped_of_not_goesOn h first next⟩
      rintro ⟨next, hnext, hsome⟩
      cases hnext
      rw [hc] at hsome
      cases hsome
    | some together =>
      obtain ⟨own, after, joined, rfl, hends, hjoins⟩ := ih together (next + 1)
      refine ⟨physical :: own, after, joined, rfl, hends, fun after' h => ?_⟩
      rw [List.cons_append, joinWrapped, hc]
      simp only [hjoins after' h, List.length_cons]
      rw [Nat.add_assoc, Nat.add_comm 1]

/-- The first of the logical lines that physical lines make, and the others. -/
theorem numbered_cons_split {first n : Nat} {line : List Char} {ls : List (List Char)} {post : List (Nat × List Char)}
    (h : numbered first ls = (n, line) :: post) :
    n = first ∧ ∃ own after, ls = own ++ after ∧ ¬GoesOn line after ∧ ∀ after', ¬GoesOn line after' →
      numbered first (own ++ after') = (first, line) :: numbered (first + own.length) after' := by
  cases ls with
  | nil => cases h
  | cons physical rest =>
    obtain ⟨own, after, joined, rfl, hends, hjoins⟩ := joinWrapped_split first physical (first + 1) rest
    rw [numbered, hjoins after hends] at h
    cases h
    refine ⟨rfl, physical :: own, after, rfl, hends, fun after' h => ?_⟩
    rw [List.cons_append, numbered, hjoins after' h, List.length_cons, Nat.add_assoc, Nat.add_comm 1]

/-- The physical lines of the first logical lines make them, whatever comes after that starts like the rest or is nothing. -/
theorem numbered_append_split {first : Nat} {ls : List (List Char)} {pre post : List (Nat × List Char)}
    (h : numbered first ls = pre ++ post) :
    ∃ before rest, ls = before ++ rest ∧ post = numbered (first + before.length) rest ∧
      ∀ rest', rest' = [] ∨ rest'.head? = rest.head? →
        numbered first (before ++ rest') = pre ++ numbered (first + before.length) rest' := by
  induction pre generalizing first ls with
  | nil => exact ⟨[], ls, rfl, h.symm, fun rest' _ => rfl⟩
  | cons p pre ih =>
    obtain ⟨n, line⟩ := p
    obtain ⟨rfl, own, after, rfl, hends, hown⟩ := numbered_cons_split h
    rw [hown after hends] at h
    obtain ⟨before, rest, rfl, hpost, hrest⟩ := ih (List.cons.inj h).2
    refine ⟨own ++ before, rest, (List.append_assoc _ _ _).symm, ?_, fun rest' hrest' => ?_⟩
    · rw [hpost, List.length_append, Nat.add_assoc]
    · have hends' : ¬GoesOn line (before ++ rest') := by
        cases before with
        | nil =>
          rcases hrest' with rfl | hhead
          · exact not_goesOn_nil line
          · exact (not_congr (goesOn_congr hhead)).2 hends
        | cons b before => exact hends
      rw [List.append_assoc, hown _ hends', hrest rest' hrest', List.length_append, Nat.add_assoc, List.cons_append]

/-- The physical lines of one of the logical lines, those before it and those after it. The lines before it and its own make the same
logical lines whatever comes after that does not continue it. -/
theorem numbered_split {first n : Nat} {line : List Char} {ls : List (List Char)} {pre post : List (Nat × List Char)}
    (h : numbered first ls = pre ++ (n, line) :: post) :
    ∃ before own after, ls = before ++ own ++ after ∧ n = first + before.length ∧ numbered first before = pre ∧
      numbered n own = [(n, line)] ∧ ¬GoesOn line after ∧ ∀ after', ¬GoesOn line after' →
        numbered first (before ++ own ++ after') = pre ++ (n, line) :: numbered (n + own.length) after' := by
  obtain ⟨before, rest, rfl, hpost, hbefore⟩ := numbered_append_split h
  obtain ⟨rfl, own, after, rfl, hends, hown⟩ := numbered_cons_split hpost.symm
  have hsame : own ≠ [] := by
    rintro rfl
    have hnil := hown [] (not_goesOn_nil line)
    cases hnil
  refine ⟨before, own, after, (List.append_assoc _ _ _).symm, rfl, ?_, ?_, hends, fun after' h => ?_⟩
  · have hnil := hbefore [] (.inl rfl)
    rwa [List.append_nil, numbered, List.append_nil] at hnil
  · have hnil := hown [] (not_goesOn_nil line)
    rwa [List.append_nil, numbered] at hnil
  · rw [List.append_assoc, hbefore _ (.inr ?_), hown after' h]
    rw [List.head?_append, List.head?_append, List.head?_eq_some_head hsame]
    rfl

end RouterPlan.Text
