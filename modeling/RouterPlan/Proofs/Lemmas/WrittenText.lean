import RouterPlan.Printable
import RouterPlan.Proofs.Lemmas.Words

/-!
# What written texts look like

Where a written text starts and ends (`Starts`, `Ends`), and that it is on one line. A balanced text leaves no quote open, so the
word in front of it is finished and whatever comes after it is read on its own (`scanWords_balanced`). A locator is balanced too,
although a scan for words and the search for its end escape differently (`scans_locator`).
-/

namespace RouterPlan.Text

/-! ## Ends of written texts -/

/-- A text with something at its end that is neither dropped nor taken for a sign that the line goes on. -/
def Ends (cs : List Char) : Prop :=
  ∃ c, cs.getLast? = some c ∧ isBlank c = false ∧ c ≠ '\\'

theorem Ends.ne_nil {cs : List Char} (h : Ends cs) : cs ≠ [] := by
  rintro rfl
  obtain ⟨c, hc, -⟩ := h
  cases hc

/-- A text ends as its last part does. -/
theorem Ends.append {ds : List Char} (h : Ends ds) (cs : List Char) : Ends (cs ++ ds) := by
  obtain ⟨c, hc, hblank, hslash⟩ := h
  exact ⟨c, by rw [List.getLast?_append, hc, Option.some_or], hblank, hslash⟩

/-- A text with something at its start that is neither dropped nor taken for a locator. -/
def Starts (cs : List Char) : Prop :=
  ∃ c, cs.head? = some c ∧ isBlank c = false ∧ c ≠ '['

/-- A text starts as its first part does. -/
theorem Starts.append {cs : List Char} (h : Starts cs) (ds : List Char) : Starts (cs ++ ds) := by
  obtain ⟨c, hc, hblank, hopen⟩ := h
  exact ⟨c, by rw [List.head?_append, hc, Option.some_or], hblank, hopen⟩

theorem isBlank_of_isPlain {c : Char} (h : isPlain c = true) : isBlank c = false ∧ c ≠ '\\' := by
  simp only [isPlain, isSeparator, Bool.not_eq_true', Bool.or_eq_false_iff, beq_eq_false_iff_ne] at h
  exact ⟨h.1.1.1, h.2⟩

theorem ends_of_isPlain {cs : List Char} (hne : cs ≠ []) (h : ∀ c ∈ cs, isPlain c = true) : Ends cs := by
  obtain ⟨c, hc⟩ := Option.isSome_iff_exists.1 (List.getLast?_isSome.2 hne)
  exact ⟨c, hc, isBlank_of_isPlain (h c (List.mem_of_getLast? hc))⟩

theorem starts_of_isPlain {cs : List Char} (hne : cs ≠ []) (h : ∀ c ∈ cs, isPlain c = true) (hopen : cs.head? ≠ some '[') :
    Starts cs := by
  cases cs with
  | nil => exact absurd rfl hne
  | cons c cs => exact ⟨c, rfl, (isBlank_of_isPlain (h c List.mem_cons_self)).1, fun heq => hopen (congrArg some heq)⟩

/-- Plain text is on one line. -/
theorem not_mem_of_isPlain {cs : List Char} (h : ∀ c ∈ cs, isPlain c = true) : '\n' ∉ cs := by
  intro hmem
  have hplain := h _ hmem
  revert hplain
  decide

/-- What is plain in a text without certain characters. -/
theorem WritesPlain.isPlain {excluded : List Char} (hexcluded : [';', '"', '\\'] ⊆ excluded) {text : String}
    (h : WritesPlain excluded text) : ∀ c ∈ text.toList, isPlain c = true := by
  intro c hc
  obtain ⟨hblank, hnot⟩ := h.2 c hc
  have hne : ∀ d ∈ [';', '"', '\\'], c ≠ d := by
    rintro d hd rfl
    exact hnot (hexcluded hd)
  simp only [List.mem_cons, List.not_mem_nil, or_false, forall_eq_or_imp, forall_eq] at hne
  simp [Text.isPlain, isSeparator, hblank, hne]

/-- A digit is plain. -/
theorem isPlain_of_isDigit {c : Char} (h : c.isDigit = true) : isPlain c = true := by
  have hrange : 48 ≤ c.toNat ∧ c.toNat ≤ 57 := by
    simp only [Char.isDigit, Bool.and_eq_true, decide_eq_true_eq, UInt32.le_iff_toNat_le] at h
    exact h
  have hall : ∀ n < 58, 48 ≤ n → isPlain (Char.ofNat n) = true := by decide
  have hc := hall c.toNat (by omega) hrange.1
  rwa [Char.ofNat_toNat] at hc

/-- A quoted value ends with a plain character or a quote. -/
theorem ends_quote (value : String) : Ends (quote value).toList := by
  unfold quote
  cases hq : needsQuotes value with
  | false =>
    rw [if_neg Bool.false_ne_true]
    obtain ⟨hne, hplain⟩ := isPlain_of_needsQuotes hq
    exact ends_of_isPlain hne hplain
  | true =>
    rw [if_pos rfl, String.toList_ofList]
    have hquote : Ends ['"'] := ⟨'"', rfl, by decide, by decide⟩
    exact hquote.append ('"' :: value.toList.flatMap escapeQuoted)

/-- A quoted value starts with a plain character or a quote. -/
theorem starts_quote {value : String} (h : (quote value).toList.head? ≠ some '[') : Starts (quote value).toList := by
  unfold quote at h ⊢
  cases hq : needsQuotes value with
  | false =>
    rw [hq, if_neg Bool.false_ne_true] at h
    rw [if_neg Bool.false_ne_true]
    obtain ⟨hne, hplain⟩ := isPlain_of_needsQuotes hq
    exact starts_of_isPlain hne hplain h
  | true =>
    rw [if_pos rfl, String.toList_ofList]
    exact ⟨'"', rfl, by decide, by decide⟩

/-- Quoting adds no line feeds. -/
theorem not_mem_quote {value : String} (h : '\n' ∉ value.toList) : '\n' ∉ (quote value).toList := by
  unfold quote
  split
  · rw [String.toList_ofList]
    intro hmem
    rcases List.mem_append.1 hmem with hmem | hmem
    · rcases List.mem_cons.1 hmem with heq | hmem
      · cases heq
      · obtain ⟨c, hc, hesc⟩ := List.mem_flatMap.1 hmem
        unfold escapeQuoted at hesc
        split at hesc
        · rename_i hspecial
          rcases hspecial with rfl | rfl <;> revert hesc <;> decide
        · rw [List.mem_singleton] at hesc
          exact h (hesc ▸ hc)
    · cases List.mem_singleton.1 hmem
  · exact h

/-! ## Texts that leave no quote open -/

/-- A text after which a scan that was outside quotes is outside quotes again, so that whatever follows is read on its own. -/
def Balanced (cs : List Char) : Prop :=
  ∀ pos scan, scan.isQuoted = false → ∃ words pos' scan', Scans pos scan cs words pos' scan' ∧ scan'.isQuoted = false

theorem Balanced.append {cs ds : List Char} (h : Balanced cs) (h' : Balanced ds) : Balanced (cs ++ ds) := by
  intro pos scan hscan
  obtain ⟨words, pos', scan', hfirst, hscan'⟩ := h pos scan hscan
  obtain ⟨more, pos'', scan'', hsecond, hscan''⟩ := h' pos' scan' hscan'
  exact ⟨words ++ more, pos'', scan'', hfirst.append hsecond, hscan''⟩

theorem Writes.balanced {cs : List Char} {text : String} (h : Writes cs text) : Balanced cs :=
  fun pos scan hscan => ⟨_, _, _, h pos scan hscan, rfl⟩

theorem balanced_separator {c : Char} (hc : isSeparator c = true) : Balanced [c] :=
  fun pos scan hscan => ⟨_, _, _, scans_separator pos scan hscan hc, rfl⟩

theorem balanced_spaced {tokens : List (List Char)} (h : ∀ token ∈ tokens, Balanced token) : Balanced (spaced tokens) := by
  induction tokens with
  | nil => exact fun pos scan hscan => ⟨_, _, _, .nil pos scan, hscan⟩
  | cons token tokens ih =>
    obtain ⟨htoken, htokens⟩ := List.forall_mem_cons.1 h
    have hblank : Balanced [' '] := balanced_separator (by decide)
    exact (hblank.append htoken).append (ih htokens)

/-- At the start of a balanced text with a blank in front, the word that was open before it is finished. -/
theorem scanWords_balanced {cs : List Char} (hblank : cs.head? = some ' ') (h : Balanced cs) (pos : Nat) (word : Word) :
    ∃ words, scanWords pos (.inside word) cs = .ok (word :: words) := by
  obtain ⟨ds, rfl⟩ := List.head?_eq_some_iff.1 hblank
  have hsep : isSeparator ' ' = true := by decide
  obtain ⟨words, pos', scan', hscans, hscan'⟩ := h pos .between rfl
  have hall := hscans []
  rw [List.append_nil, scanWords_nil _ hscan'] at hall
  have hrest := scans_separator pos .between rfl hsep ds
  rw [List.singleton_append, hall] at hrest
  have hfirst := scans_separator pos (.inside word) rfl hsep ds
  rw [List.singleton_append] at hfirst
  cases hds : scanWords (pos + ' '.utf8Size) .between ds with
  | error cause =>
    rw [hds] at hrest
    cases hrest
  | ok more =>
    rw [hds] at hfirst
    exact ⟨more, hfirst⟩

/-! ## Locators

A scan for words and the search for the end of a locator skip other characters after a backslash between quotes. Both are
inside quotes at the same places all the same, because a quote after a backslash counts for neither. -/

/-- A double quote opens or closes; other characters leave the scan inside or outside quotes as it was. -/
theorem scans_single (pos : Nat) (scan : Scan) {c : Char} (hc : c ≠ '\\') :
    ∃ words pos' scan', Scans pos scan [c] words pos' scan' ∧
      scan'.isQuoted = if c = '"' then !scan.isQuoted else scan.isQuoted := by
  by_cases hquote : c = '"'
  · subst hquote
    cases hscan : scan.isQuoted with
    | false => exact ⟨_, _, _, scans_open pos scan hscan, rfl⟩
    | true =>
      cases scan with
      | quoted word => exact ⟨_, _, _, scans_close pos word, rfl⟩
      | between => cases hscan
      | inside word => cases hscan
  · rw [if_neg hquote]
    cases hscan : scan.isQuoted with
    | false =>
      cases hsep : isSeparator c with
      | true => exact ⟨_, _, _, scans_separator pos scan hscan hsep, rfl⟩
      | false =>
        have hplain : isPlain c = true := by simp [isPlain, hsep, hquote, hc]
        exact ⟨_, _, _, scans_plain pos scan hscan hplain, rfl⟩
    | true =>
      cases scan with
      | quoted word =>
        have hesc := scans_escapeQuoted pos word c
        have hself : escapeQuoted c = [c] := by simp [escapeQuoted, hquote, hc]
        rw [hself] at hesc
        exact ⟨_, _, _, hesc, rfl⟩
      | between => cases hscan
      | inside word => cases hscan

/-- A backslash and the character after it leave the scan inside or outside quotes as it was. -/
theorem scans_backslash (pos : Nat) (scan : Scan) (c : Char) :
    ∃ words pos' scan', Scans pos scan ['\\', c] words pos' scan' ∧ scan'.isQuoted = scan.isQuoted := by
  cases scan with
  | between => exact ⟨_, _, .inside ((Word.startingAt pos).push c), .of_eq fun _ => rfl, rfl⟩
  | inside word => exact ⟨_, _, .inside (word.push c), .of_eq fun _ => rfl, rfl⟩
  | quoted word =>
    by_cases hspecial : c = '"' ∨ c = '\\'
    · have hesc := scans_escapeQuoted pos word c
      rw [escapeQuoted, if_pos hspecial] at hesc
      exact ⟨_, _, _, hesc, rfl⟩
    · obtain ⟨hquote, hslash⟩ := not_or.1 hspecial
      -- here the backslash stands for itself, and so does the character
      refine ⟨_, pos + '\\'.utf8Size + c.utf8Size, .quoted ((word.push '\\').push c), .of_eq fun rest => ?_, rfl⟩
      rw [List.cons_append, List.singleton_append, scanWords, scanWords]
      all_goals simp [hquote, hslash]

/-- A text is taken apart from the front, a character after a backslash together with the backslash. -/
theorem backslash_induction {P : List Char → Prop} (nil : P []) (last : P ['\\'])
    (escape : ∀ c cs, P cs → P ('\\' :: c :: cs)) (single : ∀ c cs, c ≠ '\\' → P cs → P (c :: cs)) : ∀ cs, P cs
  | [] => nil
  | [c] => if h : c = '\\' then h ▸ last else single c [] h nil
  | c :: d :: cs =>
    if h : c = '\\' then h ▸ escape d cs (backslash_induction nil last escape single cs)
    else single c (d :: cs) h (backslash_induction nil last escape single (d :: cs))

/-- Whether a locator ends at a character does not depend on what comes after it. -/
theorem splitLocator_cons {c : Char} (hc : c ≠ '\\') (depth : Nat) (quoted : Bool) :
    (c = ']' ∧ quoted = false ∧ ∀ cs, Command.splitLocator depth quoted (c :: cs) = some ([c], cs)) ∨
      ∃ deep, ∀ cs, Command.splitLocator depth quoted (c :: cs) =
        (Command.splitLocator deep (if c = '"' then !quoted else quoted) cs).map fun parts => (c :: parts.1, parts.2) := by
  let now := if c = '"' then !quoted else quoted
  let deep := if now then depth else if c = '[' then depth + 1 else if c = ']' then depth - 1 else depth
  by_cases hclose : c = ']' ∧ (!now) = true ∧ deep = 0
  · refine .inl ⟨hclose.1, ?_, fun cs => ?_⟩
    · have hnow : now = quoted := if_neg (by rw [hclose.1]; decide)
      rw [← hnow]
      simpa using hclose.2.1
    · rw [Command.splitLocator]
      · exact if_pos hclose
      all_goals simp [hc]
  · refine .inr ⟨deep, fun cs => ?_⟩
    rw [Command.splitLocator]
    · exact if_neg hclose
    all_goals simp [hc]

/-- The text of a locator ends outside quotes. -/
theorem scans_locator {depth : Nat} {quoted : Bool} {cs locator rest : List Char}
    (h : Command.splitLocator depth quoted cs = some (locator, rest)) (pos : Nat) (scan : Scan)
    (hscan : scan.isQuoted = quoted) :
    ∃ words pos' scan', Scans pos scan locator words pos' scan' ∧ scan'.isQuoted = false := by
  induction cs using backslash_induction generalizing depth quoted locator rest pos scan with
  | nil => cases h
  | last => cases h
  | escape c cs ih =>
    rw [Command.splitLocator, Option.map_eq_some_iff] at h
    obtain ⟨⟨tail, rest'⟩, htail, heq⟩ := h
    cases heq
    obtain ⟨words, pos', scan', hfirst, hscan'⟩ := scans_backslash pos scan c
    obtain ⟨more, pos'', scan'', hsecond, hend⟩ := ih htail pos' scan' (hscan'.trans hscan)
    exact ⟨_, _, _, hfirst.append hsecond, hend⟩
  | single c cs hc ih =>
    obtain ⟨words, pos', scan', hfirst, hscan'⟩ := scans_single pos scan hc
    rw [hscan] at hscan'
    rcases splitLocator_cons hc depth quoted with ⟨rfl, rfl, hsplit⟩ | ⟨deep, hsplit⟩
    · rw [hsplit] at h
      cases h
      exact ⟨words, pos', scan', hfirst, hscan'⟩
    · rw [hsplit, Option.map_eq_some_iff] at h
      obtain ⟨⟨tail, rest'⟩, htail, heq⟩ := h
      cases heq
      obtain ⟨more, pos'', scan'', hsecond, hend⟩ := ih htail pos' scan' hscan'
      exact ⟨_, _, _, hfirst.append hsecond, hend⟩

/-- What is cut off a text is cut off a longer one too. -/
theorem splitLocator_append {depth : Nat} {quoted : Bool} {cs locator rest : List Char}
    (h : Command.splitLocator depth quoted cs = some (locator, rest)) (more : List Char) :
    Command.splitLocator depth quoted (cs ++ more) = some (locator, rest ++ more) := by
  induction cs using backslash_induction generalizing depth quoted locator rest with
  | nil => cases h
  | last => cases h
  | escape c cs ih =>
    rw [Command.splitLocator, Option.map_eq_some_iff] at h
    obtain ⟨⟨tail, rest'⟩, htail, heq⟩ := h
    cases heq
    rw [List.cons_append, List.cons_append, Command.splitLocator, ih htail, Option.map_some]
  | single c cs hc ih =>
    rw [List.cons_append]
    rcases splitLocator_cons hc depth quoted with ⟨rfl, rfl, hsplit⟩ | ⟨deep, hsplit⟩
    · rw [hsplit] at h
      cases h
      exact hsplit _
    · rw [hsplit, Option.map_eq_some_iff] at h
      obtain ⟨⟨tail, rest'⟩, htail, heq⟩ := h
      cases heq
      rw [hsplit, ih htail, Option.map_some]

/-- A locator that was cut off is cut off whole, with nothing after it. -/
theorem splitLocator_self {depth : Nat} {quoted : Bool} {cs locator rest : List Char}
    (h : Command.splitLocator depth quoted cs = some (locator, rest)) :
    Command.splitLocator depth quoted locator = some (locator, []) := by
  induction cs using backslash_induction generalizing depth quoted locator rest with
  | nil => cases h
  | last => cases h
  | escape c cs ih =>
    rw [Command.splitLocator, Option.map_eq_some_iff] at h
    obtain ⟨⟨tail, rest'⟩, htail, heq⟩ := h
    cases heq
    rw [Command.splitLocator, ih htail, Option.map_some]
  | single c cs hc ih =>
    rcases splitLocator_cons hc depth quoted with ⟨rfl, rfl, hsplit⟩ | ⟨deep, hsplit⟩
    · rw [hsplit] at h
      cases h
      exact hsplit _
    · rw [hsplit, Option.map_eq_some_iff] at h
      obtain ⟨⟨tail, rest'⟩, htail, heq⟩ := h
      cases heq
      rw [hsplit, ih htail, Option.map_some]

/-- A locator starts as the text that it was cut off. -/
theorem head?_splitLocator {depth : Nat} {quoted : Bool} {cs locator rest : List Char}
    (h : Command.splitLocator depth quoted cs = some (locator, rest)) : locator.head? = cs.head? := by
  cases cs using backslash_induction with
  | nil => cases h
  | last => cases h
  | escape c cs =>
    rw [Command.splitLocator, Option.map_eq_some_iff] at h
    obtain ⟨parts, -, heq⟩ := h
    cases heq
    rfl
  | single c cs hc =>
    rcases splitLocator_cons hc depth quoted with ⟨rfl, rfl, hsplit⟩ | ⟨deep, hsplit⟩
    · rw [hsplit] at h
      cases h
      rfl
    · rw [hsplit, Option.map_eq_some_iff] at h
      obtain ⟨parts, -, heq⟩ := h
      cases heq
      rfl

/-! ## Words with blanks before them -/

/-- Words that are written with blanks before them are on one line if each of them is. -/
theorem not_mem_spaced {tokens : List (List Char)} (h : ∀ token ∈ tokens, '\n' ∉ token) : '\n' ∉ spaced tokens := by
  intro hmem
  obtain ⟨token, htoken, hmem⟩ := List.mem_flatMap.1 hmem
  rcases List.mem_cons.1 hmem with heq | hmem
  · cases heq
  · exact h token htoken hmem

/-- Words that are written with blanks before them start with a blank. -/
theorem head?_spaced {tokens : List (List Char)} (h : spaced tokens ≠ []) : (spaced tokens).head? = some ' ' := by
  cases tokens with
  | nil => exact absurd rfl h
  | cons token tokens => rfl

/-- Words that are written with blanks before them end as the last of them does. -/
theorem ends_spaced {tokens : List (List Char)} (hne : tokens ≠ []) (h : ∀ token ∈ tokens, Ends token) :
    Ends (spaced tokens) := by
  induction tokens with
  | nil => exact absurd rfl hne
  | cons token tokens ih =>
    obtain ⟨htoken, htokens⟩ := List.forall_mem_cons.1 h
    rw [spaced, List.flatMap_cons]
    cases tokens with
    | nil => simpa using htoken.append [' ']
    | cons next tokens => exact (ih (List.cons_ne_nil _ _) htokens).append _

@[simp] theorem toString_text (text : String) : toString text = text := rfl

/-- Parts with blanks between them, and one in front. -/
theorem blank_intercalate {parts : List String} (hne : parts ≠ []) :
    ' ' :: (" ".intercalate parts).toList = spaced (parts.map (·.toList)) := by
  rw [String.toList_intercalate]
  induction parts with
  | nil => exact absurd rfl hne
  | cons part parts ih =>
    cases parts with
    | nil => simp [spaced, List.intercalate]
    | cons next parts =>
      rw [List.map_cons, List.map_cons, List.intercalate_cons_cons, ← List.map_cons]
      have hrest := ih (List.cons_ne_nil _ _)
      simp only [spaced, List.map_cons, List.flatMap_cons] at hrest ⊢
      rw [← hrest]
      simp

/-- Indices need no quotes. -/
theorem quote_toString (n : Nat) : quote (toString n) = toString n := by
  have hplain : needsQuotes (toString n) = false := by
    rw [needsQuotes, Bool.or_eq_false_iff, List.any_eq_false]
    refine ⟨by simp, fun c hc => ?_⟩
    have h := isPlain_of_isDigit (isDigit_of_mem_toString hc)
    rw [isPlain, Bool.not_eq_true'] at h
    simp [h]
  rw [quote, hplain, if_neg Bool.false_ne_true]

theorem printableValue_toString (n : Nat) : PrintableValue (toString n) := by
  have hplain : ∀ c ∈ (toString n).toList, isPlain c = true := fun c hc => isPlain_of_isDigit (isDigit_of_mem_toString hc)
  refine ⟨not_mem_of_isPlain hplain, trim_eq_self ⟨fun c hc => ?_, fun c hc => ?_⟩⟩
  · exact (isBlank_of_isPlain (hplain c (List.mem_of_head? hc))).1
  · exact (isBlank_of_isPlain (hplain c (List.mem_of_getLast? hc))).1

end RouterPlan.Text
