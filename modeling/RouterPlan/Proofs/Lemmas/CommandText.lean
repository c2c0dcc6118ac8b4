import RouterPlan.Proofs.Lemmas.ReadCommands

/-!
# What commands are written as

A command is written as its keyword and words with a blank before each of them (`Command.toList_text`). What is written after
the keyword is on one line, leaves no quote open and ends in something that is kept (`not_mem_tokens`, `balanced_tokens`,
`ends_tokens`).
-/

namespace RouterPlan

/-- A pair and the word that it is read as. -/
def pairToken (entry : String × String) : List Char × String :=
  ((Values.pairText entry).toList, entry.1 ++ "=" ++ entry.2)

/-- An index and the word that it is read as. -/
def indexToken (n : Nat) : List Char × String :=
  ((toString n).toList, toString n)

/-- A target and the word that it is read as; a locator is not read as a word. -/
def Identifier.tokens : Identifier → List (List Char × String)
  | itself => []
  | number index => [indexToken index]
  | name text => [((Text.quote text).toList, text)]
  | locator text => [(text.toList, text)]

namespace Command

/-- The pairs of an added item, with the one for its position. -/
def addEntries (values : Values) (before : Option Nat) : List (String × String) :=
  values.entries ++ before.toList.map fun position => (placementKey, toString position)

/-- What is written after the keyword. -/
def tokens : Command → List (List Char × String)
  | add values before => (addEntries values before).map pairToken
  | remove index => [indexToken index]
  | move index before => indexToken index :: before.toList.map indexToken
  | set target values => target.tokens ++ values.entries.map pairToken

theorem entries_ne_nil {values : Values} (h : values.isEmpty = false) : values.entries ≠ [] := by
  rintro heq
  rw [Assoc.isEmpty, heq] at h
  cases h

/-- Values with a blank in front. -/
theorem blank_text {values : Values} (h : values.isEmpty = false) :
    ' ' :: values.text.toList = Text.spaced ((values.entries.map pairToken).map (·.1)) := by
  rw [Values.text, Text.blank_intercalate (by simpa using entries_ne_nil h), List.map_map, List.map_map]
  rfl

/-- A command is written as its keyword and a blank before everything after it. -/
theorem toList_text {command : Command} (h : command.Accepted) :
    command.text.toList = command.keyword.text.toList ++ Text.spaced (command.tokens.map (·.1)) := by
  cases command with
  | add values before =>
    rw [tokens, addEntries, List.map_append, List.map_append, Text.spaced_append, ← blank_text h.1.1]
    cases before with
    | none => simp [text, keyword, Keyword.text, Text.spaced]
    | some position =>
      have hquote : Text.quote position.repr = position.repr := Text.quote_toString position
      simp [text, keyword, Keyword.text, Text.spaced, pairToken, Values.pairText, hquote, placementKey]
  | remove index => simp [text, keyword, Keyword.text, Text.spaced, tokens, indexToken]
  | move index before =>
    cases before with
    | none => simp [text, keyword, Keyword.text, Text.spaced, tokens, indexToken]
    | some position => simp [text, keyword, Keyword.text, Text.spaced, tokens, indexToken]
  | set target values =>
    rw [tokens, List.map_append, Text.spaced_append, ← blank_text h.1.1]
    cases target with
    | itself => simp [text, keyword, Keyword.text, Identifier.tokens, Text.spaced]
    | number index =>
      simp [text, keyword, Keyword.text, Identifier.tokens, Text.spaced, Identifier.text, indexToken]
    | name name => simp [text, keyword, Keyword.text, Identifier.tokens, Text.spaced, Identifier.text]
    | locator locator => simp [text, keyword, Keyword.text, Identifier.tokens, Text.spaced, Identifier.text]

/-! ## What is written is read as words -/

/-- What holds for the values of an added item and for every position holds for all that it is written with. -/
theorem forall_addEntries {P : String × String → Prop} {values : Values} (before : Option Nat)
    (h : ∀ entry ∈ values.entries, P entry) (hplace : ∀ position : Nat, P (placementKey, toString position)) :
    ∀ entry ∈ addEntries values before, P entry := by
  intro entry hmem
  rcases List.mem_append.1 hmem with hmem | hmem
  · exact h entry hmem
  · obtain ⟨position, -, rfl⟩ := List.mem_map.1 hmem
    exact hplace position

/-- A pair whose key is plain writes the word that it is read as. -/
theorem writes_pairToken {entry : String × String} (h : ∀ c ∈ entry.1.toList, Text.isPlain c = true) :
    Text.Writes (pairToken entry).1 (pairToken entry).2 := by
  have hplain : ∀ c ∈ entry.1.toList ++ ['='], Text.isPlain c = true := by
    intro c hc
    rcases List.mem_append.1 hc with hc | hc
    · exact h c hc
    · rw [List.mem_singleton.1 hc]
      decide
  have hkey := Text.writes_plains (by simp) hplain
  have hboth := hkey.append (Text.writes_quote entry.2)
  have hchars : (pairToken entry).1 = entry.1.toList ++ ['='] ++ (Text.quote entry.2).toList := by
    simp [pairToken, Values.pairText]
  have htext : (pairToken entry).2 = String.ofList (entry.1.toList ++ ['=']) ++ entry.2 := by
    rw [String.ofList_append, String.ofList_toList]
    rfl
  rwa [hchars, htext]

theorem isPlain_indexToken (n : Nat) : ∀ c ∈ (indexToken n).1, Text.isPlain c = true :=
  fun _ hc => Text.isPlain_of_isDigit (Text.isDigit_of_mem_toString hc)

theorem writes_indexToken (n : Nat) : Text.Writes (indexToken n).1 (indexToken n).2 := by
  have hwrites := Text.writes_plains (Text.toString_ne_nil n) (isPlain_indexToken n)
  rw [String.ofList_toList] at hwrites
  exact hwrites

/-- What holds for pairs, for indices and for targets holds for everything that is written after a keyword. -/
theorem forall_tokens {P : List Char × String → Prop}
    (hpair : ∀ entry, Text.PrintableKey entry.1 → Text.PrintableValue entry.2 → P (pairToken entry))
    (hindex : ∀ n, P (indexToken n)) (htarget : ∀ target : Identifier, target.Printable → ∀ token ∈ target.tokens, P token)
    {command : Command} (h : command.Printable) : ∀ token ∈ command.tokens, P token := by
  have hpairs : ∀ entries : List (String × String),
      (∀ entry ∈ entries, Text.PrintableKey entry.1 ∧ Text.PrintableValue entry.2) →
        ∀ token ∈ entries.map pairToken, P token := by
    intro entries hprintable token hmem
    obtain ⟨entry, hentry, rfl⟩ := List.mem_map.1 hmem
    exact hpair entry (hprintable entry hentry).1 (hprintable entry hentry).2
  intro token hmem
  cases command with
  | add values before =>
    have hkey : Text.PrintableKey placementKey := by decide +kernel
    exact hpairs _ (forall_addEntries before h.2.1 fun position => ⟨hkey, Text.printableValue_toString position⟩) token hmem
  | remove index =>
    rw [List.mem_singleton.1 hmem]
    exact hindex index
  | move index before =>
    rcases List.mem_cons.1 hmem with rfl | hmem
    · exact hindex index
    · obtain ⟨position, -, rfl⟩ := List.mem_map.1 hmem
      exact hindex position
  | set target values =>
    rcases List.mem_append.1 hmem with hmem | hmem
    · exact htarget target h.2.2 token hmem
    · exact hpairs _ h.2.1 token hmem

/-- What is written after a keyword leaves no quote open. -/
theorem balanced_tokens {command : Command} (h : command.Printable) :
    Text.Balanced (Text.spaced (command.tokens.map (·.1))) := by
  have htokens := forall_tokens (P := fun token => Text.Balanced token.1)
    (fun entry hkey _ => (writes_pairToken (hkey.1.isPlain (by simp))).balanced) (fun n => (writes_indexToken n).balanced)
    (fun target htarget token hmem => by
      cases target with
      | itself => cases hmem
      | number index =>
        rw [List.mem_singleton.1 hmem]
        exact (writes_indexToken index).balanced
      | name text =>
        rw [List.mem_singleton.1 hmem]
        exact (Text.writes_quote text).balanced
      | locator text =>
        rw [List.mem_singleton.1 hmem]
        obtain ⟨-, -, hsplit⟩ := htarget
        exact fun pos scan hscan => Text.scans_locator hsplit pos scan hscan) h
  refine Text.balanced_spaced fun cs hcs => ?_
  obtain ⟨token, htoken, rfl⟩ := List.mem_map.1 hcs
  exact htokens token htoken

/-- What is written after a keyword stays on its line. -/
theorem not_mem_tokens {command : Command} (h : command.Printable) :
    '\n' ∉ Text.spaced (command.tokens.map (·.1)) := by
  have htokens := forall_tokens (P := fun token => '\n' ∉ token.1)
    (fun entry hkey hvalue hmem => by
      rw [pairToken, Values.pairText, String.toList_append, String.toList_append] at hmem
      rcases List.mem_append.1 hmem with hmem | hmem
      · rcases List.mem_append.1 hmem with hmem | hmem
        · exact Text.not_mem_of_isPlain (hkey.1.isPlain (by simp)) hmem
        · revert hmem
          decide
      · exact Text.not_mem_quote hvalue.1 hmem)
    (fun n => Text.not_mem_of_isPlain (isPlain_indexToken n))
    (fun target htarget token hmem => by
      cases target with
      | itself => cases hmem
      | number index =>
        rw [List.mem_singleton.1 hmem]
        exact Text.not_mem_of_isPlain (isPlain_indexToken index)
      | name text =>
        rw [List.mem_singleton.1 hmem]
        exact Text.not_mem_quote htarget.2.1
      | locator text =>
        rw [List.mem_singleton.1 hmem]
        exact htarget.1) h
  refine Text.not_mem_spaced fun cs hcs => ?_
  obtain ⟨token, htoken, rfl⟩ := List.mem_map.1 hcs
  exact htokens token htoken

theorem ends_pairToken (entry : String × String) : Text.Ends (pairToken entry).1 := by
  rw [pairToken, Values.pairText, String.toList_append]
  exact (Text.ends_quote entry.2).append _

theorem ends_indexToken (n : Nat) : Text.Ends (indexToken n).1 :=
  Text.ends_of_isPlain (Text.toString_ne_nil n) (isPlain_indexToken n)

theorem starts_indexToken (n : Nat) : Text.Starts (indexToken n).1 :=
  Text.starts_of_isPlain (Text.toString_ne_nil n) (isPlain_indexToken n) fun hhead =>
    Text.not_mem_toString (by decide) (List.mem_of_head? hhead)

/-- What is written after a keyword ends in something that is neither dropped nor taken for a sign that the line goes on. -/
theorem ends_tokens {command : Command} (h : command.Accepted) : Text.Ends (Text.spaced (command.tokens.map (·.1))) := by
  have hpairs : ∀ entries : List (String × String), entries ≠ [] →
      Text.Ends (Text.spaced ((entries.map pairToken).map (·.1))) := by
    intro entries hne
    refine Text.ends_spaced (by simpa using hne) fun cs hcs => ?_
    rw [List.map_map] at hcs
    obtain ⟨entry, -, rfl⟩ := List.mem_map.1 hcs
    exact ends_pairToken entry
  cases command with
  | add values before => exact hpairs _ (List.append_ne_nil_of_left_ne_nil (entries_ne_nil h.1.1) _)
  | remove index => exact Text.ends_spaced (List.cons_ne_nil _ _) (by simpa [tokens] using ends_indexToken index)
  | move index before =>
    refine Text.ends_spaced (List.cons_ne_nil _ _) fun cs hcs => ?_
    rcases List.mem_cons.1 hcs with rfl | hcs
    · exact ends_indexToken index
    · rw [List.map_map] at hcs
      obtain ⟨position, -, rfl⟩ := List.mem_map.1 hcs
      exact ends_indexToken position
  | set target values =>
    rw [tokens, List.map_append, Text.spaced_append]
    exact (hpairs _ (entries_ne_nil h.1.1)).append _

end Command

end RouterPlan
