import RouterPlan.Proofs.Lemmas.CommandText

/-!
# Reading back written commands

The words after a keyword are what was written there (`readWords_spaced`), and pairs give the values again (`readValues_pairs`).
A locator is cut off before the words are read. Main statement: a command that a line can give is read back as it was, if its keys
need no quotes (`Command.ofChars_text`).
-/

namespace RouterPlan.Command

/-- Words with blanks before them are read back. -/
theorem readWords_spaced {tokens : List (List Char × String)} (h : ∀ token ∈ tokens, Text.Writes token.1 token.2) :
    readWords (Text.spaced (tokens.map (·.1))) = .ok (tokens.map (·.2)) := by
  obtain ⟨words, hwords, htexts⟩ := Text.splitWords_spaced h
  simp only [readWords, hwords, htexts]

/-- A pair is read back from the word that it is written as. -/
theorem readPair_pairToken {entry : String × String} (h : AcceptedPair entry) : readPair (pairToken entry).2 = .ok entry := by
  obtain ⟨hne, hkey, hvalue⟩ := h
  simp only [readPair, pairToken, Text.splitPair_pair hne hkey hvalue]

/-- So are pairs one after the other. -/
theorem mapM_readPair {entries : List (String × String)} (h : ∀ entry ∈ entries, AcceptedPair entry) :
    ((entries.map pairToken).map (·.2)).mapM readPair = .ok entries := by
  induction entries with
  | nil => rfl
  | cons entry entries ih =>
    obtain ⟨hentry, hrest⟩ := List.forall_mem_cons.1 h
    rw [List.map_cons, List.map_cons, List.mapM_cons, readPair_pairToken hentry, ih hrest]
    rfl

/-- The pairs give their map. -/
theorem readValues_pairs {entries : List (String × String)} (h : ∀ entry ∈ entries, AcceptedPair entry) :
    readValues ((entries.map pairToken).map (·.2)) = .ok (.ofList entries) := by
  rw [readValues, mapM_readPair h]
  rfl

theorem readIndex_toString {n : Nat} (h : n < Text.indexBound) : readIndex (toString n) = .ok n := by
  simp only [readIndex, Text.readIndex_toString h]

/-- The entry for the position is put in after the values, and taking it out leaves them. -/
theorem ofList_addEntries {values : Values} (before : Option Nat) (h : values.get? placementKey = none) :
    (Assoc.ofList (addEntries values before)).get? placementKey = before.map toString ∧
      (Assoc.ofList (addEntries values before)).erase placementKey = values := by
  cases before with
  | none =>
    have hmap : Assoc.ofList (addEntries values none) = values := by
      rw [addEntries, Option.toList_none, List.map_nil, List.append_nil, Assoc.ofList_entries]
    rw [hmap]
    refine ⟨h, Assoc.ext_get? fun key => ?_⟩
    rw [Assoc.get?_erase]
    split
    · rename_i heq
      rw [heq, h]
    · rfl
  | some position =>
    have hmap : Assoc.ofList (addEntries values (some position)) = values.insert placementKey (toString position) := by
      have hlast : Assoc.ofList (addEntries values (some position)) =
          (Assoc.ofList values.entries).insert placementKey (toString position) := List.foldl_append
      rw [hlast, Assoc.ofList_entries]
    rw [hmap]
    refine ⟨by rw [Assoc.get?_insert_eq, if_pos rfl]; rfl, Assoc.ext_get? fun key => ?_⟩
    rw [Assoc.get?_erase, Assoc.get?_insert_eq]
    split
    · rename_i heq
      rw [heq, h]
    · rfl

/-- The pair for a position is one that a word can give, and its key is plain. -/
theorem acceptedPair_placement (position : Nat) : AcceptedPair (placementKey, toString position) := by
  have hkey : Text.PrintableKey placementKey := by decide +kernel
  exact acceptedPair_of_printable hkey (Text.printableValue_toString position)

theorem isPlain_placementKey : ∀ c ∈ placementKey.toList, Text.isPlain c = true := by
  have hall : placementKey.toList.all Text.isPlain = true := by decide +kernel
  exact List.all_eq_true.1 hall

/-- The arguments of `add` are read back. -/
theorem readAdd_tokens {values : Values} {before : Option Nat} (h : (add values before).Accepted) (hplain : values.PlainKeys) :
    readAdd (Text.spaced ((tokens (add values before)).map (·.1))) = .ok (add values before) := by
  obtain ⟨⟨hsome, hvalues⟩, hplace, hbefore⟩ := h
  have hkeys := forall_addEntries (P := fun entry => ∀ c ∈ entry.1.toList, Text.isPlain c = true) before hplain
    fun _ => isPlain_placementKey
  have hwords : readWords (Text.spaced (((addEntries values before).map pairToken).map (·.1))) =
      .ok (((addEntries values before).map pairToken).map (·.2)) := by
    refine readWords_spaced fun token hmem => ?_
    obtain ⟨entry, hentry, rfl⟩ := List.mem_map.1 hmem
    exact writes_pairToken (hkeys entry hentry)
  obtain ⟨hget, herase⟩ := ofList_addEntries before hplace
  have hposition : (before.map toString).mapM readIndex = .ok before := by
    cases before with
    | none => rfl
    | some position =>
      rw [Option.map_some, Option.mapM_some, readIndex_toString (hbefore position rfl)]
      rfl
  simp only [readAdd, tokens, hwords, bind, Except.bind,
    readValues_pairs (forall_addEntries before hvalues acceptedPair_placement), hget, hposition, herase, hsome]
  rfl

/-- The argument of `remove` is read back. -/
theorem readRemove_tokens {index : Nat} (h : (remove index).Accepted) :
    readRemove (Text.spaced ((tokens (remove index)).map (·.1))) = .ok (remove index) := by
  have hwords : readWords (Text.spaced ([indexToken index].map (·.1))) = .ok ([indexToken index].map (·.2)) :=
    readWords_spaced (List.forall_mem_singleton.2 (writes_indexToken index))
  have hindex : readIndex (indexToken index).2 = .ok index := readIndex_toString h
  rw [readRemove, tokens, hwords]
  simp only [bind, Except.bind, List.map_cons, List.map_nil, hindex]
  rfl

/-- The arguments of `move` are read back. -/
theorem readMove_tokens {index : Nat} {before : Option Nat} (h : (move index before).Accepted) :
    readMove (Text.spaced ((tokens (move index before)).map (·.1))) = .ok (move index before) := by
  have hwords : readWords (Text.spaced ((indexToken index :: before.toList.map indexToken).map (·.1))) =
      .ok ((indexToken index :: before.toList.map indexToken).map (·.2)) := by
    refine readWords_spaced (List.forall_mem_cons.2 ⟨writes_indexToken index, fun token hmem => ?_⟩)
    obtain ⟨position, -, rfl⟩ := List.mem_map.1 hmem
    exact writes_indexToken position
  have hindex : readIndex (indexToken index).2 = .ok index := readIndex_toString h.1
  rw [readMove, tokens, hwords]
  cases before with
  | none =>
    simp only [bind, Except.bind, Option.toList_none, List.map_cons, List.map_nil, hindex]
    rfl
  | some position =>
    -- digits hold no equals sign, so the destination is a bare index
    have hnot : '=' ∉ (toString position).toList := Text.not_mem_toString (by decide)
    have hdestination : readDestination (indexToken position).2 = .ok position := by
      simp only [readDestination, indexToken, Text.splitPair_eq_none hnot]
      exact readIndex_toString (h.2 position rfl)
    simp only [bind, Except.bind, Option.toList_some, List.map_cons, List.map_nil, hindex,
      hdestination]
    rfl

/-- A blank in front of what `set` is given is dropped. -/
theorem trimStart_blank {cs : List Char} (h : ∀ c, cs.head? = some c → Text.isBlank c = false) :
    Text.trimStart (' ' :: cs) = cs := by
  rw [Text.trimStart, List.dropWhile_cons_of_pos (by decide)]
  exact Text.dropWhile_eq_self h

/-- The blank in front of the first word is dropped. -/
theorem trimStart_spaced {cs : List Char} (h : Text.Starts cs) (more : List (List Char)) :
    Text.trimStart (Text.spaced (cs :: more)) = cs ++ Text.spaced more := by
  obtain ⟨c, hhead, hblank, -⟩ := h.append (Text.spaced more)
  refine trimStart_blank fun d hd => ?_
  have heq : some c = some d := hhead.symm.trans hd
  cases heq
  exact hblank

/-- Where no bracket comes first, the words say what `set` is about. -/
theorem readTarget_of_head?_ne {cs : List Char} (h : cs.head? ≠ some '[') :
    readTarget cs = (readWords cs).map takeIdentifier := by
  rw [readTarget, if_neg h]
  cases readWords cs <;> rfl

/-- The words say what `set` is about. -/
theorem readTarget_words {token : List Char × String} {tokens : List (List Char × String)} (hstarts : Text.Starts token.1)
    (htoken : Text.Writes token.1 token.2) (htokens : ∀ token ∈ tokens, Text.Writes token.1 token.2) :
    readTarget (Text.trimStart (Text.spaced ((token :: tokens).map (·.1)))) =
      .ok (takeIdentifier ((token :: tokens).map (·.2))) := by
  obtain ⟨c, hhead, -, hopen⟩ := hstarts.append (Text.spaced (tokens.map (·.1)))
  obtain ⟨words, hwords, htexts⟩ := Text.splitWords_cons_spaced htoken htokens
  have hread : readWords (token.1 ++ Text.spaced (tokens.map (·.1))) = .ok ((token :: tokens).map (·.2)) := by
    simp only [readWords, hwords, htexts, List.map_cons]
  rw [List.map_cons, trimStart_spaced hstarts, readTarget_of_head?_ne (by simpa [hhead] using hopen), hread]
  rfl

/-- A locator is cut off before the words are read. -/
theorem readTarget_locator {text : String} (h : (Identifier.locator text).Accepted) (more : List (List Char)) :
    readTarget (Text.trimStart (Text.spaced (text.toList :: more))) =
      (readWords (Text.spaced more)).map (.locator text, ·) := by
  obtain ⟨hopen, hsplit⟩ := h
  have hhead : (text.toList ++ Text.spaced more).head? = some '[' := by
    rw [List.head?_append, hopen, Option.some_or]
  have htrim : Text.trimStart (Text.spaced (text.toList :: more)) = text.toList ++ Text.spaced more := by
    refine trimStart_blank fun c hc => ?_
    have heq : some '[' = some c := hhead.symm.trans hc
    cases heq
    decide
  rw [htrim, readTarget, if_pos hhead, Text.splitLocator_append hsplit]
  simp only [List.nil_append, String.ofList_toList]
  cases readWords (Text.spaced more) <;> rfl

/-- What `set` is about is read back, with the pairs after it. -/
theorem readTarget_tokens {target : Identifier} {values : Values} (h : (set target values).Accepted)
    (hplain : (set target values).Plain) :
    readTarget (Text.trimStart (Text.spaced ((tokens (set target values)).map (·.1)))) =
      .ok (target, (values.entries.map pairToken).map (·.2)) := by
  obtain ⟨⟨hsome, hvalues⟩, htarget⟩ := h
  obtain ⟨hkeys, hstart⟩ := hplain
  have hpairs : ∀ token ∈ values.entries.map pairToken, Text.Writes token.1 token.2 := by
    intro token hmem
    obtain ⟨entry, hentry, rfl⟩ := List.mem_map.1 hmem
    exact writes_pairToken (hkeys entry hentry)
  cases target with
  | itself =>
    rw [tokens, Identifier.tokens, List.nil_append]
    cases hentries : values.entries with
    | nil => exact absurd hentries (entries_ne_nil hsome)
    | cons entry entries =>
      rw [hentries, List.map_cons, List.forall_mem_cons] at hpairs
      have hmem : entry ∈ values.entries := hentries ▸ List.mem_cons_self
      have hopen : entry.1.toList.head? ≠ some '[' := hstart entry (by rw [hentries]; rfl)
      have hstarts : Text.Starts (pairToken entry).1 := by
        rw [pairToken, Values.pairText, String.append_assoc, String.toList_append]
        exact (Text.starts_of_isPlain (hvalues entry hmem).1 (hkeys entry hmem) hopen).append _
      have hequals : (pairToken entry).2.contains '=' = true := by
        simp [String.contains_char_eq, pairToken]
      rw [List.map_cons, readTarget_words hstarts hpairs.1 hpairs.2, List.map_cons, takeIdentifier, if_pos hequals]
  | number index =>
    have hequals : ¬(indexToken index).2.contains '=' = true := by
      rw [String.contains_char_eq, decide_eq_true_eq]
      exact Text.not_mem_toString (by decide)
    have hindex : Identifier.ofWord (indexToken index).2 = .number index := by
      simp only [Identifier.ofWord, indexToken, Text.readIndex_toString htarget]
    rw [tokens, Identifier.tokens, List.singleton_append, readTarget_words (starts_indexToken index) (writes_indexToken index) hpairs,
      List.map_cons, takeIdentifier, if_neg hequals, hindex]
  | name text =>
    obtain ⟨hequals, hindex⟩ := htarget
    have hequals : ¬text.contains '=' = true := by
      rwa [String.contains_char_eq, decide_eq_true_eq]
    have hname : Identifier.ofWord text = .name text := by
      simp only [Identifier.ofWord, hindex]
    rw [tokens, Identifier.tokens, List.singleton_append,
      readTarget_words (Text.starts_quote hstart) (Text.writes_quote text) hpairs, List.map_cons, takeIdentifier,
      if_neg hequals, hname]
  | locator text =>
    rw [tokens, Identifier.tokens, List.singleton_append, List.map_cons, readTarget_locator htarget, readWords_spaced hpairs]
    rfl

/-- The arguments of `set` are read back. -/
theorem readSet_tokens {target : Identifier} {values : Values} (h : (set target values).Accepted)
    (hplain : (set target values).Plain) :
    readSet (Text.spaced ((tokens (set target values)).map (·.1))) = .ok (set target values) := by
  rw [readSet, readTarget_tokens h hplain]
  simp only [bind, Except.bind, readValues_pairs h.1.2, Assoc.ofList_entries, h.1.1]
  rfl

/-- The arguments of a command are read back if its keys need no quotes. -/
theorem readArguments_tokens {command : Command} (h : command.Accepted) (hplain : command.Plain) :
    readArguments command.keyword (Text.spaced (command.tokens.map (·.1))) = .ok command := by
  cases command with
  | add values before => exact readAdd_tokens h hplain
  | remove index => exact readRemove_tokens h
  | move index before => exact readMove_tokens h
  | set target values => exact readSet_tokens h hplain

/-- Keywords are written with letters. -/
theorem isPlain_keyword (keyword : Keyword) : ∀ c ∈ keyword.text.toList, Text.isPlain c = true := by
  have hall : keyword.text.toList.all Text.isPlain = true := by
    cases keyword <;> decide +kernel
  exact List.all_eq_true.1 hall

/-- A keyword ends at the blank after it. -/
theorem span_keyword (keyword : Keyword) {cs : List Char} (hblank : cs.head? = some ' ') :
    (keyword.text.toList ++ cs).span (!Text.isSeparator ·) = (keyword.text.toList, cs) := by
  refine Text.span_append (fun c hc => ?_) fun c hc => ?_
  · have hplain := isPlain_keyword keyword c hc
    rw [Text.isPlain, Bool.not_eq_true', Bool.or_eq_false_iff, Bool.or_eq_false_iff] at hplain
    rw [hplain.1.1]
    rfl
  · cases hblank.symm.trans hc
    decide

/-- A line that starts with a keyword and a blank is read as the arguments after it. -/
theorem ofChars_keyword (keyword : Keyword) {cs : List Char} (hblank : cs.head? = some ' ') (hends : Text.Ends cs) :
    ofChars (keyword.text.toList ++ cs) = readArguments keyword cs := by
  have hne : keyword.text.toList ≠ [] := by
    cases keyword <;> decide +kernel
  have htrimmed : Text.Trimmed (keyword.text.toList ++ cs) := by
    refine ⟨fun c hc => ?_, fun c hc => ?_⟩
    · obtain ⟨d, hd⟩ := Option.isSome_iff_exists.1 (List.isSome_head?.2 hne)
      rw [List.head?_append, hd, Option.some_or] at hc
      cases hc
      exact (Text.isBlank_of_isPlain (isPlain_keyword keyword _ (List.mem_of_head? hd))).1
    · obtain ⟨d, hd, hblank, -⟩ := hends.append keyword.text.toList
      cases hd.symm.trans hc
      exact hblank
  have hspan := span_keyword keyword hblank
  have hsome : (keyword.text.toList ++ cs).isEmpty = false := by simp [hne]
  simp only [ofChars, Text.trim_eq_self htrimmed, hsome, hspan, String.ofList_toList, Keyword.ofText?_text]
  cases keyword <;> rfl

/-- A command is written as its keyword and read as its arguments. -/
theorem ofChars_text_eq {command : Command} (h : command.Accepted) :
    ofChars command.text.toList = readArguments command.keyword (Text.spaced (command.tokens.map (·.1))) := by
  have hends := ends_tokens h
  rw [toList_text h, ofChars_keyword command.keyword (Text.head?_spaced hends.ne_nil) hends]

/-- A command that a line can give is read back as it was, if its keys need no quotes. -/
theorem ofChars_text {command : Command} (h : command.Accepted) (hplain : command.Plain) :
    ofChars command.text.toList = .ok command :=
  (ofChars_text_eq h).trans (readArguments_tokens h hplain)

end RouterPlan.Command
