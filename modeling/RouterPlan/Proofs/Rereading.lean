import RouterPlan.Proofs.Lemmas.CommandReading
import RouterPlan.Proofs.Lemmas.PairMarks

/-!
# Which commands are read back

A command that was read from a line is written on a line again, and that line is not always read as the same command: values are
quoted, keys are not. Main statement: it is read as the same command exactly if its keys need no quotes and nothing but a locator
stands like one after `set` (`ofText_text_iff`). One direction is `Command.ofChars_text`; the other counts what the words of the
second line have lost.
-/

namespace RouterPlan.Command

instance (values : Values) : Decidable values.PlainKeys :=
  have : ∀ entry : String × String, Decidable (∀ c ∈ entry.1.toList, Text.isPlain c = true) := fun _ =>
    List.decidableBAll _ _
  List.decidableBAll _ _

instance : (target : Identifier) → (values : Values) → Decidable (target.Unbracketed values)
  | .itself, values => inferInstanceAs (Decidable (∀ entry ∈ values.entries.head?, entry.1.toList.head? ≠ some '['))
  | .number _, _ => inferInstanceAs (Decidable True)
  | .name text, _ => inferInstanceAs (Decidable ((Text.quote text).toList.head? ≠ some '['))
  | .locator _, _ => inferInstanceAs (Decidable True)

instance : (command : Command) → Decidable command.Plain
  | .add _ _ => inferInstanceAs (Decidable (Values.PlainKeys _))
  | .remove _ => inferInstanceAs (Decidable True)
  | .move _ _ => inferInstanceAs (Decidable True)
  | .set _ _ => inferInstanceAs (Decidable (_ ∧ _))

theorem exists_of_readWords {cs : List Char} {texts : List String} (h : readWords cs = .ok texts) :
    ∃ words, Text.scanWords 0 .between cs = .ok words ∧ texts = words.map (·.text) := by
  unfold readWords Text.splitWords at h
  split at h
  · rename_i words hwords
    cases h
    exact ⟨words, hwords, rfl⟩
  · cases h

/-- The words of pairs lose what their keys hold. -/
theorem loses_pairsText {entries : List (String × String)} {texts : List String}
    (h : readWords (Text.pairsText entries) = .ok texts) : Loses entries texts := by
  obtain ⟨words, hwords, rfl⟩ := exists_of_readWords h
  refine ⟨fun hmarked => ?_, fun hunmarked => ?_⟩
  · have hlt := Text.marks_pairsText_lt hmarked Text.Scan.isQuoted_between hwords
    rwa [weight_eq_textCount, Text.Scan.finished, Text.weight_nil, Nat.zero_add] at hlt
  · have heq := Text.weight_pairsText Text.isSeparator_of_isPlain hunmarked Text.Scan.isQuoted_between hwords
    rw [weight_eq_textCount, Text.Scan.finished, Text.weight_nil, Nat.zero_add] at heq
    exact heq.le

/-- So do the words of pairs that come after another word, unless that word gains it. -/
theorem loses_of_writes {cs : List Char} {text word : String} {texts : List String} {entries : List (String × String)}
    (hwrites : Text.Writes cs text)
    (hword : ∀ p, (∀ c, Text.isPlain c = true → p c = false) → text.toList.countP p ≤ word.toList.countP p)
    (h : readWords (cs ++ Text.pairsText entries) = .ok (word :: texts)) : Loses entries texts := by
  obtain ⟨words, hwords, htexts⟩ := exists_of_readWords h
  have hscans := hwrites 0 .between rfl
  obtain ⟨more, hmore, rfl⟩ := hscans.exists_rest _ hwords
  have hcount : ∀ p, Text.weight p words = word.toList.countP p + textCount p texts := by
    intro p
    rw [weight_eq_textCount, ← htexts, textCount_cons]
  have hstart : ∀ p, Text.weight p (Text.Scan.finished (.inside ((Text.Scan.between.word 0).append text))) =
      text.toList.countP p := by
    intro p
    simp [Text.Scan.finished, Text.Scan.word, Text.weight, Word.text_append_startingAt]
  refine ⟨fun hmarked => ?_, fun hunmarked => ?_⟩
  · have hlt := Text.marks_pairsText_lt hmarked (Text.Scan.isQuoted_inside _) hmore
    have hle := hword _ Text.isMark_of_isPlain
    rw [hcount, hstart] at hlt
    omega
  · have heq := Text.weight_pairsText Text.isSeparator_of_isPlain hunmarked (Text.Scan.isQuoted_inside _) hmore
    have hle := hword _ Text.isSeparator_of_isPlain
    rw [hcount, hstart] at heq
    omega

/-- So do the words of pairs whose first key has lost the blanks in front. -/
theorem loses_of_trimStart {entry : String × String} {entries : List (String × String)} {texts : List String}
    (h : readWords (Text.trimStart (Text.pairsText (entry :: entries))) = .ok texts) : Loses (entry :: entries) texts := by
  obtain ⟨words, hwords, rfl⟩ := exists_of_readWords h
  have htrim : Text.trimStart (Text.pairsText (entry :: entries)) =
      Text.trimStart entry.1.toList ++ '=' :: ((Text.quote entry.2).toList ++ Text.pairsText entries) := by
    rw [Text.pairsText_cons, Text.trimStart, List.dropWhile_cons_of_pos (by decide)]
    exact Text.dropWhile_append_of_neg (by decide) _ _
  rw [htrim] at hwords
  have hle : ∀ p, (Text.trimStart entry.1.toList).countP p ≤ entry.1.toList.countP p := fun p =>
    (List.dropWhile_sublist Text.isBlank).countP_le
  refine ⟨fun hmarked => ?_, fun hunmarked => ?_⟩
  · have hrest : (∃ c ∈ Text.trimStart entry.1.toList, Text.isMark c = true) ∨ ∃ entry ∈ entries, MarkedKey entry := by
      obtain ⟨other, hother, c, hc, hmark⟩ := hmarked
      rcases List.mem_cons.1 hother with rfl | hother
      · exact .inl ⟨c, Text.mem_dropWhile_of_neg hc (Text.isBlank_of_isMark hmark), hmark⟩
      · exact .inr ⟨other, hother, c, hc, hmark⟩
    have hlt := Text.marks_pairs_lt hrest Text.Scan.isQuoted_between hwords
    rw [Text.Scan.finished, Text.weight_nil, Nat.zero_add, weight_eq_textCount] at hlt
    have hkey := hle Text.isMark
    rw [pairCount_cons]
    omega
  · obtain ⟨hentry, hentries⟩ := List.forall_mem_cons.1 hunmarked
    have hkey : ∀ c ∈ Text.trimStart entry.1.toList, Text.isMark c = false := fun c hc =>
      Text.unmarked_of_not_exists hentry c ((List.dropWhile_sublist _).mem hc)
    have heq := Text.weight_pairs Text.isSeparator_of_isPlain hkey hentries Text.Scan.isQuoted_between hwords
    rw [Text.Scan.finished, Text.weight_nil, Nat.zero_add, weight_eq_textCount] at heq
    rw [valueCount_cons]
    exact heq.le

/-- Where no locator is read, no bracket comes first, and the words say what `set` is about. -/
theorem exists_of_readTarget {cs : List Char} {target : Identifier} {texts : List String}
    (h : readTarget cs = .ok (target, texts)) (hno : ∀ text, target ≠ .locator text) :
    cs.head? ≠ some '[' ∧ ∃ all, readWords cs = .ok all ∧ takeIdentifier all = (target, texts) := by
  by_cases hopen : cs.head? = some '['
  · rw [readTarget, if_pos hopen] at h
    split at h
    · cases h
    · obtain ⟨words, -, hafter⟩ := bind_eq_ok_iff.1 h
      cases hafter
      exact absurd rfl (hno _)
  · rw [readTarget_of_head?_ne hopen] at h
    refine ⟨hopen, ?_⟩
    cases hall : readWords cs with
    | error cause =>
      rw [hall] at h
      cases h
    | ok all =>
      rw [hall] at h
      exact ⟨all, rfl, Except.ok.inj h⟩

/-- Words that say that `set` is about the section itself are all pairs. -/
theorem eq_of_takeIdentifier_itself {all texts : List String} (h : takeIdentifier all = (.itself, texts)) : all = texts := by
  unfold takeIdentifier at h
  split at h
  · cases h
    rfl
  · split at h
    · cases h
      rfl
    · unfold Identifier.ofWord at h
      split at h <;> cases h

/-- Words that say that `set` is about something else start with what it is. -/
theorem exists_of_takeIdentifier {all texts : List String} {target : Identifier} (h : takeIdentifier all = (target, texts))
    (hne : target ≠ .itself) : ∃ word, all = word :: texts ∧ Identifier.ofWord word = target := by
  unfold takeIdentifier at h
  split at h
  · cases h
    exact absurd rfl hne
  · rename_i word words
    split at h
    · cases h
      exact absurd rfl hne
    · cases h
      exact ⟨word, rfl, rfl⟩

/-- A word that is taken for a name is that name. -/
theorem eq_of_ofWord_name {word text : String} (h : Identifier.ofWord word = .name text) : word = text := by
  unfold Identifier.ofWord at h
  split at h
  · cases h
  · exact Identifier.name.inj h

/-- A bracket comes first if only a blank is in front of it. -/
theorem head?_trimStart_of_bracket {cs : List Char} (h : cs.head? = some '[') (more : List Char) :
    (Text.trimStart (' ' :: (cs ++ more))).head? = some '[' := by
  have hhead : (cs ++ more).head? = some '[' := by rw [List.head?_append, h, Option.some_or]
  rw [trimStart_blank fun c hc => ?_, hhead]
  cases hhead.symm.trans hc
  decide

/-- If `set` is read with the same target again, then nothing but a locator stands like one, and the words of its values lose what
their keys hold. -/
theorem loses_of_readTarget {target : Identifier} {values : Values} {texts : List String} (h : (set target values).Accepted)
    (hread : readTarget (Text.trimStart (Text.spaced ((tokens (set target values)).map (·.1)))) = .ok (target, texts)) :
    target.Unbracketed values ∧ Loses values.entries texts := by
  obtain ⟨hvalues, htarget⟩ := h
  cases target with
  | itself =>
    obtain ⟨hopen, all, hall, htake⟩ := exists_of_readTarget hread (fun _ hlocator => by cases hlocator)
    cases eq_of_takeIdentifier_itself htake
    rw [tokens, Identifier.tokens, List.nil_append] at hopen hall
    cases hentries : values.entries with
    | nil => exact absurd hentries (entries_ne_nil hvalues.1)
    | cons entry entries =>
      rw [hentries] at hopen hall
      refine ⟨fun first hfirst hbracket => hopen ?_, loses_of_trimStart hall⟩
      rw [hentries] at hfirst
      cases hfirst
      rw [← Text.pairsText, Text.pairsText_cons]
      exact head?_trimStart_of_bracket hbracket _
  | number index =>
    obtain ⟨-, all, hall, htake⟩ := exists_of_readTarget hread (fun _ hlocator => by cases hlocator)
    obtain ⟨word, rfl, -⟩ := exists_of_takeIdentifier htake (fun hitself => by cases hitself)
    rw [tokens, Identifier.tokens, List.singleton_append, List.map_cons, trimStart_spaced (starts_indexToken index)] at hall
    refine ⟨trivial, loses_of_writes (writes_indexToken index) (fun p hp => ?_) hall⟩
    have hnone : (indexToken index).2.toList.countP p = 0 := Text.countP_eq_zero_of_isPlain hp (isPlain_indexToken index)
    rw [hnone]
    exact Nat.zero_le _
  | name text =>
    obtain ⟨hopen, all, hall, htake⟩ := exists_of_readTarget hread (fun _ hlocator => by cases hlocator)
    obtain ⟨word, rfl, hword⟩ := exists_of_takeIdentifier htake (fun hitself => by cases hitself)
    cases eq_of_ofWord_name hword
    rw [tokens, Identifier.tokens, List.singleton_append, List.map_cons] at hopen hall
    have hstart : (Text.quote text).toList.head? ≠ some '[' := fun hbracket =>
      hopen (head?_trimStart_of_bracket hbracket _)
    rw [trimStart_spaced (Text.starts_quote hstart)] at hall
    exact ⟨hstart, loses_of_writes (Text.writes_quote text) (fun _ _ => Nat.le_refl _) hall⟩
  | locator text =>
    rw [tokens, Identifier.tokens, List.singleton_append, List.map_cons, readTarget_locator htarget] at hread
    refine ⟨trivial, loses_pairsText ?_⟩
    cases hall : readWords (Text.spaced ((values.entries.map pairToken).map (·.1))) with
    | error cause =>
      rw [hall] at hread
      cases hread
    | ok all =>
      rw [hall] at hread
      cases hread
      exact hall

theorem nodup_entries (values : Values) : values.entries.Nodup :=
  .of_map _ values.nodup_keys

/-- If `set` is read again, then its keys are plain and nothing but a locator stands like one. -/
theorem plain_of_readSet {target : Identifier} {values : Values} (h : (set target values).Accepted)
    (hread : readSet (Text.spaced ((tokens (set target values)).map (·.1))) = .ok (set target values)) :
    (set target values).Plain := by
  obtain ⟨⟨target', texts⟩, htarget, hread⟩ := bind_eq_ok_iff.1 hread
  obtain ⟨values', hvalues, hread⟩ := bind_eq_ok_iff.1 hread
  split at hread
  · cases hread
  · cases hread
    obtain ⟨hbracket, hloses⟩ := loses_of_readTarget h htarget
    obtain ⟨pairs, hpairs, hmap⟩ := exists_of_readValues hvalues
    have hsub : values.entries ⊆ pairs := fun entry hentry => Assoc.mem_of_mem_ofList (hmap ▸ hentry)
    exact ⟨plain_of_loses (nodup_entries values) hpairs hsub hloses, hbracket⟩

/-- The pair for a position has nothing that could be lost. -/
theorem loses_of_addEntries {values : Values} {before : Option Nat} {texts : List String}
    (h : Loses (addEntries values before) texts) : Loses values.entries texts := by
  have hkey : placementKey.toList.countP Text.isMark = 0 :=
    Text.countP_eq_zero_of_isPlain Text.isMark_of_isPlain isPlain_placementKey
  have hvalue : ∀ p, (∀ c, Text.isPlain c = true → p c = false) → ∀ n : Nat, (toString n).toList.countP p = 0 :=
    fun p hp n => Text.countP_eq_zero_of_isPlain hp (isPlain_indexToken n)
  refine ⟨fun hmarked => ?_, fun hunmarked => ?_⟩
  · have hcount : pairCount Text.isMark (addEntries values before) = pairCount Text.isMark values.entries := by
      cases before with
      | none => simp [addEntries]
      | some position =>
        simp only [addEntries, Option.toList_some, List.map_cons, List.map_nil, pairCount_append, pairCount_cons, hkey,
          hvalue _ Text.isMark_of_isPlain]
        rfl
    obtain ⟨entry, hentry, hmark⟩ := hmarked
    rw [← hcount]
    exact h.marks ⟨entry, List.mem_append_left _ hentry, hmark⟩
  · have hcount : valueCount Text.isSeparator (addEntries values before) = valueCount Text.isSeparator values.entries := by
      cases before with
      | none => simp [addEntries]
      | some position =>
        simp only [addEntries, Option.toList_some, List.map_cons, List.map_nil, valueCount_append, valueCount_cons,
          hvalue _ Text.isSeparator_of_isPlain]
        rfl
    rw [← hcount]
    refine h.separators (forall_addEntries before hunmarked fun position => ?_)
    rintro ⟨c, hc, hmark⟩
    rw [Text.isMark_of_isPlain c (isPlain_placementKey c hc)] at hmark
    cases hmark

/-- If `add` is read again, then its keys are plain. -/
theorem plain_of_readAdd {values : Values} {before : Option Nat}
    (hread : readAdd (Text.spaced ((tokens (add values before)).map (·.1))) = .ok (add values before)) : values.PlainKeys := by
  obtain ⟨texts, htexts, hread⟩ := bind_eq_ok_iff.1 hread
  obtain ⟨map, hmap, hread⟩ := bind_eq_ok_iff.1 hread
  obtain ⟨position, -, hread⟩ := bind_eq_ok_iff.1 hread
  dsimp only at hread
  split at hread
  · cases hread
  · cases hread
    obtain ⟨pairs, hpairs, rfl⟩ := exists_of_readValues hmap
    have hsub : ((Assoc.ofList pairs).erase placementKey).entries ⊆ pairs := fun entry hentry =>
      Assoc.mem_of_mem_ofList (List.mem_of_mem_filter hentry)
    exact plain_of_loses (nodup_entries _) hpairs hsub (loses_of_addEntries (loses_pairsText htexts))

/-- A command that was read is read from its own line again exactly if its keys need no quotes and nothing but a locator stands like
one after `set`. -/
theorem ofText_text_iff {line : String} {command : Command} (h : ofText line = .ok command) :
    ofText command.text = .ok command ↔ command.Plain := by
  have haccepted : command.Accepted := accepted_of_ofChars h
  refine ⟨fun hread => ?_, ofChars_text haccepted⟩
  rw [ofText, ofChars_text_eq haccepted] at hread
  cases command with
  | add values before => exact plain_of_readAdd hread
  | remove index => trivial
  | move index before => trivial
  | set target values => exact plain_of_readSet haccepted hread

/-- A quoted key is read, but written without its quotes. -/
theorem ofText_text_blank : ofText "add \"a b\"=c" = .ok (.add (.ofList [("a b", "c")]) none) ∧
    ofText (Command.add (.ofList [("a b", "c")]) none).text ≠ .ok (.add (.ofList [("a b", "c")]) none) := by
  have h : ofText "add \"a b\"=c" = .ok (.add (.ofList [("a b", "c")]) none) := by decide +kernel
  exact ⟨h, (ofText_text_iff h).not.2 (by decide +kernel)⟩

end RouterPlan.Command
