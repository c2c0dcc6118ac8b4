import Mathlib.Data.List.Forall2
import Mathlib.Data.List.TakeWhile
import RouterPlan.Proofs.Lemmas.Lists
import RouterPlan.Proofs.Lemmas.Maps
import RouterPlan.Proofs.Lemmas.WrittenText

/-!
# What a line can say

Not every command can be read from a line: a key is not empty and holds no equals sign, values are trimmed, indices fit in 64 bits, a
locator ends at the bracket that closes it (`Command.Accepted`). Every line that is read gives such a command
(`accepted_of_ofChars`). Keys may still hold blanks, quotes and backslashes, because the line may quote them; `Command.Plain` says
that they do not, and that nothing but a locator looks like one. A printable command is both.
-/

namespace RouterPlan

/-- A pair that a word can give. -/
def AcceptedPair (entry : String × String) : Prop :=
  entry.1.toList ≠ [] ∧ '=' ∉ entry.1.toList ∧ Text.Trimmed entry.2.toList

/-- Values that words can give. -/
def Values.Accepted (values : Values) : Prop :=
  values.isEmpty = false ∧ ∀ entry ∈ values.entries, AcceptedPair entry

/-- No key holds a character that means something between words. -/
def Values.PlainKeys (values : Values) : Prop :=
  ∀ entry ∈ values.entries, ∀ c ∈ entry.1.toList, Text.isPlain c = true

namespace Identifier

/-- An identifier that `set` can be given. -/
def Accepted : Identifier → Prop
  | itself => True
  | number index => index < Text.indexBound
  | name text => '=' ∉ text.toList ∧ Text.readIndex text = none
  | locator text => text.toList.head? = some '[' ∧ Command.splitLocator 0 false text.toList = some (text.toList, [])

/-- What is written after `set` does not start like a locator, unless it is one. -/
def Unbracketed : Identifier → Values → Prop
  | itself, values => ∀ entry ∈ values.entries.head?, entry.1.toList.head? ≠ some '['
  | name text, _ => (Text.quote text).toList.head? ≠ some '['
  | _, _ => True

end Identifier

namespace Command

/-- A command that a line can give. -/
def Accepted : Command → Prop
  | add values before => values.Accepted ∧ values.get? placementKey = none ∧ ∀ position ∈ before, position < Text.indexBound
  | remove index => index < Text.indexBound
  | move index before => index < Text.indexBound ∧ ∀ position ∈ before, position < Text.indexBound
  | set target values => values.Accepted ∧ target.Accepted

/-- The keys of the command need no quotes, and its line does not start with a bracket by accident. -/
def Plain : Command → Prop
  | add values _ => values.PlainKeys
  | remove _ => True
  | move _ _ => True
  | set target values => values.PlainKeys ∧ target.Unbracketed values

end Command

/-! ## Printable commands -/

/-- Printable pairs can be read from words. -/
theorem acceptedPair_of_printable {entry : String × String} (hkey : Text.PrintableKey entry.1)
    (hvalue : Text.PrintableValue entry.2) : AcceptedPair entry :=
  ⟨hkey.1.1, fun hmem => (hkey.1.2 _ hmem).2 (by decide), Text.trimmed_of_trim_eq hvalue.2⟩

theorem Values.Printable.accepted {values : Values} (h : values.Printable) (hne : values.isEmpty = false) : values.Accepted :=
  ⟨hne, fun entry hentry => acceptedPair_of_printable (h entry hentry).1 (h entry hentry).2⟩

theorem Values.Printable.plainKeys {values : Values} (h : values.Printable) : values.PlainKeys :=
  fun entry hentry => (h entry hentry).1.1.isPlain (by simp)

/-- Lines can give every printable command. -/
theorem Command.Printable.accepted {command : Command} (h : command.Printable) : command.Accepted := by
  cases command with
  | add values before => exact ⟨h.2.1.accepted h.1, h.2.2⟩
  | remove index => exact h
  | move index before => exact h
  | set target values =>
    refine ⟨h.2.1.accepted h.1, ?_⟩
    obtain ⟨-, -, htarget⟩ := h
    cases target with
    | itself => trivial
    | number index => exact htarget
    | name text => exact ⟨htarget.1, htarget.2.2.2⟩
    | locator text => exact htarget.2

/-- The keys of a printable command need no quotes. -/
theorem Command.Printable.plain {command : Command} (h : command.Printable) : command.Plain := by
  cases command with
  | add values before => exact h.2.1.plainKeys
  | remove index => trivial
  | move index before => trivial
  | set target values =>
    refine ⟨h.2.1.plainKeys, ?_⟩
    obtain ⟨-, hvalues, htarget⟩ := h
    cases target with
    | itself => exact fun entry hentry => (hvalues entry (List.mem_of_head? hentry)).1.2
    | number index => trivial
    | name text => exact htarget.2.2.1
    | locator text => trivial

namespace Command

/-! ## What is read -/

/-- What a list is read to comes from its elements one by one. -/
theorem forall₂_of_mapM {α β ε : Type} {f : α → Except ε β} {l : List α} {l' : List β} (h : l.mapM f = .ok l') :
    List.Forall₂ (fun a b => f a = .ok b) l l' := by
  induction l generalizing l' with
  | nil =>
    cases h
    exact .nil
  | cons a l ih =>
    rw [List.mapM_cons] at h
    obtain ⟨b, hb, h⟩ := bind_eq_ok_iff.1 h
    obtain ⟨rest, hrest, hafter⟩ := bind_eq_ok_iff.1 h
    cases hafter
    exact .cons hb (ih hrest)

/-- The word of a pair is its key, an equals sign and a text that trims to its value. -/
theorem exists_of_readPair {word : String} {entry : String × String} (h : readPair word = .ok entry) :
    ∃ value, word.toList = entry.1.toList ++ '=' :: value ∧ entry.2.toList = Text.trim value ∧ entry.1.toList ≠ [] ∧
      '=' ∉ entry.1.toList := by
  unfold readPair at h
  split at h
  · rename_i pair hpair
    cases h
    unfold Text.splitPair at hpair
    split at hpair
    · rename_i key value hspan
      rw [List.span_eq_takeWhile_dropWhile, Prod.mk.injEq] at hspan
      obtain ⟨hkey, hvalue⟩ := hspan
      split at hpair
      · cases hpair
      · rename_i hne
        cases hpair
        refine ⟨value, ?_, String.toList_ofList, ?_, ?_⟩
        · rw [String.toList_ofList, ← hkey, ← hvalue, List.takeWhile_append_dropWhile]
        · simpa using hne
        · rw [String.toList_ofList, ← hkey]
          intro hmem
          simpa using List.mem_takeWhile_imp hmem
    · cases hpair
  · cases h

theorem acceptedPair_of_readPair {word : String} {entry : String × String} (h : readPair word = .ok entry) :
    AcceptedPair entry := by
  obtain ⟨value, -, hvalue, hne, hkey⟩ := exists_of_readPair h
  exact ⟨hne, hkey, hvalue ▸ Text.trimmed_trim value⟩

/-- Every entry of the values that words give is the pair of one of them. -/
theorem exists_of_readValues {words : List String} {values : Values} (h : readValues words = .ok values) :
    ∃ pairs, List.Forall₂ (fun word entry => readPair word = .ok entry) words pairs ∧ values = .ofList pairs := by
  obtain ⟨pairs, hpairs, hafter⟩ := bind_eq_ok_iff.1 h
  cases hafter
  exact ⟨pairs, forall₂_of_mapM hpairs, rfl⟩

theorem acceptedPair_of_readValues {words : List String} {values : Values} (h : readValues words = .ok values) :
    ∀ entry ∈ values.entries, AcceptedPair entry := by
  obtain ⟨pairs, hpairs, rfl⟩ := exists_of_readValues h
  have hboth : List.Forall₂ (fun entry word => AcceptedPair entry ∧ readPair word = .ok entry) pairs words :=
    .flip (hpairs.imp fun word entry hword => ⟨acceptedPair_of_readPair hword, hword⟩)
  exact fun entry hentry => ((List.forall₂_and_left _ _).1 hboth).1 entry (Assoc.mem_of_mem_ofList hentry)

theorem lt_of_readIndex {word : String} {index : Nat} (h : readIndex word = .ok index) : index < Text.indexBound := by
  unfold readIndex at h
  split at h
  · rename_i index' hindex
    cases h
    exact Text.lt_of_readIndex hindex
  · cases h

theorem accepted_of_readAdd {cs : List Char} {command : Command} (h : readAdd cs = .ok command) : command.Accepted := by
  obtain ⟨words, -, h⟩ := bind_eq_ok_iff.1 h
  obtain ⟨pairs, hpairs, h⟩ := bind_eq_ok_iff.1 h
  obtain ⟨before, hbefore, h⟩ := bind_eq_ok_iff.1 h
  dsimp only at h
  split at h
  · cases h
  · rename_i hne
    cases h
    refine ⟨⟨by simpa using hne, fun entry hentry => ?_⟩, ?_, fun position hposition => ?_⟩
    · exact acceptedPair_of_readValues hpairs entry (List.mem_of_mem_filter hentry)
    · rw [Assoc.get?_erase, if_pos rfl]
    · cases hposition
      cases hplace : pairs.get? placementKey with
      | none =>
        rw [hplace] at hbefore
        cases hbefore
      | some word =>
        rw [hplace, Option.mapM_some] at hbefore
        obtain ⟨index, hindex, hafter⟩ := bind_eq_ok_iff.1 hbefore
        cases hafter
        exact lt_of_readIndex hindex

theorem accepted_of_readRemove {cs : List Char} {command : Command} (h : readRemove cs = .ok command) :
    command.Accepted := by
  obtain ⟨words, -, h⟩ := bind_eq_ok_iff.1 h
  split at h
  · cases h
  · obtain ⟨index, hindex, hafter⟩ := bind_eq_ok_iff.1 h
    cases hafter
    exact lt_of_readIndex hindex
  · cases h

/-- A destination is an index, bare or not. -/
theorem lt_of_readDestination {word : String} {index : Nat} (h : readDestination word = .ok index) :
    index < Text.indexBound := by
  unfold readDestination at h
  split at h
  · exact lt_of_readIndex h
  · exact lt_of_readIndex h

theorem accepted_of_readMove {cs : List Char} {command : Command} (h : readMove cs = .ok command) : command.Accepted := by
  obtain ⟨words, -, h⟩ := bind_eq_ok_iff.1 h
  split at h
  · cases h
  · rename_i word words
    obtain ⟨index, hindex, h⟩ := bind_eq_ok_iff.1 h
    have hlt := lt_of_readIndex hindex
    split at h
    · cases h
      exact ⟨hlt, fun position hmem => (Option.not_mem_none position hmem).elim⟩
    · obtain ⟨before, hbefore, h⟩ := bind_eq_ok_iff.1 h
      split at h
      · cases h
        refine ⟨hlt, fun position hmem => ?_⟩
        cases hmem
        exact lt_of_readDestination hbefore
      · cases h

/-- What `set` is about can be given to it. -/
theorem accepted_of_readTarget {cs : List Char} {target : Identifier} {words : List String}
    (h : readTarget cs = .ok (target, words)) : target.Accepted := by
  unfold readTarget at h
  split at h
  · rename_i hopen
    split at h
    · cases h
    · rename_i locator rest hsplit
      obtain ⟨words, -, hafter⟩ := bind_eq_ok_iff.1 h
      cases hafter
      refine ⟨?_, ?_⟩
      · rw [String.toList_ofList, Text.head?_splitLocator hsplit, hopen]
      · rw [String.toList_ofList, Text.splitLocator_self hsplit]
  · obtain ⟨words, -, hafter⟩ := bind_eq_ok_iff.1 h
    unfold takeIdentifier at hafter
    split at hafter
    · cases hafter
      trivial
    · split at hafter
      · cases hafter
        trivial
      · rename_i word words hequals
        cases hafter
        unfold Identifier.ofWord
        split
        · rename_i index hindex
          exact Text.lt_of_readIndex hindex
        · rename_i hindex
          exact ⟨by simpa [String.contains_char_eq] using hequals, hindex⟩

theorem accepted_of_readSet {cs : List Char} {command : Command} (h : readSet cs = .ok command) : command.Accepted := by
  obtain ⟨⟨target, words⟩, htarget, h⟩ := bind_eq_ok_iff.1 h
  obtain ⟨values, hvalues, h⟩ := bind_eq_ok_iff.1 h
  split at h
  · cases h
  · rename_i hne
    cases h
    exact ⟨⟨by simpa using hne, acceptedPair_of_readValues hvalues⟩, accepted_of_readTarget htarget⟩

/-- What comes after a keyword, read as its arguments. -/
def readArguments : Keyword → List Char → Except GrammarError Command
  | .add, cs => readAdd cs
  | .remove, cs => readRemove cs
  | .move, cs => readMove cs
  | .set, cs => readSet cs

/-- Lines give only commands that they can give. -/
theorem accepted_of_ofChars {line : List Char} {command : Command} (h : ofChars line = .ok command) : command.Accepted := by
  unfold ofChars at h
  dsimp only at h
  split at h
  · cases h
  · split at h
    · exact accepted_of_readAdd h
    · exact accepted_of_readRemove h
    · exact accepted_of_readMove h
    · exact accepted_of_readSet h
    · cases h

end Command

end RouterPlan
