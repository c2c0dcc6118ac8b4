import Mathlib.Algebra.Order.BigOperators.Group.List
import Mathlib.Algebra.Order.Ring.Nat
import RouterPlan.Proofs.Lemmas.CommandText
import RouterPlan.Proofs.Lemmas.Marks

/-!
# What is lost of keys without quotes

Keys are written as they are and values are quoted. So if a key has marks, the words that are read hold fewer of them than the pairs
that were written, and if none has, they hold the separators of the values and no others (`marks_pairs_lt`, `weight_pairs`).
Pairs that are read again are among the words, and their keys are plain (`plain_of_loses`).
-/

namespace RouterPlan

/-- How many characters of the keys and the values of some pairs pass a test. -/
def pairCount (p : Char → Bool) (entries : List (String × String)) : Nat :=
  (entries.map fun entry => entry.1.toList.countP p + entry.2.toList.countP p).sum

/-- How many characters of the values of some pairs pass a test. -/
def valueCount (p : Char → Bool) (entries : List (String × String)) : Nat :=
  (entries.map fun entry => entry.2.toList.countP p).sum

/-- How many characters of some texts pass a test. -/
def textCount (p : Char → Bool) (texts : List String) : Nat :=
  (texts.map fun text => text.toList.countP p).sum

/-- The key of a pair holds a quote or a backslash. -/
def MarkedKey (entry : String × String) : Prop :=
  ∃ c ∈ entry.1.toList, Text.isMark c = true

@[simp] theorem pairCount_cons (p : Char → Bool) (entry : String × String) (entries : List (String × String)) :
    pairCount p (entry :: entries) = entry.1.toList.countP p + entry.2.toList.countP p + pairCount p entries := by
  simp [pairCount]

@[simp] theorem valueCount_cons (p : Char → Bool) (entry : String × String) (entries : List (String × String)) :
    valueCount p (entry :: entries) = entry.2.toList.countP p + valueCount p entries := by
  simp [valueCount]

theorem pairCount_append (p : Char → Bool) (entries more : List (String × String)) :
    pairCount p (entries ++ more) = pairCount p entries + pairCount p more := by
  simp [pairCount]

theorem valueCount_append (p : Char → Bool) (entries more : List (String × String)) :
    valueCount p (entries ++ more) = valueCount p entries + valueCount p more := by
  simp [valueCount]

@[simp] theorem textCount_cons (p : Char → Bool) (text : String) (texts : List String) :
    textCount p (text :: texts) = text.toList.countP p + textCount p texts := by
  simp [textCount]

theorem textCount_append (p : Char → Bool) (texts more : List String) :
    textCount p (texts ++ more) = textCount p texts + textCount p more := by
  simp [textCount]

/-- Where nothing is counted, no character passes the test. -/
theorem eq_false_of_textCount {p : Char → Bool} {texts : List String} (h : textCount p texts = 0) {text : String}
    (hmem : text ∈ texts) : ∀ c ∈ text.toList, p c = false := by
  have hcount : text.toList.countP p = 0 := List.sum_eq_zero_iff.1 h _ (List.mem_map.2 ⟨text, hmem, rfl⟩)
  exact fun c hc => Bool.eq_false_iff.2 (List.countP_eq_zero.1 hcount c hc)

theorem weight_eq_textCount (p : Char → Bool) (words : List Word) : Text.weight p words = textCount p (words.map (·.text)) := by
  simp [Text.weight, textCount, Function.comp_def]

namespace Text

variable {p : Char → Bool} {scan : Scan} {words : List Word} {entries : List (String × String)}

/-- The text of pairs, each with a blank in front. -/
def pairsText (entries : List (String × String)) : List Char :=
  spaced ((entries.map pairToken).map (·.1))

theorem pairsText_cons (entry : String × String) (entries : List (String × String)) :
    pairsText (entry :: entries) =
      ' ' :: (entry.1.toList ++ ('=' :: ((quote entry.2).toList ++ pairsText entries))) := by
  simp [pairsText, spaced, pairToken, Values.pairText]

/-- Pairs have at most as many escapes as marks. -/
theorem escapes_pairsText_le (entries : List (String × String)) : escapes (pairsText entries) ≤ pairCount isMark entries := by
  induction entries with
  | nil => exact Nat.le_refl 0
  | cons entry entries ih =>
    have hrest : ∀ c, ('=' :: ((quote entry.2).toList ++ pairsText entries)).head? = some c → isMark c = false := by
      intro c hc
      cases hc
      decide
    have hkey := escapes_append_le hrest entry.1.toList
    rw [escapes_cons (by decide), escapes_quote] at hkey
    rw [pairsText_cons, escapes_cons (by decide), pairCount_cons]
    omega

/-- A pair whose key has no marks leaves a scan outside quotes, and of what plain characters are not its value alone is kept. -/
theorem scans_pair (hp : ∀ c, isPlain c = true → p c = false) {key : List Char} (hkey : ∀ c ∈ key, isMark c = false)
    (value : String) (pos : Nat) (hscan : scan.isQuoted = false) :
    ∃ words pos' scan', Scans pos scan (key ++ '=' :: (quote value).toList) words pos' scan' ∧ scan'.isQuoted = false ∧
      weight p (words ++ scan'.finished) = weight p scan.finished + value.toList.countP p := by
  have hequals : ∀ c ∈ key ++ ['='], isMark c = false := by
    refine List.forall_mem_append.2 ⟨hkey, List.forall_mem_singleton.2 ?_⟩
    decide
  obtain ⟨words, pos', scan', hfirst, hscan', hweight⟩ := scans_unmarked hp hequals pos hscan
  obtain ⟨more, pos'', scan'', hsecond, hscan'', hweight'⟩ := scans_quote p value pos' hscan'
  have hboth := hfirst.append hsecond
  rw [List.append_assoc, List.singleton_append] at hboth
  refine ⟨_, _, _, hboth, hscan'', ?_⟩
  rw [List.append_assoc, weight_append, hweight', ← Nat.add_assoc, ← weight_append, hweight]

/-- Where the first key has marks, the words of the pairs hold fewer marks than the pairs. -/
theorem marks_first_pair_lt {key : List Char} {value : String} (hkey : ∃ c ∈ key, isMark c = true) {pos : Nat}
    (hscan : scan.isQuoted = false)
    (h : scanWords pos scan (key ++ '=' :: ((quote value).toList ++ pairsText entries)) = .ok words) :
    weight isMark words <
      weight isMark scan.finished + (key.countP isMark + value.toList.countP isMark + pairCount isMark entries) := by
  have hlt := marks_scanWords_lt hkey (fun c hc => by cases hc; decide) hscan h
  rw [escapes_cons (by decide), escapes_quote] at hlt
  have hle := escapes_pairsText_le entries
  omega

/-- Where some key has marks, they do as well. The first key may be cut short. -/
theorem marks_pairs_lt {key : List Char} {value : String}
    (hmarked : (∃ c ∈ key, isMark c = true) ∨ ∃ entry ∈ entries, MarkedKey entry) {pos : Nat} (hscan : scan.isQuoted = false)
    (h : scanWords pos scan (key ++ '=' :: ((quote value).toList ++ pairsText entries)) = .ok words) :
    weight isMark words <
      weight isMark scan.finished + (key.countP isMark + value.toList.countP isMark + pairCount isMark entries) := by
  induction entries generalizing key value pos scan words with
  | nil =>
    refine marks_first_pair_lt (hmarked.resolve_right ?_) hscan h
    rintro ⟨entry, hentry, -⟩
    cases hentry
  | cons entry entries ih =>
    by_cases hkey : ∃ c ∈ key, isMark c = true
    · exact marks_first_pair_lt hkey hscan h
    · have hunmarked : ∀ c ∈ key, isMark c = false := unmarked_of_not_exists hkey
      obtain ⟨before, pos', scan', hfirst, hscan', hweight⟩ := scans_pair isMark_of_isPlain hunmarked value pos hscan
      have hblank := hfirst.append (scans_separator pos' scan' hscan' (show isSeparator ' ' = true by decide))
      have htext : key ++ '=' :: ((quote value).toList ++ pairsText (entry :: entries)) =
          key ++ '=' :: (quote value).toList ++ [' '] ++
            (entry.1.toList ++ '=' :: ((quote entry.2).toList ++ pairsText entries)) := by
        simp [pairsText_cons]
      rw [htext] at h
      obtain ⟨more, hmore, rfl⟩ := hblank.exists_rest _ h
      have hrest : (∃ c ∈ entry.1.toList, isMark c = true) ∨ ∃ entry ∈ entries, MarkedKey entry := by
        obtain ⟨other, hother, hmark⟩ := hmarked.resolve_left hkey
        rcases List.mem_cons.1 hother with rfl | hother
        · exact .inl hmark
        · exact .inr ⟨other, hother, hmark⟩
      have hlt := ih hrest rfl hmore
      rw [Scan.finished, weight_nil, Nat.zero_add] at hlt
      rw [weight_append, hweight, countP_eq_zero hunmarked, pairCount_cons]
      omega

/-- The same for pairs with a blank in front of each. -/
theorem marks_pairsText_lt (hmarked : ∃ entry ∈ entries, MarkedKey entry) {pos : Nat} (hscan : scan.isQuoted = false)
    (h : scanWords pos scan (pairsText entries) = .ok words) :
    weight isMark words < weight isMark scan.finished + pairCount isMark entries := by
  cases entries with
  | nil =>
    obtain ⟨entry, hentry, -⟩ := hmarked
    cases hentry
  | cons entry entries =>
    have hblank := scans_separator pos scan hscan (show isSeparator ' ' = true by decide)
    rw [pairsText_cons, ← List.singleton_append] at h
    obtain ⟨more, hmore, rfl⟩ := hblank.exists_rest _ h
    have hrest : (∃ c ∈ entry.1.toList, isMark c = true) ∨ ∃ entry ∈ entries, MarkedKey entry := by
      simpa [MarkedKey] using hmarked
    have hlt := marks_pairs_lt hrest Scan.isQuoted_between hmore
    rw [Scan.finished, weight_nil, Nat.zero_add] at hlt
    rw [weight_append, pairCount_cons]
    omega

/-- Where no key has marks, pairs leave a scan outside quotes, and their words hold the separators of the values and no others. -/
theorem scans_pairsText (hp : ∀ c, isPlain c = true → p c = false) (hkeys : ∀ entry ∈ entries, ¬MarkedKey entry) (pos : Nat)
    (hscan : scan.isQuoted = false) :
    ∃ words pos' scan', Scans pos scan (pairsText entries) words pos' scan' ∧ scan'.isQuoted = false ∧
      weight p (words ++ scan'.finished) = weight p scan.finished + valueCount p entries := by
  induction entries generalizing pos scan with
  | nil => exact ⟨[], pos, scan, .nil pos scan, hscan, rfl⟩
  | cons entry entries ih =>
    obtain ⟨hentry, hrest⟩ := List.forall_mem_cons.1 hkeys
    have hunmarked : ∀ c ∈ entry.1.toList, isMark c = false := unmarked_of_not_exists hentry
    have hblank := scans_separator pos scan hscan (show isSeparator ' ' = true by decide)
    obtain ⟨before, pos', scan', hfirst, hscan', hweight⟩ :=
      scans_pair hp hunmarked entry.2 (pos + ' '.utf8Size) Scan.isQuoted_between
    obtain ⟨more, pos'', scan'', hsecond, hscan'', hweight'⟩ := ih hrest pos' hscan'
    have hall := (hblank.append hfirst).append hsecond
    have htext : [' '] ++ (entry.1.toList ++ '=' :: (quote entry.2).toList) ++ pairsText entries = pairsText (entry :: entries) := by
      simp [pairsText_cons]
    rw [htext] at hall
    refine ⟨_, _, _, hall, hscan'', ?_⟩
    rw [Scan.finished, weight_nil, Nat.zero_add] at hweight
    rw [List.append_assoc, weight_append, hweight', weight_append, ← Nat.add_assoc, Nat.add_assoc (weight p _) (weight p _),
      ← weight_append, hweight, valueCount_cons, Nat.add_assoc]

/-- So do they when they are read to the end. -/
theorem weight_pairsText (hp : ∀ c, isPlain c = true → p c = false) (hkeys : ∀ entry ∈ entries, ¬MarkedKey entry) {pos : Nat}
    (hscan : scan.isQuoted = false) (h : scanWords pos scan (pairsText entries) = .ok words) :
    weight p words = weight p scan.finished + valueCount p entries := by
  obtain ⟨before, pos', scan', hscans, hscan', hweight⟩ := scans_pairsText hp hkeys pos hscan
  rw [← List.append_nil (pairsText entries)] at h
  obtain ⟨more, hmore, rfl⟩ := hscans.exists_rest _ h
  rw [scanWords_nil pos' hscan'] at hmore
  cases hmore
  exact hweight

/-- So do they where no blank is in front of the first key. -/
theorem weight_pairs (hp : ∀ c, isPlain c = true → p c = false) {key : List Char} {value : String}
    (hkey : ∀ c ∈ key, isMark c = false) (hkeys : ∀ entry ∈ entries, ¬MarkedKey entry) {pos : Nat} (hscan : scan.isQuoted = false)
    (h : scanWords pos scan (key ++ '=' :: ((quote value).toList ++ pairsText entries)) = .ok words) :
    weight p words = weight p scan.finished + (value.toList.countP p + valueCount p entries) := by
  obtain ⟨before, pos', scan', hscans, hscan', hweight⟩ := scans_pair hp hkey value pos hscan
  rw [← List.cons_append, ← List.append_assoc] at h
  obtain ⟨more, hmore, rfl⟩ := hscans.exists_rest _ h
  rw [weight_append, weight_pairsText hp hkeys hscan' hmore, ← Nat.add_assoc, ← weight_append, hweight, Nat.add_assoc]

end Text

/-! ## Pairs that are read again -/

/-- Words that keep less of some pairs than the pairs hold: fewer marks where a key has any, and otherwise the separators of the values
and no others. -/
structure Loses (entries : List (String × String)) (texts : List String) : Prop where
  marks : (∃ entry ∈ entries, MarkedKey entry) → textCount Text.isMark texts < pairCount Text.isMark entries
  separators : (∀ entry ∈ entries, ¬MarkedKey entry) →
    textCount Text.isSeparator texts ≤ valueCount Text.isSeparator entries

/-- A list without repetitions counts for no more than one that holds all of it. -/
theorem sum_le_of_subset {α : Type} {l l' : List α} (hn : l.Nodup) (h : l ⊆ l') (f : α → Nat) :
    (l.map f).sum ≤ (l'.map f).sum := by
  obtain ⟨m, hperm, hsub⟩ := List.subperm_of_subset hn h
  rw [← (hperm.map f).sum_eq]
  exact (hsub.map f).sum_le_sum fun _ _ => Nat.zero_le _

/-- A pair that is read holds nothing but what its word holds. -/
theorem pairCount_le_textCount (p : Char → Bool) {texts : List String} {pairs : List (String × String)}
    (h : List.Forall₂ (fun word entry => Command.readPair word = .ok entry) texts pairs) :
    pairCount p pairs ≤ textCount p texts := by
  induction h with
  | nil => exact Nat.le_refl 0
  | @cons word entry texts pairs hword _ ih =>
    obtain ⟨value, htext, hvalue, -, -⟩ := Command.exists_of_readPair hword
    have htrim : (Text.trim value).countP p ≤ value.countP p :=
      ((Text.trim_prefix value).sublist.trans (List.dropWhile_sublist Text.isBlank)).countP_le
    have hword : word.toList.countP p = entry.1.toList.countP p + (['='].countP p + value.countP p) := by
      rw [htext, ← List.singleton_append, List.countP_append, List.countP_append]
    rw [pairCount_cons, textCount_cons, hword, hvalue]
    omega

/-- If pairs are read again from words that lose what their keys hold, then the keys are plain. -/
theorem plain_of_loses {entries pairs : List (String × String)} {texts : List String} (hn : entries.Nodup)
    (hread : List.Forall₂ (fun word entry => Command.readPair word = .ok entry) texts pairs) (hsub : entries ⊆ pairs)
    (hloses : Loses entries texts) : ∀ entry ∈ entries, ∀ c ∈ entry.1.toList, Text.isPlain c = true := by
  have hkept : ∀ p, pairCount p entries ≤ textCount p texts := fun p =>
    (sum_le_of_subset hn hsub _).trans (pairCount_le_textCount p hread)
  have hunmarked : ∀ entry ∈ entries, ¬MarkedKey entry := by
    intro entry hentry hmark
    exact absurd (hloses.marks ⟨entry, hentry, hmark⟩) (Nat.not_lt.2 (hkept _))
  have hle := (hkept _).trans (hloses.separators hunmarked)
  have hkeys : (entries.map fun entry => entry.1.toList.countP Text.isSeparator).sum = 0 := by
    have hsplit : pairCount Text.isSeparator entries =
        (entries.map fun entry => entry.1.toList.countP Text.isSeparator).sum + valueCount Text.isSeparator entries :=
      List.sum_map_add
    omega
  intro entry hentry c hc
  have hzero := List.sum_eq_zero_iff.1 hkeys _ (List.mem_map.2 ⟨entry, hentry, rfl⟩)
  have hsep : ¬Text.isSeparator c = true := List.countP_eq_zero.1 hzero c hc
  have hmark : ¬Text.isMark c = true := fun hmark => hunmarked entry hentry ⟨c, hc, hmark⟩
  have hne := Text.not_mark_iff.1 (by simpa using hmark)
  simp [Text.isPlain, hsep, hne]

end RouterPlan
