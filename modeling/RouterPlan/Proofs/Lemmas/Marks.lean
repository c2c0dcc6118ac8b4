import Mathlib.Algebra.Order.Ring.Nat
import RouterPlan.Proofs.Lemmas.Lists
import RouterPlan.Proofs.Lemmas.WrittenText

/-!
# What quotes and backslashes cost

Marks are quotes and backslashes. A mark that is read as such outside quotes is lost, and inside quotes one of two is: the words of a
text hold no more marks than it has escapes (`marks_scanWords_le`), and fewer than marks if it has any and starts outside quotes
(`marks_scanWords_lt`). A text without marks is read outside quotes throughout, so its separators are lost as well, while those of
a quoted value are kept (`scans_unmarked`, `scans_quote`).
-/

namespace RouterPlan.Text

/-- A quote or a backslash. -/
def isMark (c : Char) : Bool :=
  c == '"' || c == '\\'

/-- How many characters of some words pass a test. -/
def weight (p : Char → Bool) (words : List Word) : Nat :=
  (words.map fun word => word.text.toList.countP p).sum

/-- How many characters of a text stand behind a backslash that they are read with. -/
def escapes : List Char → Nat
  | [] => 0
  | ['\\'] => 0
  | '\\' :: _ :: cs => escapes cs + 1
  | _ :: cs => escapes cs

variable {p : Char → Bool} {scan : Scan} {words : List Word}

@[simp] theorem weight_append (words more : List Word) : weight p (words ++ more) = weight p words + weight p more := by
  simp [weight]

@[simp] theorem weight_push (word : Word) (c : Char) :
    weight p [word.push c] = weight p [word] + if p c = true then 1 else 0 := by
  simp [weight, Word.push, List.countP_append, List.countP_singleton]

@[simp] theorem weight_word (pos : Nat) (scan : Scan) : weight p [scan.word pos] = weight p scan.finished := by
  cases scan <;> rfl

theorem escapes_cons {c : Char} (h : c ≠ '\\') (cs : List Char) : escapes (c :: cs) = escapes cs := by
  rw [escapes]
  all_goals simp [h]

theorem not_mark_iff {c : Char} : isMark c = false ↔ c ≠ '"' ∧ c ≠ '\\' := by
  simp [isMark]

@[simp] theorem weight_nil : weight p [] = 0 := rfl

/-- What fails a test throughout has nothing to count. -/
theorem countP_eq_zero {cs : List Char} (h : ∀ c ∈ cs, p c = false) : cs.countP p = 0 :=
  List.countP_eq_zero.2 fun c hc => Bool.eq_false_iff.1 (h c hc)

/-- Plain text has nothing that could be lost. -/
theorem countP_eq_zero_of_isPlain (hp : ∀ c, isPlain c = true → p c = false) {cs : List Char} (hcs : ∀ c ∈ cs, isPlain c = true) :
    cs.countP p = 0 :=
  countP_eq_zero fun c hc => hp c (hcs c hc)

theorem unmarked_of_not_exists {cs : List Char} (h : ¬∃ c ∈ cs, isMark c = true) : ∀ c ∈ cs, isMark c = false :=
  fun c hc => Bool.eq_false_iff.2 fun hmark => h ⟨c, hc, hmark⟩

theorem isBlank_of_isMark {c : Char} (h : isMark c = true) : isBlank c = false := by
  simp only [isMark, Bool.or_eq_true, beq_iff_eq] at h
  rcases h with rfl | rfl <;> decide

theorem isMark_of_isPlain (c : Char) (h : isPlain c = true) : isMark c = false := by
  simp only [isPlain, Bool.not_eq_true', Bool.or_eq_false_iff] at h
  simp [isMark, h]

theorem isSeparator_of_isPlain (c : Char) (h : isPlain c = true) : isSeparator c = false := by
  simp only [isPlain, Bool.not_eq_true', Bool.or_eq_false_iff] at h
  exact h.1.1

/-- A character that is neither a backslash at the end nor one before another character is none. -/
theorem ne_backslash {c : Char} {cs : List Char} (hlast : c = '\\' → cs = [] → False)
    (hslash : ∀ d ds, c = '\\' → cs = d :: ds → False) : c ≠ '\\' := by
  intro hc
  cases cs with
  | nil => exact hlast hc rfl
  | cons d ds => exact hslash d ds hc rfl

/-! ## Any text -/

/-- The words of a text hold no more marks than it has escapes. -/
theorem marks_scanWords_le {pos : Nat} {cs : List Char} (h : scanWords pos scan cs = .ok words) :
    weight isMark words ≤ weight isMark scan.finished + escapes cs := by
  fun_induction scanWords pos scan cs generalizing words with
  | case1 => cases h
  | case2 pos word cs ih => exact ih h
  | case3 pos word cs ih =>
    have hle := ih h
    simp only [Scan.finished, weight_push, escapes, show isMark '"' = true by decide, if_true] at hle ⊢
    omega
  | case4 pos word cs ih =>
    have hle := ih h
    simp only [Scan.finished, weight_push, escapes, show isMark '\\' = true by decide, if_true] at hle ⊢
    omega
  | case5 pos word c cs hquote hescaped hslashes ih =>
    have hle := ih h
    simp only [Scan.finished, weight_push] at hle ⊢
    by_cases hc : c = '\\'
    · -- the backslash is kept, and so is what comes after it, which is no mark
      subst hc
      cases cs with
      | nil => cases h
      | cons d ds =>
        have hd : d ≠ '\\' := by
          rintro rfl
          exact hslashes ds rfl rfl
        simp only [show isMark '\\' = true by decide, if_true, escapes_cons hd] at hle
        simp only [escapes]
        omega
    · have hmark : isMark c = false := not_mark_iff.2 ⟨hquote, hc⟩
      rw [escapes_cons hc]
      simpa [hmark] using hle
  | case6 pos scan =>
    cases h
    exact Nat.le_add_right _ _
  | case7 pos scan cs _ ih =>
    have hle := ih h
    rwa [Scan.finished, weight_word] at hle
  | case8 => cases h
  | case9 pos scan c cs _ _ _ ih =>
    have hle := ih h
    have hone : (if isMark c = true then 1 else 0) ≤ 1 := by split <;> omega
    rw [Scan.finished, weight_push, weight_word] at hle
    rw [escapes]
    omega
  | case10 pos scan c cs _ _ _ _ hquote hlast hslash _ ih =>
    obtain ⟨more, hmore, hafter⟩ := bind_eq_ok_iff.1 h
    cases hafter
    have hle := ih hmore
    rw [escapes_cons (ne_backslash hlast hslash), weight_append]
    rw [Scan.finished, weight_nil] at hle
    omega
  | case11 pos scan c cs _ _ _ _ hquote hlast hslash _ ih =>
    have hle := ih h
    have hmark : isMark c = false := not_mark_iff.2 ⟨hquote, ne_backslash hlast hslash⟩
    rw [Scan.finished, weight_push, weight_word, hmark, if_neg Bool.false_ne_true] at hle
    rwa [escapes_cons (ne_backslash hlast hslash)]

/-- A text and its escapes, in front of something that starts with no mark. -/
theorem escapes_append_le {rest : List Char} (hrest : ∀ c, rest.head? = some c → isMark c = false) (cs : List Char) :
    escapes (cs ++ rest) ≤ cs.countP isMark + escapes rest := by
  induction cs using backslash_induction with
  | nil => simp
  | last =>
    cases rest with
    | nil => simp [escapes]
    | cons d ds =>
      have hd := (not_mark_iff.1 (hrest d rfl)).2
      rw [List.singleton_append, escapes, escapes_cons hd]
      simp [isMark, Nat.add_comm]
  | escape c cs ih =>
    simp only [List.cons_append, escapes, List.countP_cons, show isMark '\\' = true by decide, if_true]
    omega
  | single c cs hc ih =>
    rw [List.cons_append, escapes_cons hc, List.countP_cons]
    omega

theorem escapes_append {cs : List Char} (hcs : ∀ c ∈ cs, c ≠ '\\') (rest : List Char) :
    escapes (cs ++ rest) = escapes rest := by
  induction cs with
  | nil => rfl
  | cons c cs ih =>
    obtain ⟨hc, hrest⟩ := List.forall_mem_cons.1 hcs
    rw [List.cons_append, escapes_cons hc, ih hrest]

/-- A quoted value has an escape for each of its marks. -/
theorem escapes_quote (value : String) (rest : List Char) :
    escapes ((quote value).toList ++ rest) = value.toList.countP isMark + escapes rest := by
  unfold quote
  cases hq : needsQuotes value with
  | false =>
    obtain ⟨-, hplain⟩ := isPlain_of_needsQuotes hq
    have hmarks : ∀ c ∈ value.toList, isMark c = false := fun c hc => isMark_of_isPlain c (hplain c hc)
    rw [if_neg Bool.false_ne_true, escapes_append (fun c hc => (not_mark_iff.1 (hmarks c hc)).2), countP_eq_zero hmarks,
      Nat.zero_add]
  | true =>
    rw [if_pos rfl, String.toList_ofList, List.cons_append, List.cons_append, escapes_cons (by decide), List.append_assoc,
      List.singleton_append]
    generalize value.toList = cs
    induction cs with
    | nil => simp [escapes_cons]
    | cons c cs ih =>
      rw [List.flatMap_cons, List.append_assoc, List.countP_cons]
      by_cases hspecial : c = '"' ∨ c = '\\'
      · have hmark : isMark c = true := by simpa [isMark] using hspecial
        rw [escapeQuoted, if_pos hspecial, List.cons_append, List.singleton_append, escapes, ih, hmark, if_pos rfl]
        omega
      · obtain ⟨hquote, hslash⟩ := not_or.1 hspecial
        have hmark : isMark c = false := not_mark_iff.2 ⟨hquote, hslash⟩
        rw [escapeQuoted, if_neg hspecial, List.singleton_append, escapes_cons hslash, ih, hmark, if_neg Bool.false_ne_true]
        omega

/-- What a scan goes on with after a text. -/
theorem Scans.exists_rest {pos pos' : Nat} {scan' : Scan} {cs : List Char} {before all : List Word}
    (h : Scans pos scan cs before pos' scan') (rest : List Char) (hok : scanWords pos scan (cs ++ rest) = .ok all) :
    ∃ more, scanWords pos' scan' rest = .ok more ∧ all = before ++ more := by
  rw [h] at hok
  cases hmore : scanWords pos' scan' rest with
  | error cause =>
    rw [hmore] at hok
    cases hok
  | ok more =>
    rw [hmore] at hok
    cases hok
    exact ⟨more, rfl, rfl⟩

/-! ## Texts without marks -/

/-- A character that is no mark leaves a scan outside quotes. If it passes a test that plain characters fail, it is lost. -/
theorem scans_unmarked_single (hp : ∀ c, isPlain c = true → p c = false) (pos : Nat) (hscan : scan.isQuoted = false) {c : Char}
    (hc : isMark c = false) :
    ∃ words pos' scan', Scans pos scan [c] words pos' scan' ∧ scan'.isQuoted = false ∧
      weight p (words ++ scan'.finished) = weight p scan.finished := by
  cases hsep : isSeparator c with
  | true => exact ⟨_, _, _, scans_separator pos scan hscan hsep, rfl, by rw [Scan.finished, List.append_nil]⟩
  | false =>
    have hplain : isPlain c = true := by simp [isPlain, hsep, not_mark_iff.1 hc]
    refine ⟨_, _, _, scans_plain pos scan hscan hplain, rfl, ?_⟩
    rw [List.nil_append, Scan.finished, weight_push, weight_word, hp c hplain, if_neg Bool.false_ne_true, Nat.add_zero]

/-- A text without marks leaves a scan outside quotes, and all that passes such a test is lost. -/
theorem scans_unmarked (hp : ∀ c, isPlain c = true → p c = false) {cs : List Char} (hcs : ∀ c ∈ cs, isMark c = false)
    (pos : Nat) (hscan : scan.isQuoted = false) :
    ∃ words pos' scan', Scans pos scan cs words pos' scan' ∧ scan'.isQuoted = false ∧
      weight p (words ++ scan'.finished) = weight p scan.finished := by
  induction cs generalizing pos scan with
  | nil => exact ⟨[], pos, scan, .nil pos scan, hscan, rfl⟩
  | cons c cs ih =>
    obtain ⟨hc, hrest⟩ := List.forall_mem_cons.1 hcs
    obtain ⟨words, pos', scan', hfirst, hscan', hweight⟩ := scans_unmarked_single hp pos hscan hc
    obtain ⟨more, pos'', scan'', hsecond, hscan'', hweight'⟩ := ih hrest pos' hscan'
    refine ⟨words ++ more, pos'', scan'', hfirst.append hsecond, hscan'', ?_⟩
    rw [List.append_assoc, weight_append, hweight', ← weight_append, hweight]

/-- What passes the test in a quoted value is kept. -/
theorem scans_quote (p : Char → Bool) (value : String) (pos : Nat) (hscan : scan.isQuoted = false) :
    ∃ words pos' scan', Scans pos scan (quote value).toList words pos' scan' ∧ scan'.isQuoted = false ∧
      weight p (words ++ scan'.finished) = weight p scan.finished + value.toList.countP p := by
  refine ⟨_, _, _, writes_quote value pos scan hscan, rfl, ?_⟩
  have hword : weight p [(scan.word pos).append value] = weight p [scan.word pos] + value.toList.countP p := by
    simp [weight, Word.append]
  rw [List.nil_append, Scan.finished, hword, weight_word]

/-! ## Texts with marks -/

/-- Outside quotes, a backslash is lost, and the character after it is taken as it is. -/
theorem scans_taken (pos : Nat) (hscan : scan.isQuoted = false) (c : Char) :
    Scans pos scan ['\\', c] [] (pos + 1 + c.utf8Size) (.inside ((scan.word pos).push c)) := by
  cases scan with
  | between => exact .of_eq fun _ => rfl
  | inside word => exact .of_eq fun _ => rfl
  | quoted word => cases hscan

/-- Outside quotes, the words of a text with marks hold fewer of them. -/
theorem marks_scanWords_lt {cs rest : List Char} (hcs : ∃ c ∈ cs, isMark c = true)
    (hrest : ∀ c, rest.head? = some c → isMark c = false) {pos : Nat} (hscan : scan.isQuoted = false)
    (h : scanWords pos scan (cs ++ rest) = .ok words) :
    weight isMark words < weight isMark scan.finished + cs.countP isMark + escapes rest := by
  induction cs using backslash_induction generalizing pos scan words with
  | nil =>
    obtain ⟨c, hc, -⟩ := hcs
    cases hc
  | last =>
    cases rest with
    | nil => cases scan <;> cases h
    | cons d ds =>
      have hd := hrest d rfl
      obtain ⟨more, hmore, rfl⟩ := (scans_taken pos hscan d).exists_rest ds h
      have hle := marks_scanWords_le hmore
      rw [Scan.finished, weight_push, weight_word, hd, if_neg Bool.false_ne_true] at hle
      rw [escapes_cons (not_mark_iff.1 hd).2, List.countP_singleton, if_pos (by decide)]
      omega
  | escape c cs =>
    obtain ⟨more, hmore, rfl⟩ := (scans_taken pos hscan c).exists_rest (cs ++ rest) h
    have hle := marks_scanWords_le hmore
    have hcount := escapes_append_le hrest cs
    rw [Scan.finished, weight_push, weight_word] at hle
    simp only [List.countP_cons, show isMark '\\' = true by decide, if_true]
    omega
  | single c cs hc ih =>
    cases hmark : isMark c with
    | true =>
      have hquote : c = '"' := by
        simpa [isMark, hc] using hmark
      subst hquote
      obtain ⟨more, hmore, rfl⟩ := (scans_open pos scan hscan).exists_rest (cs ++ rest) h
      have hle := marks_scanWords_le hmore
      have hcount := escapes_append_le hrest cs
      rw [Scan.finished, weight_word] at hle
      simp only [List.countP_cons, hmark, if_true]
      omega
    | false =>
      obtain ⟨before, pos', scan', hstep, hscan', hweight⟩ := scans_unmarked_single isMark_of_isPlain pos hscan hmark
      obtain ⟨more, hmore, rfl⟩ := hstep.exists_rest (cs ++ rest) h
      have hcs' : ∃ c ∈ cs, isMark c = true := by
        obtain ⟨d, hd, hdmark⟩ := hcs
        rcases List.mem_cons.1 hd with rfl | hd
        · rw [hmark] at hdmark
          cases hdmark
        · exact ⟨d, hd, hdmark⟩
      have hlt := ih hcs' hscan' hmore
      rw [weight_append] at hweight ⊢
      rw [List.countP_cons_of_neg (by simp [hmark])]
      omega

/-! ## Whole texts -/

/-- A text whose words hold all its marks has none. -/
theorem unmarked_of_splitWords {cs : List Char} (h : splitWords cs = .ok words) (hkept : cs.countP isMark ≤ weight isMark words) :
    ∀ c ∈ cs, isMark c = false := by
  refine unmarked_of_not_exists fun hmarked => absurd hkept (Nat.not_le.2 ?_)
  have hread : scanWords 0 .between (cs ++ []) = .ok words := by
    rw [List.append_nil]
    exact h
  have hlt := marks_scanWords_lt hmarked (fun c hc => by cases hc) Scan.isQuoted_between hread
  rwa [Scan.finished, weight_nil, Nat.zero_add] at hlt

/-- The words of a text without marks hold only what plain characters are. -/
theorem weight_of_unmarked (hp : ∀ c, isPlain c = true → p c = false) {cs : List Char} (hcs : ∀ c ∈ cs, isMark c = false)
    (h : splitWords cs = .ok words) : weight p words = 0 := by
  obtain ⟨before, pos, scan, hscans, hscan, hweight⟩ := scans_unmarked hp hcs 0 Scan.isQuoted_between
  have hread := hscans []
  rw [List.append_nil, scanWords_nil pos hscan] at hread
  cases h.symm.trans hread
  exact hweight

end RouterPlan.Text
