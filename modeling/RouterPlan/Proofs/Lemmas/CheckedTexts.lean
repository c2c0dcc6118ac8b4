import RouterPlan.Checked.Reading
import RouterPlan.Proofs.Lemmas.CheckedSteps
import RouterPlan.Proofs.Lemmas.WordStarts
import RouterPlan.Proofs.Lemmas.WrittenText

/-!
# Cuts of texts

Every cut that reading statements makes is at the end of a character, so statements are read as without the checks
(`Checked.statements_eq`). Behind an indent and a keyword this is because they start what is cut. A locator is cut behind a bracket
that closes it, up to which its depth is not zero (`locatorEnd_eq`). At a verb the bytes of the slashes in front of it are counted
in the word, and in the line there may be quotes and backslashes between them; all of these are one byte long, and each slash of the
word takes at least one (`gains_of_scanWords`).
-/

namespace RouterPlan

namespace Text

variable {pos : Nat} {scan : Scan} {cs : List Char} {word : Word} {after : List Word}

/-- Characters of one byte each. -/
def isSingle (c : Char) : Bool :=
  c.utf8Size == 1

/-- A run of characters of one byte has a part of any length. -/
theorem exists_part_of_le_singles {n : Nat} (h : n ≤ (cs.takeWhile isSingle).length) :
    ∃ part rest, cs = part ++ rest ∧ byteSize part = n := by
  induction n generalizing cs with
  | zero => exact ⟨[], cs, rfl, rfl⟩
  | succ n ih =>
    cases cs with
    | nil => exact absurd h (by simp)
    | cons c cs =>
      rw [List.takeWhile_cons] at h
      split at h
      · rename_i hc
        obtain ⟨part, rest, rfl, hpart⟩ := ih (Nat.le_of_succ_le_succ h)
        have hone : c.utf8Size = 1 := by simpa [isSingle] using hc
        exact ⟨c :: part, rest, rfl, by rw [byteSize, hpart, hone, Nat.add_comm]⟩
      · exact absurd h (by simp)

/-- A word comes of one that is open in front of a text, and gets no more slashes from the front of the text than there are
characters of one byte. -/
def Gains (opened word : Word) (cs : List Char) : Prop :=
  ∃ tail, word.text.toList = opened.text.toList ++ tail ∧
    (tail.takeWhile (· == '/')).length ≤ (cs.takeWhile isSingle).length

theorem Gains.refl (word : Word) (cs : List Char) : Gains word word cs :=
  ⟨[], (List.append_nil _).symm, Nat.zero_le _⟩

/-- A quote or a backslash gives the word nothing. -/
theorem Gains.mark {opened : Word} {c : Char} (h : Gains opened word cs) (hc : isSingle c = true) :
    Gains opened word (c :: cs) := by
  obtain ⟨tail, htext, hle⟩ := h
  refine ⟨tail, htext, ?_⟩
  rw [List.takeWhile_cons_of_pos hc]
  exact Nat.le_succ_of_le hle

/-- A slash is of one byte, and any other character ends the slashes. -/
theorem Gains.push {opened : Word} {c : Char} (h : Gains (opened.push c) word cs) : Gains opened word (c :: cs) := by
  obtain ⟨tail, htext, hle⟩ := h
  refine ⟨c :: tail, by simpa [Word.push] using htext, ?_⟩
  by_cases hc : c = '/'
  · subst hc
    rw [List.takeWhile_cons_of_pos rfl, List.takeWhile_cons_of_pos (by decide)]
    exact Nat.succ_le_succ hle
  · rw [List.takeWhile_cons_of_neg (by simp [hc])]
    exact Nat.zero_le _

/-- The first word that a scan gives comes of the one that is open. -/
theorem gains_of_scanWords (hok : scanWords pos scan cs = .ok (word :: after))
    (hopen : scan = .between → ∃ c rest, cs = c :: rest ∧ isSeparator c = false) : Gains (scan.word pos) word cs := by
  fun_induction scanWords pos scan cs generalizing word after with
  | case1 => cases hok
  | case2 pos v cs ih => exact (ih hok (by simp)).mark (by decide)
  | case3 pos v cs ih => exact (ih hok (by simp)).push.mark (by decide)
  | case4 pos v cs ih => exact (ih hok (by simp)).push.mark (by decide)
  | case5 pos v c cs _ _ _ ih => exact (ih hok (by simp)).push
  | case6 pos scan =>
    cases scan with
    | between =>
      obtain ⟨c, rest, hcs, -⟩ := hopen rfl
      cases hcs
    | inside v =>
      cases hok
      exact .refl _ _
    | quoted v =>
      cases hok
      exact .refl _ _
  | case7 pos scan cs hscan ih => exact (ih hok (by simp)).mark (by decide)
  | case8 => cases hok
  | case9 pos scan c cs _ _ hscan ih => exact (ih hok (by simp)).push.mark (by decide)
  | case10 pos scan c cs _ _ _ hscan _ _ _ hsep ih =>
    obtain ⟨more, hmore, hafter⟩ := bind_eq_ok_iff.1 hok
    cases scan with
    | between =>
      obtain ⟨d, rest, hcs, hd⟩ := hopen rfl
      cases hcs
      rw [hsep] at hd
      cases hd
    | inside v =>
      cases hafter
      exact .refl _ _
    | quoted v => exact absurd rfl (hscan v)
  | case11 pos scan c cs _ _ _ hscan hquote hlast hslash hsep ih => exact (ih hok (by simp)).push

/-- A word that starts in a text can be cut off behind its slashes. -/
theorem StartsAt.exists_part {line ahead rest : List Char} {c : Char} (h : StartsAt 0 line word after ahead c rest) :
    ∃ before body, line = before ++ body ∧
      byteSize before = word.offset + (word.text.toList.takeWhile (· == '/')).length := by
  obtain ⟨tail, htext, hle⟩ := gains_of_scanWords h.scan fun _ => ⟨c, rest, rfl, h.notSeparator⟩
  have hall : word.text.toList = tail := htext
  obtain ⟨part, body, hcut, hpart⟩ := exists_part_of_le_singles hle
  refine ⟨ahead ++ part, body, by rw [h.text, hcut, List.append_assoc], ?_⟩
  rw [byteSize_append, hpart, h.offset, Nat.zero_add, hall]

/-- A locator and what is behind it make the text that was cut. -/
theorem append_of_splitLocator {depth : Nat} {quoted : Bool} {cs locator rest : List Char}
    (h : Command.splitLocator depth quoted cs = some (locator, rest)) : cs = locator ++ rest := by
  induction cs using backslash_induction generalizing depth quoted locator with
  | nil => cases h
  | last => cases h
  | escape c cs ih =>
    rw [Command.splitLocator, Option.map_eq_some_iff] at h
    obtain ⟨⟨tail, rest'⟩, htail, heq⟩ := h
    cases heq
    rw [ih htail, List.cons_append, List.cons_append]
  | single c cs hc ih =>
    rcases splitLocator_cons hc depth quoted with ⟨rfl, rfl, hsplit⟩ | ⟨deep, hsplit⟩
    · rw [hsplit] at h
      cases h
      rfl
    · rw [hsplit, Option.map_eq_some_iff] at h
      obtain ⟨⟨tail, rest'⟩, htail, heq⟩ := h
      cases heq
      rw [ih htail, List.cons_append]

end Text

namespace Checked

open Text (byteSize)

/-! ## Lines -/

theorem continued?_eq (line next : List Char) : continued? line next = .ok (Text.continued? line next) := by
  rw [continued?, Text.continued?]
  split
  · rename_i hgoes
    obtain ⟨rest, rfl⟩ := List.isPrefixOf_iff_prefix.1 hgoes.2
    rw [Text.utf8ByteSize_ofList, cut_append, List.drop_left]
    rfl
  · rfl

theorem joinWrapped_eq (first : Nat) (line : List Char) (next : Nat) (physical : List (List Char)) :
    joinWrapped first line next physical = .ok (Text.joinWrapped first line next physical) := by
  induction physical generalizing first line next with
  | nil => rfl
  | cons following physical ih =>
    rw [joinWrapped, Text.joinWrapped, continued?_eq]
    cases Text.continued? line following with
    | none =>
      change (joinWrapped next following (next + 1) physical >>= _) = _
      rw [ih]
      rfl
    | some joined => exact ih ..

theorem logicalLines_eq (cs : List Char) : logicalLines cs = .ok (Text.logicalLines cs) := by
  rw [logicalLines, Text.logicalLines]
  cases Text.lines cs with
  | nil => rfl
  | cons line rest => exact joinWrapped_eq ..

/-! ## Commands -/

/-- A locator goes on at a character, and the places behind are counted past it. -/
theorem map_splitLocator {depth deep : Nat} {quoted quoted' : Bool} {c : Char} {cs : List Char}
    (h : Command.splitLocator depth quoted (c :: cs) =
      (Command.splitLocator deep quoted' cs).map fun (locator, rest) => (c :: locator, rest)) (pos : Nat) :
    ((Command.splitLocator depth quoted (c :: cs)).map fun parts => pos + byteSize parts.1) =
      (Command.splitLocator deep quoted' cs).map fun parts => pos + c.utf8Size + byteSize parts.1 := by
  rw [h, Option.map_map]
  exact congrArg (Option.map · _) (funext fun parts => (Nat.add_assoc ..).symm)

/-- The bracket that closes a locator is found where the locator is cut. Up to there the depth is not zero: it starts so, and an
end is found before a bracket could come at which it is. -/
theorem locatorEnd_eq {depth : Nat} (hdepth : 0 < depth) (pos : Nat) (quoted : Bool) (cs : List Char) :
    locatorEnd pos depth quoted cs = .ok ((Command.splitLocator depth quoted cs).map fun parts => pos + byteSize parts.1) := by
  fun_induction locatorEnd pos depth quoted cs with
  | case1 => rfl
  | case2 => rfl
  | case3 pos depth quoted c cs ih =>
    rw [ih hdepth, Command.splitLocator, Option.map_map]
    refine congrArg (fun f => Except.ok (Option.map f _)) (funext fun parts => ?_)
    exact (Nat.add_assoc ..).trans (Nat.add_assoc ..)
  | case4 pos depth quoted cs _ _ ih =>
    have hsplit : Command.splitLocator depth quoted ('"' :: cs) =
        (Command.splitLocator depth (!quoted) cs).map fun (locator, rest) => ('"' :: locator, rest) := by
      simp [Command.splitLocator]
    rw [map_splitLocator hsplit]
    exact ih hdepth
  | case5 pos depth quoted c cs _ _ _ hopen ih =>
    obtain ⟨rfl, hquoted⟩ := hopen
    have hsplit : Command.splitLocator depth quoted ('[' :: cs) =
        (Command.splitLocator (depth + 1) quoted cs).map fun (locator, rest) => ('[' :: locator, rest) := by
      simp_all [Command.splitLocator]
    rw [map_splitLocator hsplit]
    exact ih (Nat.succ_pos depth)
  | case6 pos depth quoted c cs _ _ _ _ hclose ih =>
    obtain ⟨rfl, hquoted⟩ := hclose
    rw [subtract_of_le hdepth]
    change (if depth - 1 = 0 then (.ok (some (pos + 1)) : Checked _) else locatorEnd (pos + 1) (depth - 1) quoted cs) = _
    split
    · rename_i hlast
      have hsplit : Command.splitLocator depth quoted (']' :: cs) = some ([']'], cs) := by
        simp_all [Command.splitLocator]
      rw [hsplit]
      rfl
    · rename_i hlast
      have hsplit : Command.splitLocator depth quoted (']' :: cs) =
          (Command.splitLocator (depth - 1) quoted cs).map fun (locator, rest) => (']' :: locator, rest) := by
        simp_all [Command.splitLocator]
      rw [map_splitLocator hsplit]
      exact ih _ (Nat.pos_of_ne_zero hlast)
  | case7 pos depth quoted c cs hend hescape hquote hopen hclose ih =>
    have hsplit : Command.splitLocator depth quoted (c :: cs) =
        (Command.splitLocator depth quoted cs).map fun (locator, rest) => (c :: locator, rest) := by
      rw [Command.splitLocator]
      · cases quoted <;> simp_all
      · exact hend
      · exact hescape
    rw [map_splitLocator hsplit]
    exact ih hdepth

/-- The end of the locator that a text starts with. -/
theorem locatorEnd_zero {cs : List Char} (h : cs.head? = some '[') :
    locatorEnd 0 0 false cs = .ok ((Command.splitLocator 0 false cs).map fun parts => byteSize parts.1) := by
  obtain ⟨rest, rfl⟩ : ∃ rest, cs = '[' :: rest := by
    cases cs with
    | nil => cases h
    | cons c rest =>
      cases h
      exact ⟨rest, rfl⟩
  have hsplit : Command.splitLocator 0 false ('[' :: rest) =
      (Command.splitLocator 1 false rest).map fun (locator, rest) => ('[' :: locator, rest) := by
    simp [Command.splitLocator]
  have hstart : locatorEnd 0 0 false ('[' :: rest) = locatorEnd 1 1 false rest := by simp [locatorEnd]
  have hplaces := map_splitLocator hsplit 0
  simp only [Nat.zero_add] at hplaces
  rw [hstart, locatorEnd_eq Nat.one_pos, hplaces]
  rfl

theorem agrees_readTarget (cs : List Char) : Agrees True (readTarget cs).run (Command.readTarget cs) := by
  rw [readTarget, Command.readTarget]
  split
  · rename_i hopen
    refine .bindLift (.of_eq (locatorEnd_zero hopen)) ?_
    cases hsplit : Command.splitLocator 0 false cs with
    | none => exact .of_eq rfl
    | some parts =>
      obtain ⟨locator, rest⟩ := parts
      obtain rfl := Text.append_of_splitLocator hsplit
      refine .bindLift (.of_eq (cut_append locator rest)) ?_
      refine .bindRun (.of_eq rfl) fun _ _ => .of_eq rfl
  · exact .bindRun (.of_eq rfl) fun _ _ => .of_eq rfl

theorem agrees_readSet (cs : List Char) : Agrees True (readSet cs).run (Command.readSet cs) := by
  refine (agrees_readTarget _).bindRun fun target _ => ?_
  refine .bindRun (.of_eq rfl) fun values _ => ?_
  split <;> exact .of_eq rfl

theorem agrees_readCommand (line : List Char) : Agrees True (readCommand line).run (Command.ofChars line) := by
  dsimp only [readCommand, Command.ofChars]
  split
  · exact .of_eq rfl
  · rw [List.span_eq_takeWhile_dropWhile]
    have hline : Text.trim line =
        (Text.trim line).takeWhile (!Text.isSeparator ·) ++ (Text.trim line).dropWhile (!Text.isSeparator ·) :=
      List.takeWhile_append_dropWhile.symm
    generalize (Text.trim line).takeWhile (!Text.isSeparator ·) = keyword at hline ⊢
    generalize (Text.trim line).dropWhile (!Text.isSeparator ·) = rest at hline ⊢
    have hcut : cut (String.ofList keyword).utf8ByteSize (Text.trim line) = .ok (keyword, rest) :=
      cut_eq_ok_iff.2 ⟨hline, (Text.utf8ByteSize_ofList _).symm⟩
    refine .bindLift (.of_eq hcut) ?_
    dsimp only
    cases Keyword.ofText? (String.ofList keyword) with
    | none => exact .of_eq rfl
    | some known =>
      cases known with
      | set => exact agrees_readSet rest
      | _ => exact .of_eq rfl

/-! ## Statements -/

theorem byteSize_slashes (cs : List Char) : byteSize (cs.takeWhile (· == '/')) = (cs.takeWhile (· == '/')).length := by
  induction cs with
  | nil => rfl
  | cons c cs ih =>
    rw [List.takeWhile_cons]
    split
    · rename_i hc
      have hone : c.utf8Size = 1 := by rw [eq_of_beq hc]; rfl
      rw [byteSize, ih, hone, List.length_cons, Nat.add_comm]
    · rfl

/-- The slashes in front of a word are what it has more bytes than the word without them. -/
theorem subtract_bare (text : String) :
    subtract text.utf8ByteSize (String.ofList (text.toList.dropWhile (· == '/'))).utf8ByteSize =
      .ok (text.toList.takeWhile (· == '/')).length := by
  have hsize : text.utf8ByteSize = byteSize text.toList := by rw [← Text.utf8ByteSize_ofList, String.ofList_toList]
  have hparts : byteSize text.toList = (text.toList.takeWhile (· == '/')).length + byteSize (text.toList.dropWhile (· == '/')) := by
    rw [← byteSize_slashes, ← Text.byteSize_append, List.takeWhile_append_dropWhile]
  rw [hsize, Text.utf8ByteSize_ofList, hparts, subtract_of_le (Nat.le_add_left _ _), Nat.add_sub_cancel]

/-- The path of a line is split from its command as without checks. -/
theorem splitPath_eq {line : List Char} {words : List Word} (hwords : Text.StartIn 0 line words) (segments : List String) :
    splitPath line segments words = .ok (Statement.splitPath line segments words) := by
  induction words generalizing segments with
  | nil => rfl
  | cons word words ih =>
    have hrest : Text.StartIn 0 line words := fun before first after h => hwords (word :: before) first after (by rw [h]; rfl)
    obtain ⟨ahead, c, rest, hstart⟩ := hwords [] word words rfl
    obtain ⟨before, body, rfl, hbefore⟩ := hstart.exists_part
    have hempty : ((word.text.toList.takeWhile (· == '/')).length == 0) = (word.text.toList.takeWhile (· == '/')).isEmpty := by
      cases word.text.toList.takeWhile (· == '/') <;> rfl
    rw [splitPath, Statement.splitPath, subtract_bare, List.span_eq_takeWhile_dropWhile]
    dsimp only [bind, Except.bind]
    rw [hempty, ← hbefore, Text.dropBytes_append]
    split
    · rw [cut_append]
      rfl
    · exact ih hrest _

/-- The slashes of this word are one that is written as it is and one behind a backslash; the cut is between the two characters of
the escape. -/
example : splitPath "/\\/set a=1".toList [] [⟨"//set", 0⟩, ⟨"a=1", 7⟩] = .ok (.root, some "/set a=1".toList) := by
  decide +kernel

theorem readBody_eq (body : List Char) : readBody body = .ok (Statement.readBody body) := by
  rw [readBody, Statement.readBody]
  split
  · rfl
  · rw [(agrees_readCommand body).eq trivial]
    cases Command.ofChars body <;> rfl

theorem ofLine_eq (current : Path) (line : List Char) : ofLine current line = .ok (Statement.ofLine current line) := by
  rw [ofLine.eq_def]
  split
  · rfl
  · rename_i tail
    rw [Statement.ofLine]
    cases hwords : Text.splitWords ('/' :: tail) with
    | error cause => rfl
    | ok words =>
      dsimp only
      rw [splitPath_eq (Text.startIn_of_scanWords hwords)]
      rcases Statement.splitPath ('/' :: tail) [] words with ⟨path, _ | body⟩
      · rfl
      · dsimp only [bind, Except.bind]
        rw [readBody_eq]
        rfl
  · rename_i hcomment hpath
    rw [readBody_eq, Statement.ofLine]
    · rfl
    · exact hcomment
    · exact hpath

theorem ofLines_eq (current : Path) (lines : List (Nat × List Char)) :
    ofLines current lines = .ok (Statement.ofLines current lines) := by
  induction lines generalizing current with
  | nil => rfl
  | cons line lines ih =>
    obtain ⟨number, raw⟩ := line
    rw [ofLines, Statement.ofLines]
    dsimp only
    split
    · exact ih current
    · rw [ofLine_eq]
      dsimp only [bind, Except.bind]
      rw [ih]
      rfl

/-- The statements of a text are found without a stop. -/
theorem statements_eq (text : String) : statements text = .ok (Statement.ofText text) := by
  rw [statements, logicalLines_eq]
  exact ofLines_eq .root _

end Checked

end RouterPlan
