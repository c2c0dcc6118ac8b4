import RouterPlan.Checked.Basic
import RouterPlan.Proofs.Lemmas.Lists
import RouterPlan.Proofs.Lemmas.Words

/-!
# Steps that do not stop

A program in checked steps agrees with a value when it gives the value, or stops for want of memory where there is no room
(`Checked.Agrees`). Programs that agree step by step agree as a whole, with steps that may be refused (`Agrees.bindRun`) as without
(`Agrees.bind`). The steps themselves: a text is cut at the end of each of its parts and nowhere else (`cut_eq_ok_iff`).
-/

namespace RouterPlan.Checked

variable {α β ε : Type} {room room' : Prop}

/-- A program gives a value, or where there is no room it may stop at a list that is longer than what memory holds. -/
def Agrees (room : Prop) (program : Checked α) (value : α) : Prop :=
  program = .ok value ∨ program = .error .memory ∧ ¬room

theorem Agrees.of_eq {program : Checked α} {value : α} (h : program = .ok value) : Agrees room program value :=
  .inl h

/-- Where there is room a program gives its value. -/
theorem Agrees.eq {program : Checked α} {value : α} (h : Agrees room program value) (hroom : room) : program = .ok value :=
  h.resolve_right fun hstop => hstop.2 hroom

theorem Agrees.mono {program : Checked α} {value : α} (h : Agrees room program value) (himp : room' → room) :
    Agrees room' program value :=
  h.imp_right fun hstop => ⟨hstop.1, fun hroom => hstop.2 (himp hroom)⟩

theorem Agrees.bind {program : Checked α} {value : α} {next : α → Checked β} {result : β} (h : Agrees room program value)
    (hnext : Agrees room (next value) result) : Agrees room (program >>= next) result := by
  rcases h with rfl | ⟨rfl, hroom⟩
  · exact hnext
  · exact .inr ⟨rfl, hroom⟩

/-- Steps that may be refused agree when the first do, and the next ones where the first are not refused. -/
theorem Agrees.bindRun {program : ExceptT ε Checked α} {value : Except ε α} {next : α → ExceptT ε Checked β}
    {next' : α → Except ε β} (h : Agrees room program.run value)
    (hnext : ∀ a, value = .ok a → Agrees room (next a).run (next' a)) :
    Agrees room (program >>= next).run (value >>= next') := by
  rw [ExceptT.run_bind]
  refine h.bind ?_
  cases value with
  | ok a => exact hnext a rfl
  | error cause => exact .of_eq rfl

/-- A step that is not refused before others that may be. -/
theorem Agrees.bindLift {program : Checked α} {value : α} {next : α → ExceptT ε Checked β} {result : Except ε β}
    (h : Agrees room program value) (hnext : Agrees room (next value).run result) :
    Agrees room ((liftM program : ExceptT ε Checked α) >>= next).run result := by
  rcases h with rfl | ⟨rfl, hroom⟩
  · exact hnext
  · exact .inr ⟨rfl, hroom⟩

/-! ## The steps -/

/-- A text is cut at a byte offset when that many bytes make a part of it. -/
theorem cut_eq_ok_iff {offset : Nat} {cs before rest : List Char} :
    cut offset cs = .ok (before, rest) ↔ cs = before ++ rest ∧ Text.byteSize before = offset := by
  constructor
  · intro h
    fun_induction cut offset cs generalizing before with
    | case1 cs =>
      cases h
      exact ⟨rfl, rfl⟩
    | case2 => cases h
    | case3 offset c cs hsize ih =>
      obtain ⟨⟨tail, rest'⟩, hcut, hafter⟩ := bind_eq_ok_iff.1 h
      cases hafter
      obtain ⟨rfl, htail⟩ := ih hcut
      exact ⟨rfl, by rw [Text.byteSize, htail]; omega⟩
    | case4 => cases h
  · rintro ⟨rfl, rfl⟩
    induction before with
    | nil => rw [Text.byteSize, cut, List.nil_append]
    | cons c before ih =>
      have hpos := c.utf8Size_pos
      obtain ⟨n, hn⟩ : ∃ n, c.utf8Size + Text.byteSize before = n + 1 := ⟨c.utf8Size + Text.byteSize before - 1, by omega⟩
      have hrest : n + 1 - c.utf8Size = Text.byteSize before := by omega
      rw [Text.byteSize, hn, List.cons_append, cut, if_pos (by omega), hrest, ih]
      rfl

/-- The first byte of a letter of two bytes is no place to cut at. -/
example : cut 1 "é".toList = .error .cut := by
  decide

/-- A text can be cut behind each of its parts. -/
theorem cut_append (before rest : List Char) : cut (Text.byteSize before) (before ++ rest) = .ok (before, rest) :=
  cut_eq_ok_iff.2 ⟨rfl, rfl⟩

theorem subtract_of_le {n m : Nat} (h : m ≤ n) : subtract n m = .ok (n - m) :=
  if_pos h

theorem increment_of_lt {n : Nat} (h : n + 1 < Text.indexBound) : increment n = .ok (n + 1) :=
  if_pos h

theorem insertAt_of_le {l : List α} {index : Nat} (h : index ≤ l.length) (a : α) :
    insertAt l index a = .ok (l.insertIdx index a) :=
  if_pos h

theorem removeAt_of_lt {l : List α} {index : Nat} (h : index < l.length) : removeAt l index = .ok (l.eraseIdx index) :=
  if_pos h

/-- Where there is room for a list its length is a number of the machine. -/
theorem agrees_length (l : List α) : Agrees (l.length < lengthBound) (length l) l.length := by
  rw [length]
  split
  · exact .of_eq rfl
  · rename_i hlong
    exact .inr ⟨rfl, hlong⟩

end RouterPlan.Checked
