import RouterPlan.Proofs.Lemmas.AnchoredClasses

/-!
# Patterns between anchors

A text that writes a pattern on its own writes, between `^(?:` and `)$`, that pattern in a group between the two assertions
(`Pattern.written?_anchored`). The text is read in the same steps in both cases; the stack of open groups has one group more below it
(`Pattern.Seated`).
-/

namespace RouterPlan.Pattern

theorem Keeps.readPart (flags : Flags) (c : Char) : Keeps (readPart flags c) := by
  intro cs ds x rest hahead h
  unfold Pattern.readPart at h ⊢
  split at h
  · obtain ⟨set, hset, h⟩ := Option.map_eq_some_iff.1 h
    cases h
    exact ⟨ds, Option.map_eq_some_iff.2 ⟨set, hset, rfl⟩, hahead⟩
  · cases h
    exact ⟨ds, rfl, hahead⟩
  · cases h
    exact ⟨ds, rfl, hahead⟩
  · exact (Keeps.readClass flags).map (fun set => ({ pattern := one set.set, depth := set.depth } : Part)) cs ds x rest hahead h
  · obtain ⟨⟨escape, after⟩, hescape, h⟩ := Option.bind_eq_some_iff.1 h
    obtain ⟨after', hescape', hafter⟩ := Keeps.escapeRead flags _ _ _ _ hahead hescape
    simp only [hescape', Option.bind_eq_bind, Option.bind_some]
    cases escape with
    | literal c =>
      obtain ⟨set, hset, h⟩ := Option.bind_eq_some_iff.1 h
      cases h
      exact ⟨after', Option.bind_eq_some_iff.2 ⟨set, hset, rfl⟩, hafter⟩
    | set set =>
      cases h
      exact ⟨after', rfl, hafter⟩
    | assertion a =>
      cases h
      exact ⟨after', rfl, hafter⟩
  · obtain ⟨set, hset, h⟩ := Option.map_eq_some_iff.1 h
    cases h
    exact ⟨ds, Option.map_eq_some_iff.2 ⟨set, hset, rfl⟩, hahead⟩

/-- The open groups in the anchored text, where those of the text alone are `current` in `around`: the lowest group is one that does
not capture, in the group `outer` of the anchors; all others are the same. -/
inductive Seated (outer : Group) : Group → List Group → Group → List Group → Prop
  | lowest (g : Group) : Seated outer g [] { g with captures := false } [outer]
  | above (g : Group) {current current' : Group} {around around' : List Group} (h : Seated outer current around current' around') :
    Seated outer g (current :: around) g (current' :: around')

namespace Seated

variable {outer current current' : Group} {around around' : List Group}

theorem flags (h : Seated outer current around current' around') : current'.flags = current.flags := by
  cases h <;> rfl

theorem isEmpty (h : Seated outer current around current' around') : around'.isEmpty = false := by
  cases h <;> rfl

/-- What is done to the current group, whether or not it captures, is done in the anchored text too. -/
theorem map (h : Seated outer current around current' around') (f : Group → Group)
    (hf : ∀ g, f { g with captures := false } = { f g with captures := false }) : Seated outer (f current) around (f current') around' := by
  cases h with
  | lowest =>
    rw [hf]
    exact .lowest (f current)
  | above _ h => exact .above (f current) h

theorem times (h : Seated outer current around current' around') {low : Nat} {high : Option Nat} {g : Group}
    (htimes : current.times? low high = some g) : ∃ g', current'.times? low high = some g' ∧ Seated outer g around g' around' := by
  cases h with
  | lowest =>
    unfold Group.times? at htimes ⊢
    split at htimes
    · cases htimes
    · rename_i part parts hparts
      split at htimes
      · rename_i hrepeatable
        cases htimes
        simp only [hparts, hrepeatable, if_true]
        exact ⟨_, rfl, .lowest _⟩
      · cases htimes
  | above _ h => exact ⟨g, htimes, .above g h⟩

end Seated

/-- The end of the anchored text, once the group of the text is closed. -/
theorem readParts_dollar {g : Group} (hflags : g.flags = {}) (names : List (List Char)) (fuel : Nat) :
    readParts names [] g (fuel + 2) ['$'] = some (g.push { pattern := assert .endOfText }).inside := by
  have hskip : ∀ cs, g.flags.skip cs = cs := by
    intro cs
    rw [hflags]
    rfl
  have hskip' : ∀ cs, (g.push { pattern := assert .endOfText }).flags.skip cs = cs := hskip
  have hpart : readPart g.flags '$' [] = some ({ pattern := assert .endOfText }, []) := by
    rw [hflags]
    rfl
  simp [readParts, hskip, hskip', hpart]

/-- A text that can be read is read in the same way between its anchors, in one more group. Only a comment at the end of the text can
keep the anchored text from being read. -/
theorem readParts_anchored {outer : Group} (houter : outer.flags = {}) {fuel : Nat} {names : List (List Char)} {around : List Group}
    {current : Group} {cs : List Char} {part : Part} (h : readParts names around current fuel cs = some part)
    {around' : List Group} {current' : Group} (hseated : Seated outer current around current' around') {ds : List Char}
    (hahead : Ahead cs ds) {fuel' : Nat} (hfuel : fuel + 3 ≤ fuel') {whole : Part}
    (hwhole : readParts names around' current' fuel' ds = some whole) :
    whole = ((outer.push { pattern := group false part.pattern, depth := part.depth + 1 }).push
      { pattern := assert .endOfText }).inside := by
  -- Each step of the text alone is a step of the anchored one; when the text ends, that has the three steps of the anchor left.
  induction fuel generalizing names around current cs around' current' ds fuel' with
  | zero => cases h
  | succ fuel ih =>
    obtain ⟨fuel', rfl⟩ : ∃ more, fuel' = more + 1 := ⟨fuel' - 1, by omega⟩
    have hfuel : fuel + 3 ≤ fuel' := by omega
    have hskip := hahead.skip current.flags
    unfold readParts at h hwhole
    rw [hseated.flags] at hwhole
    split at h
    · rename_i hend
      rw [hend, ahead_nil] at hskip
      split at h
      · rename_i hlowest
        cases h
        obtain rfl := List.isEmpty_iff.1 hlowest
        rcases hskip with hanchor | hcomment
        · cases hseated
          obtain ⟨more, rfl⟩ : ∃ more, fuel' = more + 2 := ⟨fuel' - 2, by omega⟩
          simp only [hanchor, anchorEnd] at hwhole
          rw [readParts_dollar (show (outer.push _).flags = {} from houter)] at hwhole
          cases hwhole
          rfl
        · -- A comment has taken the anchor in, so the group of the text is never closed.
          simp [hcomment, hseated.isEmpty] at hwhole
      · cases h
    · rename_i after hopen
      rw [hopen, ahead_cons] at hskip
      simp only [hskip] at hwhole
      split at h
      · cases h
      · rename_i g rest hopening
        obtain ⟨rest', hopening', hrest⟩ := Keeps.readOpening _ _ _ _ _ (ahead_append after) hopening
        simp only [hopening'] at hwhole
        exact ih h (.above g hseated) hrest hfuel hwhole
      · rename_i name g rest hopening
        obtain ⟨rest', hopening', hrest⟩ := Keeps.readOpening _ _ _ _ _ (ahead_append after) hopening
        simp only [hopening'] at hwhole
        split at h
        · cases h
        · rename_i hnew
          rw [if_neg hnew] at hwhole
          exact ih h (.above g hseated) hrest hfuel hwhole
      · rename_i flags rest hopening
        obtain ⟨rest', hopening', hrest⟩ := Keeps.readOpening _ _ _ _ _ (ahead_append after) hopening
        simp only [hopening'] at hwhole
        exact ih h (hseated.map (fun g => { g.push { pattern := empty, repeatable := false } with flags }) fun _ => rfl) hrest
          hfuel hwhole
    · rename_i after hclose
      rw [hclose, ahead_cons] at hskip
      simp only [hskip] at hwhole
      split at h
      · cases h
      · rename_i g around
        cases hseated with
        | above _ hbelow =>
          exact ih h (hbelow.map (fun g => g.push current.close) fun _ => rfl) (ahead_append after) hfuel hwhole
    · rename_i after hbar
      rw [hbar, ahead_cons] at hskip
      simp only [hskip] at hwhole
      exact ih h (hseated.map Group.bar fun _ => rfl) (ahead_append after) hfuel hwhole
    · rename_i c after hopen hclose hbar hnext
      rw [hnext, ahead_cons] at hskip
      simp only [hskip] at hwhole
      split at h
      · rename_i htimes
        rw [if_pos htimes] at hwhole
        obtain ⟨⟨⟨low, high⟩, rest⟩, hread, h⟩ := Option.bind_eq_some_iff.1 h
        obtain ⟨g, hg, h⟩ := Option.bind_eq_some_iff.1 h
        obtain ⟨rest', hread', hrest⟩ := Keeps.readTimes _ _ _ _ _ _ (ahead_append after) hread
        obtain ⟨g', hg', hseated'⟩ := hseated.times hg
        simp only [hread', hg', Option.bind_eq_bind, Option.bind_some] at hwhole
        exact ih h hseated' hrest hfuel hwhole
      · rename_i hplain
        rw [if_neg hplain] at hwhole
        obtain ⟨⟨part, rest⟩, hread, h⟩ := Option.bind_eq_some_iff.1 h
        obtain ⟨rest', hread', hrest⟩ := Keeps.readPart _ _ _ _ _ _ (ahead_append after) hread
        simp only [hread', Option.bind_eq_bind, Option.bind_some] at hwhole
        exact ih h (hseated.map (fun g => g.push part) fun _ => rfl) hrest hfuel hwhole

/-- The pattern that a text writes, if it is well formed, however deep it is nested and however large it is. -/
def written? (text : String) : Option Pattern :=
  (readParts [] [] {} (text.toList.length + 1) text.toList).map (·.pattern)

theorem written?_of_ofText? {text : String} {p : Pattern} (h : ofText? text = some p) : written? text = some p := by
  obtain ⟨part, hpart, h⟩ := Option.bind_eq_some_iff.1 h
  split at h
  · cases h
  · cases h
    exact Option.map_eq_some_iff.2 ⟨part, hpart, rfl⟩

/-! ## What was read before -/

/-- Groups after which the next part is read alike: the flags are the same, and a repetition may follow in both or in neither. -/
structure Group.Alike (g g' : Group) : Prop where
  flags : g'.flags = g.flags
  last : g'.parts.head?.map (·.repeatable) = g.parts.head?.map (·.repeatable)

theorem Group.Alike.push {g g' : Group} (h : g.flags = g'.flags) (part : Part) : (g.push part).Alike (g'.push part) :=
  ⟨h.symm, rfl⟩

theorem Group.Alike.isSome_times? {g g' : Group} (h : g.Alike g') (low : Nat) (high : Option Nat) :
    (g.times? low high = none ∧ g'.times? low high = none) ∨
      ∃ r r', g.times? low high = some r ∧ g'.times? low high = some r' ∧ r.Alike r' := by
  have hlast := h.last
  unfold Group.times?
  cases hparts : g.parts with
  | nil =>
    cases hparts' : g'.parts with
    | nil => exact .inl ⟨rfl, rfl⟩
    | cons part' parts' =>
      rw [hparts, hparts'] at hlast
      cases hlast
  | cons part parts =>
    cases hparts' : g'.parts with
    | nil =>
      rw [hparts, hparts'] at hlast
      cases hlast
    | cons part' parts' =>
      rw [hparts, hparts'] at hlast
      have hrepeatable : part'.repeatable = part.repeatable := Option.some.inj hlast
      simp only [hrepeatable]
      cases part.repeatable with
      | false => exact .inl ⟨rfl, rfl⟩
      | true => exact .inr ⟨_, _, rfl, rfl, h.flags, rfl⟩

/-- Whether a text can be read does not depend on the parts before it, if a repetition may follow them alike. Those of the groups around
do not matter at all: a repetition in such a group follows the group that has just been closed. -/
theorem isSome_readParts_congr {names : List (List Char)} {around around' : List Group} {g g' : Group} (h : g.Alike g')
    (haround : around'.map (·.flags) = around.map (·.flags)) (fuel : Nat) (cs : List Char) :
    (readParts names around' g' fuel cs).isSome = (readParts names around g fuel cs).isSome := by
  induction fuel generalizing names around around' g g' cs with
  | zero => rfl
  | succ fuel ih =>
    have hempty : around'.isEmpty = around.isEmpty := by
      simpa using congrArg List.isEmpty haround
    unfold readParts
    rw [h.flags]
    generalize g.flags.skip cs = ds
    split
    · simp only [hempty]
      split <;> rfl
    · dsimp only
      split
      · rfl
      · rename_i inner rest _
        refine ih ⟨rfl, rfl⟩ ?_ rest
        rw [List.map_cons, List.map_cons, h.flags, haround]
      · rename_i name inner rest _
        split
        · rfl
        · refine ih ⟨rfl, rfl⟩ ?_ rest
          rw [List.map_cons, List.map_cons, h.flags, haround]
      · refine ih ?_ haround _
        exact ⟨rfl, rfl⟩
    · cases around with
      | nil =>
        obtain rfl := List.map_eq_nil_iff.1 haround
        rfl
      | cons outer around =>
        obtain ⟨outer', around', rfl, houter, haround⟩ := List.map_eq_cons_iff.1 haround
        refine ih ?_ haround _
        exact ⟨houter, rfl⟩
    · refine ih ?_ haround _
      exact ⟨h.flags, rfl⟩
    · rename_i c rest hopen hclose hbar
      split
      · cases readTimes g.flags c rest with
        | none => rfl
        | some read =>
          obtain ⟨⟨low, high⟩, rest⟩ := read
          simp only [Option.bind_eq_bind, Option.bind_some]
          rcases h.isSome_times? low high with ⟨hnone, hnone'⟩ | ⟨r, r', hr, hr', halike⟩
          · rw [hnone, hnone']
            rfl
          · rw [hr, hr']
            exact ih halike haround rest
      · cases readPart g.flags c rest with
        | none => rfl
        | some read =>
          obtain ⟨part, rest⟩ := read
          exact ih (.push h.flags.symm part) haround rest

/-! ## Texts between anchors -/

/-- The group of the anchors, in which only the start has been read. -/
def anchorGroup : Group :=
  Group.push {} { pattern := assert .startOfText }

theorem readParts_caret (fuel : Nat) (cs : List Char) :
    readParts [] [] {} (fuel + 1) ('^' :: cs) = readParts [] [] anchorGroup fuel cs := by
  simp [readParts, Flags.skip, readPart, anchorGroup, Flags.caret, Group.push]

theorem readParts_group {outer : Group} (houter : outer.flags = {}) (fuel : Nat) (cs : List Char) :
    readParts [] [] outer (fuel + 1) (['(', '?', ':'] ++ cs) = readParts [] [outer] { captures := false } fuel cs := by
  simp [readParts, Flags.skip, readOpening, Flags.read, houter]

theorem toList_closed (text : String) : ("(?:" ++ text ++ ")$").toList = ['(', '?', ':'] ++ (text.toList ++ anchorEnd) := by
  simp [anchorEnd]

/-- A text in a group with an end behind it. -/
theorem written?_closed_eq (text : String) : written? ("(?:" ++ text ++ ")$") =
    (readParts [] [{}] { captures := false } (text.toList.length + 5) (text.toList ++ anchorEnd)).map (·.pattern) := by
  have hlength : (['(', '?', ':'] ++ (text.toList ++ anchorEnd)).length + 1 = text.toList.length + 5 + 1 := by
    simp [anchorEnd]
  rw [written?, toList_closed, hlength, readParts_group rfl]

/-- A text in a group with a start in front of it and an end behind it. -/
theorem written?_anchored_eq (text : String) : written? ("^(?:" ++ text ++ ")$") =
    (readParts [] [anchorGroup] { captures := false } (text.toList.length + 5) (text.toList ++ anchorEnd)).map (·.pattern) := by
  have htext : ("^(?:" ++ text ++ ")$").toList = '^' :: (['(', '?', ':'] ++ (text.toList ++ anchorEnd)) := by
    simp [anchorEnd]
  have hlength : ('^' :: (['(', '?', ':'] ++ (text.toList ++ anchorEnd))).length + 1 = text.toList.length + 5 + 1 + 1 := by
    simp [anchorEnd]
  rw [written?, htext, hlength, readParts_caret, readParts_group rfl]

/-- A start that is put in front makes no difference to whether a text can be read. -/
theorem isSome_written?_anchored (text : String) :
    (written? ("^(?:" ++ text ++ ")$")).isSome = (written? ("(?:" ++ text ++ ")$")).isSome := by
  rw [written?_anchored_eq, written?_closed_eq, Option.isSome_map, Option.isSome_map]
  have hsame : Group.Alike { captures := false } { captures := false } := ⟨rfl, rfl⟩
  have haround : [anchorGroup].map (·.flags) = [({} : Group)].map (·.flags) := rfl
  exact isSome_readParts_congr hsame haround _ _

variable {text : String} {p q : Pattern}

/-- A pattern in a group with an end behind it, if the text alone writes a pattern. -/
theorem written?_closed (hp : written? text = some p) (hq : written? ("(?:" ++ text ++ ")$") = some q) :
    q = seq (group false p) (assert .endOfText) := by
  obtain ⟨part, hpart, rfl⟩ := Option.map_eq_some_iff.1 hp
  rw [written?_closed_eq] at hq
  obtain ⟨whole, hwhole, rfl⟩ := Option.map_eq_some_iff.1 hq
  rw [readParts_anchored rfl hpart (.lowest {}) (ahead_append _) (by omega) hwhole]
  rfl

/-- A pattern between its anchors, if the text alone writes a pattern. -/
theorem written?_anchored (hp : written? text = some p) (hq : written? ("^(?:" ++ text ++ ")$") = some q) :
    q = seq (assert .startOfText) (seq (group false p) (assert .endOfText)) := by
  obtain ⟨part, hpart, rfl⟩ := Option.map_eq_some_iff.1 hp
  rw [written?_anchored_eq] at hq
  obtain ⟨whole, hwhole, rfl⟩ := Option.map_eq_some_iff.1 hq
  rw [readParts_anchored rfl hpart (.lowest {}) (ahead_append _) (by omega) hwhole]
  rfl

end RouterPlan.Pattern
