import Mathlib.Data.List.Nodup
import RouterPlan.Proofs.Lemmas.Configurations
import RouterPlan.Proofs.Lemmas.MergeSection

/-!
# Merges of whole configurations

A merge visits the sections of the target and merges each with the section at its path; it makes the sections that are missing
and touches no other (`mergeBelow_spec`, by induction on the row of target sections, and `exists_merge` for configurations). The
batches of the script lie at the same paths.
-/

namespace RouterPlan

/-- The naming of batches goes by their paths. -/
theorem Batch.tracks (order : OrderTable) : (growth order).Tracks Batch.path :=
  ⟨fun _ => rfl, fun _ _ => rfl⟩

namespace Script

/-- The batch of a path. -/
def batch? (script : Script) (path : Path) : Option Batch :=
  script.batches.find? (·.path = path)

/-- The script with some edits, one after the other. -/
def pushEdits (script : Script) (order : OrderTable) (edits : List (Path × Command)) : Script :=
  edits.foldl (fun script edit => script.push order edit.1 edit.2) script

theorem pushEdits_append {order : OrderTable} (script : Script) (edits more : List (Path × Command)) :
    script.pushEdits order (edits ++ more) = (script.pushEdits order edits).pushEdits order more :=
  List.foldl_append

/-- Every batch lies where its path says. -/
def Placed (script : Script) : Prop :=
  script.outline.Placed Batch.path .root

variable {script : Script}

/-- The batch of a path is the one that has it. -/
theorem Placed.batch?_eq_some_iff (h : script.Placed) {path : Path} {batch : Batch} :
    script.batch? path = some batch ↔ batch ∈ script.batches ∧ batch.path = path := by
  constructor
  · intro hb
    exact ⟨List.mem_of_find?_eq_some hb, by simpa using List.find?_some hb⟩
  · rintro ⟨hmem, hpath⟩
    cases hb : script.batch? path with
    | none =>
      have hno := List.find?_eq_none.1 hb batch hmem
      simp [hpath] at hno
    | some other =>
      have hmem' : other ∈ script.batches := List.mem_of_find?_eq_some hb
      have hpath' : other.path = path := by simpa using List.find?_some hb
      rw [List.inj_on_of_nodup_map h.nodup_paths hmem' hmem (hpath'.trans hpath.symm)]

/-- The batch of a path is where the names lead. -/
theorem Placed.batch?_eq_get? (h : script.Placed) (order : OrderTable) (path : Path) :
    script.batch? path = script.outline.get? (Batch.growth order) path.segments := by
  refine Option.ext fun batch => ?_
  have hiff : script.outline.get? (Batch.growth order) path.segments = some batch ↔
      batch ∈ script.batches ∧ batch.path = Path.root.extend path.segments :=
    Outline.Placed.get?_eq_some_iff (Batch.tracks order) h
  rw [Path.extend_root] at hiff
  exact h.batch?_eq_some_iff.trans hiff.symm

/-- What is made of the commands of the batches has for a path what is made of those of its batch. -/
theorem Placed.atPath_flatMap {α : Type} (h : script.Placed) (f : List Command → List α) (hf : f [] = []) (path : Path) :
    Configuration.atPath path (script.batches.flatMap fun batch => (f batch.commands).map (batch.path, ·)) =
      f (((script.batch? path).map (·.commands)).getD []) := by
  have hlist : ∀ batches : List Batch, (batches.map (·.path)).Nodup →
      Configuration.atPath path (batches.flatMap fun batch => (f batch.commands).map (batch.path, ·)) =
        f (((batches.find? (·.path = path)).map (·.commands)).getD []) := by
    intro batches hn
    induction batches with
    | nil => exact hf.symm
    | cons batch batches ih =>
      obtain ⟨hfirst, hrest⟩ := List.nodup_cons.1 hn
      have ih := ih hrest
      rw [List.flatMap_cons, Configuration.atPath_append, Configuration.atPath_map, ih]
      by_cases hp : batch.path = path
      · subst hp
        have hnone : batches.find? (·.path = batch.path) = none :=
          List.find?_eq_none.2 fun b hb heq => hfirst (List.mem_map.2 ⟨b, hb, by simpa using heq⟩)
        simp [hnone, hf]
      · simp [hp]
  exact hlist script.batches h.nodup_paths

/-- The commands for a path are those of its batch. -/
theorem Placed.atPath_edits (h : script.Placed) (path : Path) :
    Configuration.atPath path script.edits = ((script.batch? path).map (·.commands)).getD [] :=
  h.atPath_flatMap id rfl path

end Script

namespace Section

/-- A merge of well-formed sections goes through, and keeps the section well-formed and where it is. -/
theorem exists_mergeWith {order order' : OrderTable} {s target : Section} (hs : s.WellFormed order)
    (ht : target.WellFormed order') :
    ∃ commands s', s.mergeWith target = .ok (commands, s') ∧ s'.WellFormed order ∧ s'.path = s.path := by
  obtain ⟨p⟩ := nonempty_passes hs.nodup ht.nodup
  exact ⟨_, _, p.mergeWith_eq, p.effects.wellFormed hs, p.effects.frame.1⟩

end Section

namespace Configuration

/-- What a merge makes of one place: the section after it and the batch of its commands, where the target has a section, and
what was there, where it has none. -/
def MergedAt (wanted : Option Section) (current : Section) (before after : Option Section) (batch : Option Batch) : Prop :=
  match wanted with
  | none => after = before ∧ batch = none
  | some target => ∃ commands s', current.mergeWith target = .ok (commands, s') ∧ after = some s' ∧
      batch = some { path := s'.path, mode := s'.mode, commands }

/-- A merge of the children of a section with those of a target goes through and makes of every place below what
`MergedAt` says. -/
theorem mergeBelow_spec {order order' : OrderTable} (targets : Forest Section) (path : Path)
    (hplaced : targets.Placed Section.path path) (htargets : ∀ t ∈ targets.entries, t.WellFormed order')
    (o : Outline Section) (ho : o.Placed Section.path path) (hwf : ∀ s ∈ o.entries, s.WellFormed order) :
    ∃ batches o', mergeBelow order targets o = .ok (batches, o') ∧ o'.root = o.root ∧ o'.Placed Section.path path ∧
      (∀ s ∈ o'.entries, s.WellFormed order) ∧ batches.Placed Batch.path path ∧
      ∀ (t : Section) (b : Batch) (name : String) (names : List String),
        MergedAt ((⟨t, targets⟩ : Outline Section).get? (Section.growth order) (name :: names))
          (o.entryAt (Section.growth order) (name :: names)) (o.get? (Section.growth order) (name :: names))
          (o'.get? (Section.growth order) (name :: names))
          ((⟨b, batches⟩ : Outline Batch).get? (Batch.growth order) (name :: names)) := by
  induction targets generalizing path o with
  | nil => exact ⟨.nil, o, rfl, rfl, ho, hwf, trivial, fun _ _ _ _ => ⟨rfl, rfl⟩⟩
  | cons target below rest ihBelow ihRest =>
    obtain ⟨⟨name, hname⟩, hne, hbelow, hrest⟩ := hplaced
    have htr := Section.tracks order
    have hfresh : ∀ (s : Section) name, s.WellFormed order → ((Section.growth order).child s name).WellFormed order :=
      fun _ _ _ => Section.wellFormed_fresh order _
    have hchild := ho.childAt htr name
    have hchildWf := Outline.forall_entries_childAt hfresh hwf name
    -- The section itself.
    obtain ⟨commands, s', hmerge, hs'wf, hs'path⟩ := Section.exists_mergeWith (hchildWf _ List.mem_cons_self)
      (htargets target List.mem_cons_self)
    have hs'at : s'.path = path.child name := hs'path.trans hchild.1
    have hs'child : (Section.growth order).child s' =
        (Section.growth order).child (o.childAt (Section.growth order) name).root := by
      simp only [Section.growth, hs'path]
    -- The sections below it.
    obtain ⟨batches, child', hokBelow, hroot', hplaced', hwf', hbatches, hspecBelow⟩ :=
      ihBelow (path.child name) (hname ▸ hbelow) (fun t ht => htargets t (by simp [Forest.entries, ht]))
        { o.childAt (Section.growth order) name with root := s' } ⟨hs'at, hchild.2⟩
        (List.forall_mem_cons.2 ⟨hs'wf, fun s hs => hchildWf s (List.mem_cons_of_mem _ hs)⟩)
    have hnamed : (Section.growth order).name? child'.root = some name := by
      rw [htr.name?_eq, hplaced'.1, Path.name?_child]
    -- The sections beside it.
    obtain ⟨batches', o', hokRest, hrootRest, hplacedRest, hwfRest, hbatchesRest, hspecRest⟩ :=
      ihRest path hrest (fun t ht => htargets t (by simp [Forest.entries, ht]))
        (o.putChild (Section.growth order) name child') (ho.putChild htr hplaced')
        (Outline.forall_entries_putChild hwf hwf')
    have hrestNone : ∀ t, (⟨t, rest⟩ : Outline Section).child? (Section.growth order) name = none := by
      intro t
      refine List.find?_eq_none.2 fun r hr hnamed => ?_
      obtain ⟨other, hother⟩ := hrest.exists_name hr
      have hsame : other = name := by simpa [htr.name?_eq, hother] using hnamed
      exact hne r hr (by rw [hother, hsame, hname])
    have hbatchNone : ∀ names b, (⟨b, batches'⟩ : Outline Batch).get? (Batch.growth order) (name :: names) = none := by
      intro names b
      have hspec := hspecRest target b name names
      rw [Outline.get?_cons, hrestNone] at hspec
      exact hspec.2
    refine ⟨.cons { path := s'.path, mode := s'.mode, commands } batches batches', o', ?_, hrootRest, hplacedRest,
      hwfRest, ⟨⟨name, hs'at⟩, ?_, hs'at ▸ hbatches, hbatchesRest⟩, ?_⟩
    · simp only [mergeBelow, hname, Path.name?_child, Outline.editChild_eq, hmerge, hokBelow, hokRest, bind, Except.bind,
        pure, Except.pure]
    · intro r hr heq
      have hplaced : (⟨{ path, mode := .unordered }, batches'⟩ : Outline Batch).Placed Batch.path path :=
        ⟨rfl, hbatchesRest⟩
      have hfound := (hplaced.child?_eq_some_iff (Batch.tracks order)).2 ⟨hr, heq.trans hs'at⟩
      have hnone := hbatchNone [] { path, mode := .unordered }
      rw [Outline.get?_cons, hfound] at hnone
      cases hnone
    · intro t b other names
      rw [Outline.get?_cons, Outline.get?_cons (Batch.growth order), Outline.child?_cons, Outline.child?_cons]
      have htarget : (Section.growth order).name? target = some name := by rw [htr.name?_eq, hname, Path.name?_child]
      have hbatch : (Batch.growth order).name? { path := s'.path, mode := s'.mode, commands } = some name := by
        rw [(Batch.tracks order).name?_eq, hs'at, Path.name?_child]
      by_cases hother : other = name
      · subst hother
        rw [if_pos htarget, if_pos hbatch, Option.bind_some, Option.bind_some]
        have hafter : o'.get? (Section.growth order) (other :: names) =
            child'.get? (Section.growth order) names := by
          have hspec := hspecRest target { path, mode := .unordered } other names
          rw [Outline.get?_cons _ _ _ ⟨target, rest⟩, hrestNone] at hspec
          exact hspec.1.trans (Outline.get?_putChild_self hnamed names o)
        rw [hafter]
        cases names with
        | nil => exact ⟨commands, s', hmerge, congrArg some hroot', rfl⟩
        | cons next names =>
          have hspec := hspecBelow target { path := s'.path, mode := s'.mode, commands } next names
          rw [Outline.entryAt_withRoot hs'child] at hspec
          rw [← Outline.get?_childAt]
          exact hspec
      · have hne' : ¬some name = some other := fun h => hother (Option.some.inj h).symm
        rw [htarget, hbatch, if_neg hne', if_neg hne', ← Outline.get?_cons, ← Outline.get?_cons]
        have hspec := hspecRest t b other names
        rw [Outline.get?_putChild_of_ne hnamed hother, Outline.entryAt_putChild_of_ne hnamed hother] at hspec
        exact hspec

/-- A merge of well-formed configurations goes through, and makes of every place what `MergedAt` says. -/
theorem exists_merge {base target : Configuration} (hb : base.WellFormed) (ht : target.WellFormed) :
    ∃ script merged, base.merge target = .ok (script, merged) ∧ merged.WellFormed ∧ merged.order = base.order ∧
      script.Placed ∧ ∀ path, MergedAt (target.section? path) (base.sectionAt path) (base.section? path)
        (merged.section? path) (script.batch? path) := by
  obtain ⟨commands, s, hmerge, hswf, hspath⟩ := Section.exists_mergeWith (hb.sections _ List.mem_cons_self)
    (ht.sections _ List.mem_cons_self)
  obtain ⟨batches, o, hok, hroot, hplaced, hwf, hbatches, hspec⟩ :=
    mergeBelow_spec target.outline.below .root ht.placed.2 (fun t h => ht.sections t (List.mem_cons_of_mem _ h))
      { base.outline with root := s } ⟨hspath.trans hb.placed.1, hb.placed.2⟩
      (List.forall_mem_cons.2 ⟨hswf, fun s h => hb.sections s (List.mem_cons_of_mem _ h)⟩)
  have hscript : (Script.mk ⟨{ path := s.path, mode := s.mode, commands }, batches⟩).Placed :=
    ⟨hspath.trans hb.placed.1, hbatches⟩
  refine ⟨⟨⟨{ path := s.path, mode := s.mode, commands }, batches⟩⟩, { base with outline := o }, ?_, ⟨hplaced, hwf⟩, rfl,
    hscript, fun path => ?_⟩
  · simp only [merge, hmerge, hok, bind, Except.bind, pure, Except.pure]
  · rw [hscript.batch?_eq_get? base.order]
    have htarget : target.section? path = target.outline.get? (Section.growth base.order) path.segments :=
      Outline.get?_congr (show (Section.growth target.order).name? = (Section.growth base.order).name? from rfl) _ _
    rw [htarget]
    cases hseg : path.segments with
    | nil =>
      refine ⟨commands, s, ?_, ?_, rfl⟩
      · rw [sectionAt, hseg]
        exact hmerge
      · rw [section?, outlineAt?, hseg]
        exact congrArg some hroot
    | cons name names =>
      have hspec := hspec target.outline.root { path := s.path, mode := s.mode, commands } name names
      have hsame : (Section.growth base.order).child s = (Section.growth base.order).child base.outline.root := by
        simp only [Section.growth, hspath]
      rw [Outline.entryAt_withRoot hsame] at hspec
      simp only [sectionAt, section?, outlineAt?, hseg]
      exact hspec

/-- What a command at a path is after, where a target is merged into a configuration. -/
def AimsAt (target : Configuration) (path : Path) (s : Section) (command : Command) : Prop :=
  ∃ t, target.section? path = some t ∧ t.Aim s command

/-- At a path a script holds the commands of the four passes there, which lead from the section before to the section after; where
the target has no section it holds none. -/
def PassesAt (base target merged : Configuration) (script : Script) (path : Path) : Prop :=
  (target.section? path = none ∧ atPath path script.edits = [] ∧ merged.sectionAt path = base.sectionAt path) ∨
    ∃ t, ∃ p : (base.sectionAt path).Passes t, target.section? path = some t ∧
      atPath path script.edits = p.set ++ p.removed ++ p.added ++ p.moved ∧ merged.sectionAt path = p.after

/-- The commands at a path are a list of edits from the section before to the section after. -/
theorem PassesAt.effects {base target merged : Configuration} {script : Script} {path : Path}
    (h : PassesAt base target merged script path) :
    Section.Effects (target.AimsAt path) (base.sectionAt path) (atPath path script.edits) (merged.sectionAt path) := by
  rcases h with ⟨-, hedits, hsame⟩ | ⟨t, p, hwanted, hedits, hafter⟩
  · rw [hedits, hsame]
    exact .refl _
  · rw [hedits, hafter]
    exact p.effects.mono fun s command haim => ⟨t, hwanted, haim⟩

/-- The script of a merge holds at each path the commands of the four passes there. -/
theorem exists_script_passes {base target : Configuration} (hb : base.WellFormed) (ht : target.WellFormed) :
    ∃ script merged, base.merge target = .ok (script, merged) ∧ base.diff target = .ok script ∧ merged.WellFormed ∧
      script.Placed ∧ ∀ path, PassesAt base target merged script path := by
  obtain ⟨script, merged, hmerge, hwf, horder, hplaced, hspec⟩ := exists_merge hb ht
  refine ⟨script, merged, hmerge, by rw [diff, hmerge]; rfl, hwf, hplaced, fun path => ?_⟩
  have hat := hspec path
  rw [PassesAt, hplaced.atPath_edits]
  cases hwanted : target.section? path with
  | none =>
    rw [hwanted] at hat
    obtain ⟨hafter, hbatch⟩ := hat
    have hsame : merged.sectionAt path = base.sectionAt path := by
      cases hs : base.section? path with
      | none =>
        rw [hb.sectionAt_of_section?_eq_none hs, hwf.sectionAt_of_section?_eq_none (hafter.trans hs), horder]
      | some s => rw [sectionAt_of_section? hs, sectionAt_of_section? (hafter.trans hs)]
    exact .inl ⟨rfl, by rw [hbatch]; rfl, hsame⟩
  | some t =>
    rw [hwanted] at hat
    obtain ⟨commands, s, hs, hafter, hbatch⟩ := hat
    obtain ⟨p⟩ := Section.nonempty_passes (hb.sectionAt path).nodup
      (ht.sections t (ht.section?_eq_some_iff.1 hwanted).1).nodup
    cases p.mergeWith_eq.symm.trans hs
    exact .inr ⟨t, p, rfl, by rw [hbatch]; rfl, sectionAt_of_section? hafter⟩

end Configuration

end RouterPlan
