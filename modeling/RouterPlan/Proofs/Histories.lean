import RouterPlan.Pattern.Engine
import RouterPlan.Proofs.Lemmas.InPlace

/-!
# Logs as histories

Main statement: in a configuration that was read from a text and then changed by scripts only, carried out in place or applied,
refused or not, every section is what the commands of its log make of an empty section (`Scripted.log_complete`). A section that is
made has an empty log, a command that is accepted is put at its end, and one that is refused leaves the section and its log alone;
so the log gives the section at any time (`Section.Remembered`), and no edit that goes by a command can break that.
-/

namespace RouterPlan

namespace Section

/-- The section of the same path and mode before anything is in it. -/
def emptied (s : Section) : Section :=
  { path := s.path, mode := s.mode }

/-- The commands of the log go through in the empty section, and make the section of it. -/
def Remembered (s : Section) : Prop :=
  s.log.foldlM load s.emptied = .ok s

theorem remembered_fresh (order : OrderTable) (path : Path) : (fresh order path).Remembered :=
  rfl

/-- A command that is accepted comes last in the log, after those that led to the section. -/
theorem Remembered.load {s s' : Section} (hn : s.items.Nodup) (h : s.Remembered) {command : Command}
    (hload : s.load command = .ok s') : s'.Remembered := by
  obtain ⟨hpath, hmode, hlog⟩ := frame_load hn hload
  have hempty : s'.emptied = s.emptied := by rw [emptied, emptied, hpath, hmode]
  rw [Remembered, hlog, hempty, List.foldlM_append, h]
  exact (bind_pure _).trans hload

/-- A section is also remembered part by part: after the first commands of the log the others lead to it. -/
theorem Remembered.exists_between {s : Section} (h : s.Remembered) {first rest : List Command} (hlog : s.log = first ++ rest) :
    ∃ between, first.foldlM Section.load s.emptied = .ok between ∧ rest.foldlM Section.load between = .ok s := by
  rw [Remembered, hlog, List.foldlM_append] at h
  exact bind_eq_ok_iff.1 h

end Section

namespace Configuration

variable {c c' : Configuration}

/-- Every section of a well-formed configuration is what its log makes of it. -/
structure Remembers (c : Configuration) : Prop where
  wellFormed : c.WellFormed
  sections : ∀ s ∈ c.sections, s.Remembered

theorem remembers_empty (order : OrderTable) : (empty order).Remembers := by
  refine ⟨wellFormed_empty order, fun s hs => ?_⟩
  have hroot : s = Section.fresh order .root := by
    simpa [sections, empty, Outline.entries, Forest.entries] using hs
  exact hroot ▸ Section.remembered_fresh order .root

/-- An edit that keeps sections well-formed and remembered keeps the configuration so; the sections that it makes have nothing to
remember. -/
theorem Remembers.editAt {β : Type} (h : c.Remembers) (path : Path) {edit : Section → β × Section}
    (hkeep : Section.Keeps c.order edit) (hedit : ∀ s, s.WellFormed c.order → s.Remembered → (edit s).2.Remembered) :
    (c.editAt path edit).2.Remembers := by
  refine ⟨h.wellFormed.editAt path hkeep, fun s hs => ?_⟩
  have hedited : ∀ s : Section, s.WellFormed c.order ∧ s.Remembered → (edit s).2.WellFormed c.order ∧ (edit s).2.Remembered :=
    fun s hs => ⟨hkeep.wellFormed s hs.1, hedit s hs.1 hs.2⟩
  have hmade : ∀ (parent : Section) (name : String), parent.WellFormed c.order ∧ parent.Remembered →
      ((Section.growth c.order).child parent name).WellFormed c.order ∧ ((Section.growth c.order).child parent name).Remembered :=
    fun _ _ _ => ⟨Section.wellFormed_fresh c.order _, Section.remembered_fresh c.order _⟩
  have hthere : ∀ s ∈ c.outline.entries, s.WellFormed c.order ∧ s.Remembered :=
    fun s hs => ⟨h.wellFormed.sections s hs, h.sections s hs⟩
  exact (Outline.entries_editAt hedited hmade path.segments c.outline hthere s hs).2

theorem Remembers.ensure (h : c.Remembers) (path : Path) : (c.ensure path).Remembers :=
  h.editAt path ⟨fun _ => rfl, fun _ hs => hs⟩ fun _ _ hs => hs

/-- A command keeps what the logs say, whether it is accepted or refused. -/
theorem Remembers.load (h : c.Remembers) (path : Path) (command : Command) : (c.load path command).2.Remembers := by
  refine h.editAt path (Section.keeps_load command) fun s hwf hs => ?_
  rw [attempt_load]
  cases hload : s.load command with
  | error cause => exact hs
  | ok s' => exact hs.load hwf.nodup hload

/-- So do commands one after the other. -/
theorem Remembers.loadAll (h : c.Remembers) (edits : List (Path × Command)) : (Configuration.loadAll edits c).2.Remembers :=
  loadAll_keeps (fun _ path command hc => hc.load path command) h edits

/-- A script carried out in place keeps what the logs say, also when it is refused on the way. -/
theorem Remembers.run (h : c.Remembers) (script : Script) : (c.run script).2.Remembers := by
  rw [h.wellFormed.run_eq]
  exact h.loadAll script.edits

theorem Remembers.apply (h : c.Remembers) {script : Script} (hok : c.apply script = .ok c') : c'.Remembers := by
  have hload := h.loadAll script.edits
  rwa [apply_eq_ok_iff.1 hok] at hload

/-- A statement that is followed loads its command, if it has one. -/
theorem Remembers.follow (h : c.Remembers) {s : Statement} (hok : c.follow s = .ok c') : c'.Remembers :=
  follow_keeps (fun _ version hc => ⟨hc.wellFormed.withVersion version, hc.sections⟩) (fun _ path hc => hc.ensure path)
    (fun _ path command hc => hc.load path command) h hok

/-- The configurations that come from a text by scripts alone. A script that is refused in place leaves what was done before it,
and one that is refused when it is applied leaves the original. -/
inductive Scripted : Configuration → Prop where
  | read {order : OrderTable} {text : String} {c : Configuration} (h : read order text = .ok c) : Scripted c
  | replay {c : Configuration} (script : Script) (h : Scripted c) : Scripted (c.replay script).2
  | run {c : Configuration} (script : Script) (h : Scripted c) : Scripted (c.run script).2
  | apply {c c' : Configuration} {script : Script} (h : Scripted c) (hok : c.apply script = .ok c') : Scripted c'

theorem Scripted.remembers (h : c.Scripted) : c.Remembers := by
  induction h with
  | read h => exact foldlM_keeps (fun _ _ _ hc hok => hc.follow hok) (remembers_empty _) h
  | replay script _ ih => exact ih.loadAll script.edits
  | run script _ ih => exact ih.run script
  | apply _ hok ih => exact ih.apply hok

/-- In a configuration that came from a text by scripts alone, the commands of the log of a section, loaded one after the other
into an empty section of the same path and mode, are all accepted, and make exactly that section of it: its items in order, its
settings and its log. At any time on the way the commands so far have made a section from which the others lead on. -/
theorem Scripted.log_complete (h : c.Scripted) :
    ∀ s ∈ c.sections, s.log.foldlM Section.load { path := s.path, mode := s.mode } = .ok s ∧
      ∀ first rest, s.log = first ++ rest → ∃ between,
        first.foldlM Section.load { path := s.path, mode := s.mode } = .ok between ∧ rest.foldlM Section.load between = .ok s :=
  fun s hs => ⟨h.remembers.sections s hs, fun _ _ hlog => (h.remembers.sections s hs).exists_between hlog⟩

/-- A sample text with two rules, of which the second is moved to the front. -/
def ordered : String :=
  "/ip firewall filter\nadd comment=a\nadd comment=b\nmove 1 0\n"

/-- A rule is taken out, and then one is moved that is not there. -/
def brokenScript : Script :=
  (Script.empty.push .builtin filterPath (.remove 0)).push .builtin filterPath (.move 5 (some 0))

/-- After the refused script the log says what was done, and not what was refused. -/
theorem log_complete_ordered :
    ∃ c s, read .builtin ordered = .ok c ∧ (c.run brokenScript).2.Scripted ∧
      (c.run brokenScript).1 = .error (.indexOutOfRange filterPath 5 1) ∧ s ∈ (c.run brokenScript).2.sections ∧
      s.items = [rule "a"] ∧ s.log = [.add (rule "a") none, .add (rule "b") none, .move 1 (some 0), .remove 0] ∧
      s.log.foldlM Section.load { path := filterPath, mode := .ordered } = .ok s := by
  have hcomputed : (read .builtin ordered).map (fun c => ((c.run brokenScript).1, (c.run brokenScript).2.section? filterPath)) =
      .ok (.error (.indexOutOfRange filterPath 5 1), some
        { path := filterPath, mode := .ordered, items := [rule "a"]
          log := [.add (rule "a") none, .add (rule "b") none, .move 1 (some 0), .remove 0] }) := by
    decide +kernel
  cases hread : read .builtin ordered with
  | error cause =>
    rw [hread] at hcomputed
    cases hcomputed
  | ok c =>
    rw [hread] at hcomputed
    obtain ⟨hrefused, hfound⟩ := Prod.mk.inj (Except.ok.inj hcomputed)
    have hscripted : (c.run brokenScript).2.Scripted := .run brokenScript (.read hread)
    have hmem := (hscripted.remembers.wellFormed.section?_eq_some_iff.1 hfound).1
    exact ⟨c, _, rfl, hscripted, hrefused, hmem, rfl, rfl, (hscripted.log_complete _ hmem).1⟩

end Configuration

end RouterPlan
