import RouterPlan.Pattern.Engine
import RouterPlan.Proofs.Lemmas.RegisterSteps

/-!
# What holds of every register

A register is reachable when the operations of this library lead to it from an empty one: sections are made by path or below a
number, items and settings are edited at a number, commands, scripts and texts are loaded, and targets are merged into it, in
any order and whether an edit is accepted or refused. Main statement: in every reachable register the numbers hang together and
each place is sound (`representation_invariant`).

Registers and configurations are two forms of the same thing. Step by step, a reachable register shows a reachable configuration
and every reachable configuration is shown by such a register (`reachable_iff_exists_shows`), so what is proved of one form holds
of the other.
-/

namespace RouterPlan

namespace Register

variable {r r' : Register} {c : Configuration} {id : Nat}

/-- The registers that the operations lead to. A merge goes through whenever its target is reachable (`Shows.merge`), so there is
none that stops halfway. -/
inductive Reachable : Register → Prop where
  | empty (order : OrderTable) : Reachable (empty order)
  | read {order : OrderTable} {text : String} {r : Register} (h : read order text = .ok r) : Reachable r
  | setVersion {r : Register} (version : Option String) (h : Reachable r) : Reachable { r with version }
  | ensure {r : Register} (path : Path) (h : Reachable r) : Reachable (r.ensure path).2
  | ensureChild {r : Register} {id : Nat} (hid : id < r.size) (name : String) (h : Reachable r) :
      Reachable (r.ensureChild id name).2
  | insert {r : Register} {id : Nat} (hid : id < r.size) (item : Item) (destination : Option Nat) (h : Reachable r) :
      Reachable (r.editAt id (Place.attempt (Place.editItems fun s => s.insert item destination))).2
  | delete {r : Register} {id : Nat} (hid : id < r.size) (item : Item) (h : Reachable r) :
      Reachable (r.editAt id (Place.attempt (Place.editItems fun s => s.delete item))).2
  | move {r : Register} {id : Nat} (hid : id < r.size) (item : Item) (destination : Option Nat) (h : Reachable r) :
      Reachable (r.editAt id (Place.attempt (Place.editItems fun s => s.move item destination))).2
  | set {r : Register} {id : Nat} (hid : id < r.size) (setting : Setting) (h : Reachable r) :
      Reachable (r.editAt id (Place.set setting)).2
  | load {r : Register} {id : Nat} (hid : id < r.size) (command : Command) (h : Reachable r) :
      Reachable (r.editAt id (Place.attempt (Place.load command))).2
  | merge {r r' : Register} {target : Configuration} {script : Script} (h : Reachable r) (ht : target.Reachable)
      (hok : r.merge target = .ok (script, r')) : Reachable r'
  | replay {r : Register} (script : Script) (h : Reachable r) : Reachable (r.replay script).2
  | apply {r r' : Register} {script : Script} (h : Reachable r) (hok : r.apply script = .ok r') : Reachable r'

section Edits

variable {β : Type} {edit : Place → β × Place} {edit' : Section → β × Section}
  (hedit : ∀ order, Place.Mirrors order edit edit') (hkeep : ∀ order, Section.Keeps order edit')

include hedit hkeep

/-- An edit at a number leads from a reachable configuration to one, if the edit at its path does. -/
theorem exists_shows_editAt (hreach : ∀ {c : Configuration} path, c.Reachable → (c.editAt path edit').2.Reachable)
    (hid : id < r.size) (h : ∃ c : Configuration, c.Reachable ∧ r.Shows c) :
    ∃ c : Configuration, c.Reachable ∧ (r.editAt id edit).2.Shows c := by
  obtain ⟨c, hc, hshows⟩ := h
  obtain ⟨r', hresult, hshows', -⟩ := hshows.editAt hc.wellFormed (hedit c.order) (hkeep c.order) hid
  rw [hresult]
  exact ⟨_, hreach _ hc, hshows'⟩

/-- An edit at a path leads from a reachable register to one, if the edit at its number does. -/
theorem exists_shown_editAt
    (hreach : ∀ {r : Register} {id : Nat}, id < r.size → r.Reachable → (r.editAt id edit).2.Reachable) (hc : c.Reachable)
    (path : Path) (h : ∃ r : Register, r.Reachable ∧ r.Shows c) :
    ∃ r : Register, r.Reachable ∧ r.Shows (c.editAt path edit').2 := by
  obtain ⟨r, hr, hshows⟩ := h
  obtain ⟨k, r₁, r', hensure, hk, -, hresult, hshows', -⟩ :=
    hshows.editAtPath hc.wellFormed (hedit c.order) (hkeep c.order) path
  have hr₁ : r₁.Reachable := by
    have hmade := hr.ensure path
    rwa [hensure] at hmade
  have hr' := hreach hk hr₁
  rw [hresult] at hr'
  exact ⟨r', hr', hshows'⟩

end Edits

/-- Every reachable register shows a reachable configuration. -/
theorem Reachable.exists_shows (h : r.Reachable) : ∃ c : Configuration, c.Reachable ∧ r.Shows c := by
  induction h with
  | empty order => exact ⟨_, .empty order, shows_empty order⟩
  | @read order text r hread =>
    rcases shows_read order text with ⟨e, herror, -⟩ | ⟨r', c, hok, hc, hshows⟩
    · rw [hread] at herror
      cases herror
    · rw [hread] at hok
      cases hok
      exact ⟨c, .read hc, hshows⟩
  | setVersion version _ ih =>
    obtain ⟨c, hc, hshows⟩ := ih
    exact ⟨_, hc.setVersion version, hshows.withVersion version⟩
  | ensure path _ ih =>
    obtain ⟨c, hc, hshows⟩ := ih
    obtain ⟨k, r', hensure, -, -, hshows'⟩ := hshows.ensure hc.wellFormed path
    rw [hensure]
    exact ⟨_, hc.ensure path, hshows'⟩
  | @ensureChild r id hid name _ ih =>
    obtain ⟨c, hc, hshows⟩ := ih
    exact ⟨_, hc.ensure ((r.place id).path.child name), hshows.ensureChild hc.wellFormed hid name⟩
  | insert hid item destination _ ih =>
    exact exists_shows_editAt (fun _ => Place.mirrors_insert item destination)
      (fun _ => Section.keeps_insert item destination) (fun path hc => hc.insert path item destination) hid ih
  | delete hid item _ ih =>
    exact exists_shows_editAt (fun _ => Place.mirrors_delete item) (fun _ => Section.keeps_delete item)
      (fun path hc => hc.delete path item) hid ih
  | move hid item destination _ ih =>
    exact exists_shows_editAt (fun _ => Place.mirrors_move item destination)
      (fun _ => Section.keeps_move item destination) (fun path hc => hc.move path item destination) hid ih
  | set hid setting _ ih =>
    obtain ⟨target, values⟩ := setting
    exact exists_shows_editAt (fun _ => Place.mirrors_set target values) (fun _ => Section.keeps_set target values)
      (fun path hc => hc.set path target values) hid ih
  | load hid command _ ih =>
    exact exists_shows_editAt (fun _ => Place.mirrors_load command) (fun _ => Section.keeps_load command)
      (fun path hc => hc.load path command) hid ih
  | merge _ ht hok ih =>
    obtain ⟨c, hc, hshows⟩ := ih
    obtain ⟨script, r', c', hmerge, hmerge', hshows'⟩ := hshows.merge hc.wellFormed ht.wellFormed
    rw [hok] at hmerge
    cases hmerge
    exact ⟨c', .merge hc ht hmerge', hshows'⟩
  | replay script _ ih =>
    obtain ⟨c, hc, hshows⟩ := ih
    obtain ⟨r', hresult, hshows'⟩ := hshows.replay hc.wellFormed script
    rw [hresult]
    exact ⟨_, hc.replay script, hshows'⟩
  | @apply r r' script _ hok ih =>
    obtain ⟨c, hc, hshows⟩ := ih
    rcases hshows.apply hc.wellFormed script with ⟨cause, herror, -⟩ | ⟨r'', c', hok', hc', hshows'⟩
    · rw [hok] at herror
      cases herror
    · rw [hok] at hok'
      cases hok'
      exact ⟨c', hc.apply hc', hshows'⟩

/-- Every reachable configuration is shown by a reachable register. -/
theorem exists_shown (h : c.Reachable) : ∃ r : Register, r.Reachable ∧ r.Shows c := by
  induction h with
  | empty order => exact ⟨_, .empty order, shows_empty order⟩
  | @read order text c hread =>
    rcases shows_read order text with ⟨e, -, herror⟩ | ⟨r, c', hr, hok, hshows⟩
    · rw [hread] at herror
      cases herror
    · rw [hread] at hok
      cases hok
      exact ⟨r, .read hr, hshows⟩
  | setVersion version _ ih =>
    obtain ⟨r, hr, hshows⟩ := ih
    exact ⟨_, hr.setVersion version, hshows.withVersion version⟩
  | ensure path hc ih =>
    obtain ⟨r, hr, hshows⟩ := ih
    obtain ⟨k, r', hensure, -, -, hshows'⟩ := hshows.ensure hc.wellFormed path
    have hr' := hr.ensure path
    rw [hensure] at hr'
    exact ⟨r', hr', hshows'⟩
  | insert path item destination hc ih =>
    exact exists_shown_editAt (fun _ => Place.mirrors_insert item destination)
      (fun _ => Section.keeps_insert item destination) (fun hid hr => .insert hid item destination hr) hc path ih
  | delete path item hc ih =>
    exact exists_shown_editAt (fun _ => Place.mirrors_delete item) (fun _ => Section.keeps_delete item)
      (fun hid hr => .delete hid item hr) hc path ih
  | move path item destination hc ih =>
    exact exists_shown_editAt (fun _ => Place.mirrors_move item destination)
      (fun _ => Section.keeps_move item destination) (fun hid hr => .move hid item destination hr) hc path ih
  | set path target values hc ih =>
    exact exists_shown_editAt (fun _ => Place.mirrors_set target values) (fun _ => Section.keeps_set target values)
      (fun hid hr => .set hid ⟨target, values⟩ hr) hc path ih
  | load path command hc ih =>
    exact exists_shown_editAt (fun _ => Place.mirrors_load command) (fun _ => Section.keeps_load command)
      (fun hid hr => .load hid command hr) hc path ih
  | merge hb ht hok ihb _ =>
    obtain ⟨r, hr, hshows⟩ := ihb
    obtain ⟨script, r', c', hmerge, hmerge', hshows'⟩ := hshows.merge hb.wellFormed ht.wellFormed
    rw [hok] at hmerge'
    cases hmerge'
    exact ⟨r', .merge hr ht hmerge, hshows'⟩
  | replay script hc ih =>
    obtain ⟨r, hr, hshows⟩ := ih
    obtain ⟨r', hresult, hshows'⟩ := hshows.replay hc.wellFormed script
    have hr' := hr.replay script
    rw [hresult] at hr'
    exact ⟨r', hr', hshows'⟩
  | @apply c c' script hc hok ih =>
    obtain ⟨r, hr, hshows⟩ := ih
    rcases hshows.apply hc.wellFormed script with ⟨cause, -, herror⟩ | ⟨r', c'', hok', hc', hshows'⟩
    · rw [hok] at herror
      cases herror
    · rw [hok] at hc'
      cases hc'
      exact ⟨r', hr.apply hok', hshows'⟩

/-- The configurations that operations lead to are those that reachable registers show. -/
theorem reachable_iff_exists_shows : c.Reachable ↔ ∃ r : Register, r.Reachable ∧ r.Shows c := by
  refine ⟨exists_shown, ?_⟩
  rintro ⟨r, hr, hshows⟩
  obtain ⟨c', hc', hshows'⟩ := hr.exists_shows
  rwa [hshows.unique hshows']

/-- In every reachable register:
* the root has the number zero, the empty path and no parent;
* no place holds an item twice, and every setting has values and is filed under its own identifier;
* the mode of a place is that of its path in the order table, and its path leads to its number;
* every place but the root has a parent with a smaller number, which lists it once, and its path is one segment longer;
* what a place lists has that place as its parent, and each child has another name;
* no two places share a path.
Merges of reachable targets go through, so these registers are all that the operations leave behind. -/
theorem representation_invariant (h : r.Reachable) :
    (0 < r.size ∧ (r.place 0).path = .root ∧ (r.place 0).parent = none) ∧
      (∀ id < r.size,
        (r.place id).items.Nodup ∧
        (∀ target setting, (r.place id).settings.get? target = some setting →
          setting.identifier = target ∧ setting.values.isEmpty = false) ∧
        (r.place id).mode = r.order.modeFor (r.place id).path ∧
        r.find? (r.place id).path = some id ∧
        (id ≠ 0 → ∃ above < id, (r.place id).parent = some above ∧ (r.place above).children.count id = 1 ∧
          ∃ name, (r.place id).path = (r.place above).path.child name) ∧
        (∀ child ∈ (r.place id).children, child < r.size ∧ (r.place child).parent = some id) ∧
        ((r.place id).children.map fun child => (r.place child).path.name?).Nodup) ∧
      (∀ id < r.size, ∀ j < r.size, (r.place id).path = (r.place j).path → id = j) ∧
      ∀ target : Configuration, target.Reachable → ∃ script r', r.merge target = .ok (script, r') := by
  obtain ⟨c, hc, hshows⟩ := h.exists_shows
  have hcons := hshows.consistent
  refine ⟨⟨hcons.pos, hcons.path_root, hcons.parent_root⟩, fun id hid => ?_, fun id hid j hj => hcons.eq_of_path_eq hid hj,
    fun target ht => ?_⟩
  · have hsound := hcons.sound id hid
    refine ⟨hsound.wellFormed.nodup, fun target setting hsetting => ?_, hsound.wellFormed.mode, hcons.find?_path hid,
      fun hne => ?_, hcons.listed id hid, hcons.nodup_names hid⟩
    · exact ⟨hsound.filed target setting hsetting, hsound.wellFormed.settled target setting.values (by
        rw [Place.held, Assoc.get?_mapValues, hsetting]
        rfl)⟩
    · obtain ⟨above, hlt, hparent, hmem, hname⟩ := hcons.linked id hid hne
      exact ⟨above, hlt, hparent, List.count_eq_one_of_mem (hcons.nodup_children (Nat.lt_trans hlt hid)) hmem, hname⟩
  · obtain ⟨script, r', -, hmerge, -⟩ := hshows.merge hc.wellFormed ht.wellFormed
    exact ⟨script, r', hmerge⟩

/-- Two sections of a firewall. A rule is put into the first twice, which is refused the second time, and a setting without values
into the second. -/
def firewall : Register :=
  let r := ((empty .builtin).ensure Configuration.filterPath).2
  let r := (r.ensureChild 2 "nat").2
  let add := Place.attempt (Place.editItems fun s => s.insert (Configuration.rule "a") none)
  let r := (r.editAt 3 add).2
  let r := (r.editAt 3 add).2
  (r.editAt 4 (Place.set ⟨.itself, ∅⟩)).2

theorem reachable_firewall : firewall.Reachable :=
  .set (by decide +kernel) _ (.insert (by decide +kernel) _ _ (.insert (by decide +kernel) _ _
    (.ensureChild (by decide +kernel) _ (.ensure _ (.empty _)))))

/-- The second section has the next number, and the path leads back to it; nothing is left of the setting without values. -/
theorem representation_invariant_firewall :
    firewall.Reachable ∧ firewall.size = 5 ∧ firewall.find? ⟨["ip", "firewall", "nat"]⟩ = some 4 ∧
      (firewall.place 2).children.count 4 = 1 ∧ (firewall.place 3).items = [Configuration.rule "a"] ∧
      (firewall.place 4).settings.isEmpty = true := by
  have hsize : 4 < firewall.size := by decide +kernel
  have hpath : (firewall.place 4).path = ⟨["ip", "firewall", "nat"]⟩ := by decide +kernel
  have hparent : (firewall.place 4).parent = some 2 := by decide +kernel
  obtain ⟨-, hplaces, -⟩ := representation_invariant reachable_firewall
  obtain ⟨-, -, -, hfind, hlinked, -⟩ := hplaces 4 hsize
  obtain ⟨above, -, habove, hcount, -⟩ := hlinked (by decide)
  rw [hpath] at hfind
  rw [hparent] at habove
  cases habove
  exact ⟨reachable_firewall, by decide +kernel, hfind, hcount, by decide +kernel, by decide +kernel⟩

end Register

end RouterPlan
