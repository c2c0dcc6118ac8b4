import RouterPlan.Proofs.Lemmas.RegisterOutlines
import RouterPlan.Proofs.Reachable

/-!
# Registers and configurations

A register shows a configuration when the root of the one stands for the outline of the other (`Register.Shows`); it shows at
most one. Every operation of a register then has the result of the same operation of the configuration, and the register after
it shows the configuration after it: one lemma an operation, from edits at a path (`Shows.editAtPath`) to scripts
(`Shows.replay`), texts (`shows_read`) and merges (`Shows.merge`).
-/

namespace RouterPlan.Register

variable {r r' : Register} {c c' : Configuration} {id : Nat} {o : Outline Section}

/-- A register keeps the sections of a configuration, in the same order. -/
structure Shows (r : Register) (c : Configuration) : Prop where
  consistent : r.Consistent
  holds : r.Holds 0 c.outline
  order : r.order = c.order
  version : r.version = c.version

/-- Numbers stand for one row. -/
theorem Lists.unique {ids : List Nat} {f f' : Forest Section} (h : r.Lists ids f) (h' : r.Lists ids f') : f = f' := by
  induction h generalizing f' with
  | nil =>
    cases h'
    rfl
  | cons _ _ _ ihBelow ihRest =>
    cases h' with
    | cons _ hbelow hrest => rw [ihBelow hbelow, ihRest hrest]

/-- A register shows one configuration. -/
theorem Shows.unique (h : r.Shows c) (h' : r.Shows c') : c = c' := by
  obtain ⟨⟨root, below⟩, order, version⟩ := c
  obtain ⟨⟨root', below'⟩, order', version'⟩ := c'
  have hroot : root = root' := h.holds.root.symm.trans h'.holds.root
  have hbelow : below = below' := h.holds.below.unique h'.holds.below
  have horder : order = order' := h.order.symm.trans h'.order
  have hversion : version = version' := h.version.symm.trans h'.version
  rw [hroot, hbelow, horder, hversion]

theorem shows_empty (order : OrderTable) : (empty order).Shows (.empty order) :=
  ⟨consistent_empty order, ⟨Nat.one_pos, rfl, .nil⟩, rfl, rfl⟩

/-- The version takes no part in what a register holds. -/
theorem Lists.withVersion {ids : List Nat} {f : Forest Section} (h : r.Lists ids f) (version : Option String) :
    Lists { r with version } ids f := by
  induction h with
  | nil => exact .nil
  | cons hid _ _ ihBelow ihRest => exact .cons hid ihBelow ihRest

theorem Shows.withVersion (h : r.Shows c) (version : Option String) :
    Shows { r with version } { c with version } :=
  ⟨h.consistent.withVersion version, ⟨h.holds.lt, h.holds.root, h.holds.below.withVersion version⟩, h.order, rfl⟩

/-- Names lead to the same section in an outline and among the numbers that stand for it. -/
theorem Holds.get?_eq (h : r.Holds id o) (order : OrderTable) (names : List String) :
    o.get? (Section.growth order) names = (names.foldlM r.child? id).map fun k => (r.place k).held := by
  induction names generalizing id o with
  | nil => exact congrArg some h.root.symm
  | cons name names ih =>
    rw [Outline.get?_cons, List.foldlM_cons]
    rcases h.below.find? name with ⟨hnone, hnone'⟩ | ⟨k, child, hk, hchild, hholds⟩
    · rw [show r.child? id name = none from hnone, show o.child? (Section.growth order) name = none from hnone']
      rfl
    · rw [show r.child? id name = some k from hk, show o.child? (Section.growth order) name = some child from hchild]
      exact ih hholds

/-- A path leads to the same section on both sides. -/
theorem Shows.section?_eq (h : r.Shows c) (path : Path) :
    c.section? path = (r.find? path).map fun id => (r.place id).held :=
  h.holds.get?_eq c.order path.segments

/-! ## Edits -/

/-- Names that lead to a number make nothing. -/
theorem ensureFrom_of_foldlM {names : List String} {start : Nat} (h : names.foldlM r.child? start = some id) :
    ensureFrom names start r = (id, r) := by
  induction names generalizing start with
  | nil =>
    cases h
    rfl
  | cons name names ih =>
    rw [List.foldlM_cons] at h
    obtain ⟨child, hchild, hrest⟩ := Option.bind_eq_some_iff.1 h
    rw [ensureFrom, ensureChild, hchild]
    exact ih hrest

/-- The path of a section that is there leads to its number. -/
theorem Consistent.ensure_path (h : r.Consistent) (hid : id < r.size) : r.ensure (r.place id).path = (id, r) :=
  ensureFrom_of_foldlM (h.find?_path hid)

/-- A child is made by the name alone, or by its whole path. -/
theorem Consistent.ensure_child (h : r.Consistent) (hid : id < r.size) (name : String) :
    r.ensure ((r.place id).path.child name) = r.ensureChild id name := by
  have happend : ∀ (names : List String) (start : Nat) (r : Register), ensureFrom (names ++ [name]) start r =
      (ensureFrom names start r).2.ensureChild (ensureFrom names start r).1 name := by
    intro names
    induction names with
    | nil => exact fun start r => rfl
    | cons first names ih => exact fun start r => ih _ _
  have hpath : ensureFrom (r.place id).path.segments 0 r = (id, r) := h.ensure_path hid
  rw [ensure, Path.child, happend, hpath]

/-- An edit at the number of a path, made if it is missing, is the edit at the path. -/
theorem Shows.editAtPath {β : Type} (h : r.Shows c) (hc : c.WellFormed) {edit : Place → β × Place}
    {edit' : Section → β × Section} (hedit : Place.Mirrors c.order edit edit') (hkeep : Section.Keeps c.order edit')
    (path : Path) : ∃ k r₁ r', r.ensure path = (k, r₁) ∧ k < r₁.size ∧ (r₁.place k).path = path ∧
      r₁.editAt k edit = ((c.editAt path edit').1, r') ∧ r'.Shows (c.editAt path edit').2 ∧ r.EditedBelow .root r' := by
  obtain ⟨k, r₁, r', hensure, hk, hpath, hresult, hholds, hedited⟩ :=
    h.holds.editAt hedit hkeep path.segments h.consistent h.order hc.placed
  exact ⟨k, r₁, r', hensure, hk, hpath, hresult,
    ⟨hedited.consistent, hholds, hedited.order.trans h.order, hedited.version.trans h.version⟩, hedited⟩

/-- An edit at a number is the edit at the path of its place. -/
theorem Shows.editAt {β : Type} (h : r.Shows c) (hc : c.WellFormed) {edit : Place → β × Place}
    {edit' : Section → β × Section} (hedit : Place.Mirrors c.order edit edit') (hkeep : Section.Keeps c.order edit')
    (hid : id < r.size) : ∃ r', r.editAt id edit = ((c.editAt (r.place id).path edit').1, r') ∧
      r'.Shows (c.editAt (r.place id).path edit').2 ∧ r.EditedBelow .root r' := by
  obtain ⟨k, r₁, r', hensure, -, -, hresult, hshows, hedited⟩ := h.editAtPath hc hedit hkeep (r.place id).path
  rw [h.consistent.ensure_path hid] at hensure
  cases hensure
  exact ⟨r', hresult, hshows, hedited⟩

/-- An edit that changes nothing puts the place back. -/
theorem editAt_self (hid : id < r.size) : r.editAt id (fun p => ((), p)) = ((), r) := by
  have hlt : id < r.places.size := hid
  have hplaces : r.places.setIfInBounds id (r.place id) = r.places := by
    rw [place, Array.getElem?_eq_getElem hlt, Option.getD_some]
    simp [Array.setIfInBounds, hlt]
  exact congrArg (fun places => ((), { r with places })) hplaces

/-- The section at a path is made in both. -/
theorem Shows.ensure (h : r.Shows c) (hc : c.WellFormed) (path : Path) :
    ∃ k r', r.ensure path = (k, r') ∧ k < r'.size ∧ (r'.place k).path = path ∧ r'.Shows (c.ensure path) := by
  have hedit : Place.Mirrors c.order (fun p => ((), p)) fun s => ((), s) := fun p _ => ⟨rfl, .refl p⟩
  obtain ⟨k, r₁, r', hensure, hk, hpath, hresult, hshows, -⟩ := h.editAtPath hc hedit ⟨fun _ => rfl, fun _ hs => hs⟩ path
  rw [editAt_self hk] at hresult
  cases hresult
  exact ⟨k, r₁, hensure, hk, hpath, hshows⟩

theorem Shows.ensureChild (h : r.Shows c) (hc : c.WellFormed) (hid : id < r.size) (name : String) :
    (r.ensureChild id name).2.Shows (c.ensure ((r.place id).path.child name)) := by
  obtain ⟨k, r', hensure, -, -, hshows⟩ := h.ensure hc ((r.place id).path.child name)
  rw [← h.consistent.ensure_child hid, hensure]
  exact hshows

/-! ## Commands and scripts -/

/-- Loading a command at a path. -/
theorem Shows.load (h : r.Shows c) (hc : c.WellFormed) (path : Path) (command : Command) :
    ∃ r', r.load path command = ((c.load path command).1, r') ∧ r'.Shows (c.load path command).2 := by
  obtain ⟨k, r₁, r', hensure, -, -, hresult, hshows, -⟩ :=
    h.editAtPath hc (Place.mirrors_load command) (Section.keeps_load command) path
  refine ⟨r', ?_, hshows⟩
  rw [Register.load, hensure]
  exact hresult

/-- Loading commands at a number is loading them at the path of its place. -/
theorem Shows.loadEach (h : r.Shows c) (hc : c.WellFormed) (hid : id < r.size) (commands : List Command) :
    ∃ r', r.loadEach id commands = ((Configuration.loadAll (commands.map ((r.place id).path, ·)) c).1, r') ∧
      r'.Shows (Configuration.loadAll (commands.map ((r.place id).path, ·)) c).2 := by
  induction commands generalizing r c with
  | nil => exact ⟨r, rfl, h⟩
  | cons command commands ih =>
    obtain ⟨r₁, hresult, hshows, hedited⟩ := h.editAt hc (Place.mirrors_load command) (Section.keeps_load command) hid
    have hresult : r.editAt id (Place.attempt (Place.load command)) = ((c.load (r.place id).path command).1, r₁) := hresult
    have hshows : r₁.Shows (c.load (r.place id).path command).2 := hshows
    have hnext := ih hshows (hc.load _ command) (Nat.lt_of_lt_of_le hid hedited.size)
    rw [hedited.paths id hid] at hnext
    rw [Register.loadEach, hresult, List.map_cons, Configuration.loadAll]
    cases hload : c.load (r.place id).path command with
    | mk result c₁ =>
      rw [hload] at hshows hnext
      cases result with
      | ok => exact hnext
      | error cause => exact ⟨r₁, rfl, hshows⟩

/-- Carrying out batches is carrying out their edits. -/
theorem Shows.loadBatches (h : r.Shows c) (hc : c.WellFormed) (batches : List Batch) :
    ∃ r', r.loadBatches batches =
        ((Configuration.loadAll (batches.flatMap fun batch => batch.commands.map (batch.path, ·)) c).1, r') ∧
      r'.Shows (Configuration.loadAll (batches.flatMap fun batch => batch.commands.map (batch.path, ·)) c).2 := by
  induction batches generalizing r c with
  | nil => exact ⟨r, rfl, h⟩
  | cons batch batches ih =>
    rw [Register.loadBatches, List.flatMap_cons, Configuration.loadAll_append]
    cases hcommands : batch.commands with
    | nil => exact ih h hc
    | cons command commands =>
      have hensured := Configuration.loadAll_ensure (List.cons_ne_nil command commands) c batch.path
      obtain ⟨k, r₁, hensure, hk, hpath, hshows⟩ := h.ensure hc batch.path
      obtain ⟨r₂, hresult, hshows⟩ := hshows.loadEach (hc.ensure batch.path) hk (command :: commands)
      have hwf := hc.loadAll ((command :: commands).map (batch.path, ·))
      rw [hpath, hensured] at hresult hshows
      rw [hensure, if_neg (by simp)]
      simp only [hresult]
      cases hload : Configuration.loadAll ((command :: commands).map (batch.path, ·)) c with
      | mk result c₁ =>
        rw [hload] at hshows hwf
        cases result with
        | ok => exact ih hshows hwf
        | error cause => exact ⟨r₂, rfl, hshows⟩

/-- Carrying out a script in place. -/
theorem Shows.replay (h : r.Shows c) (hc : c.WellFormed) (script : Script) :
    ∃ r', r.replay script = ((c.replay script).1, r') ∧ r'.Shows (c.replay script).2 :=
  h.loadBatches hc script.batches

/-- A script is applied by a register as by the configuration that it shows. -/
theorem Shows.apply (h : r.Shows c) (hc : c.WellFormed) (script : Script) :
    (∃ cause, r.apply script = .error cause ∧ c.apply script = .error cause) ∨
      ∃ r' c', r.apply script = .ok r' ∧ c.apply script = .ok c' ∧ r'.Shows c' := by
  obtain ⟨r', hresult, hshows⟩ := h.replay hc script
  rw [Register.apply, Configuration.apply, hresult]
  cases hreplay : c.replay script with
  | mk result c' =>
    rw [hreplay] at hshows
    cases result with
    | ok => exact .inr ⟨r', c', rfl, rfl, hshows⟩
    | error cause => exact .inl ⟨cause, rfl, rfl⟩

/-! ## Texts -/

/-- A statement is followed on both sides, or refused for the same reason. -/
theorem Shows.follow (h : r.Shows c) (hc : c.WellFormed) (s : Statement) :
    (∃ e, r.follow s = .error e ∧ c.follow s = .error e) ∨
      ∃ r' c', r.follow s = .ok r' ∧ c.follow s = .ok c' ∧ r'.Shows c' := by
  rw [Register.follow, Configuration.follow]
  cases s.content with
  | error fault => exact .inl ⟨_, rfl, rfl⟩
  | ok directive =>
    cases directive with
    | comment text =>
      rw [h.version]
      exact .inr ⟨_, _, rfl, rfl, h.withVersion _⟩
    | enter =>
      obtain ⟨k, r', hensure, -, -, hshows⟩ := h.ensure hc s.path
      rw [hensure]
      exact .inr ⟨_, _, rfl, rfl, hshows⟩
    | refresh => exact .inr ⟨_, _, rfl, rfl, h⟩
    | edit command =>
      obtain ⟨r', hresult, hshows⟩ := h.load hc s.path command
      simp only [hresult]
      cases hload : c.load s.path command with
      | mk result c' =>
        rw [hload] at hshows
        cases result with
        | ok => exact .inr ⟨_, _, rfl, rfl, hshows⟩
        | error cause => exact .inl ⟨_, rfl, rfl⟩

/-- A text describes a register exactly when it describes a configuration, and the one shows the other. -/
theorem shows_read (order : OrderTable) (text : String) :
    (∃ e, read order text = .error e ∧ Configuration.read order text = .error e) ∨
      ∃ r c, read order text = .ok r ∧ Configuration.read order text = .ok c ∧ r.Shows c := by
  have hfold : ∀ (statements : List Statement) {r : Register} {c : Configuration}, r.Shows c → c.WellFormed →
      (∃ e, statements.foldlM Register.follow r = .error e ∧ statements.foldlM Configuration.follow c = .error e) ∨
        ∃ r' c', statements.foldlM Register.follow r = .ok r' ∧ statements.foldlM Configuration.follow c = .ok c' ∧
          r'.Shows c' := by
    intro statements
    induction statements with
    | nil => exact fun h _ => .inr ⟨_, _, rfl, rfl, h⟩
    | cons s statements ih =>
      intro r c h hc
      rw [List.foldlM_cons, List.foldlM_cons]
      rcases h.follow hc s with ⟨e, hr, hc'⟩ | ⟨r', c', hr, hc', hshows⟩
      · rw [hr, hc']
        exact .inl ⟨e, rfl, rfl⟩
      · rw [hr, hc']
        exact ih hshows (hc.follow hc')
  exact hfold _ (shows_empty order) (Configuration.wellFormed_empty order)

/-! ## Merges -/

/-- A merge goes through, and is the merge of the configuration. -/
theorem Shows.merge (h : r.Shows c) (hc : c.WellFormed) {target : Configuration} (ht : target.WellFormed) :
    ∃ script r' c', r.merge target = .ok (script, r') ∧ c.merge target = .ok (script, c') ∧ r'.Shows c' := by
  have hsound := h.consistent.sound 0 h.consistent.pos
  obtain ⟨commands, s, hmerge, hs, hspath⟩ := Section.exists_mergeWith (hc.sections _ List.mem_cons_self)
    (ht.sections _ List.mem_cons_self)
  obtain ⟨p, hmerge', hbecomes⟩ := Place.exists_mergeWith hsound (h.holds.root ▸ hmerge)
  obtain ⟨hput, hedited⟩ := h.holds.put h.consistent hc.placed hbecomes (hspath.trans hc.placed.1) (h.order ▸ hs)
  obtain ⟨batches, o, r', hok, hok', hholds, -, hedited'⟩ := hput.mergeBelow target.outline.below ht.placed.2
    (fun t hmem => ht.sections t (List.mem_cons_of_mem _ hmem)) hedited.consistent (hedited.order.trans h.order)
    ⟨hspath.trans hc.placed.1, hc.placed.2⟩
  have hpath : p.path = s.path := congrArg Section.path hbecomes.held
  have hmode : p.mode = s.mode := congrArg Section.mode hbecomes.held
  refine ⟨⟨⟨{ path := s.path, mode := s.mode, commands }, batches⟩⟩, r', { c with outline := o }, ?_, ?_,
    hedited'.consistent, hholds, (hedited'.order.trans hedited.order).trans h.order,
    (hedited'.version.trans hedited.version).trans h.version⟩
  · simp only [Register.merge, hmerge', hok', hpath, hmode, bind, Except.bind, pure, Except.pure]
  · simp only [Configuration.merge, hmerge, hok, bind, Except.bind, pure, Except.pure]

end RouterPlan.Register
