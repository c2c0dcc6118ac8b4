import RouterPlan.Proofs.Lemmas.MergeTree
import RouterPlan.Proofs.Lemmas.ScriptLines

/-!
# Making a script again from its edits

The commands of a script, pushed one by one in the order in which they are carried out, make the same sections with commands in
the same order (`Script.Placed.working_pushBatches`). What is pushed below a child stays below it (`Outline.pushes_under`), so the
proof follows the shape of the outline (`Forest.working_pushes`); parts without commands leave nothing behind.
-/

namespace RouterPlan

/-! ## Rows with a child put in -/

namespace Forest

variable {α : Type} {test : α → Bool}

/-- Where no entry passes the test, the outline is put in at the end. -/
theorem entries_putFirst {outline : Outline α} {f : Forest α} (h : ∀ o ∈ f.outlines, test o.root = false) :
    (f.putFirst test outline).entries = f.entries ++ outline.entries := by
  induction f with
  | nil => simp [putFirst, entries, Outline.entries]
  | cons entry below rest _ ih =>
    obtain ⟨hentry, hrest⟩ := List.forall_mem_cons.1 h
    simp [putFirst, hentry, entries, ih hrest]

end Forest

/-! ## Edits by their place in an outline -/

namespace Outline

variable {order : OrderTable}

/-- The outline of batches with one more command at the place that some names lead to. -/
def pushAt (order : OrderTable) (outline : Outline Batch) (edit : List String × Command) : Outline Batch :=
  (outline.editAt (Batch.growth order)
    (fun batch => ((), { batch with commands := batch.commands ++ [edit.2] })) edit.1).2

/-- The outline with some more commands. -/
def pushes (order : OrderTable) (outline : Outline Batch) (edits : List (List String × Command)) : Outline Batch :=
  edits.foldl (pushAt order) outline

/-- Edits one name further down. -/
def under (name : String) (edits : List (List String × Command)) : List (List String × Command) :=
  edits.map fun edit => (name :: edit.1, edit.2)

theorem pushes_append (outline : Outline Batch) (edits more : List (List String × Command)) :
    outline.pushes order (edits ++ more) = (outline.pushes order edits).pushes order more :=
  List.foldl_append

theorem path_root_pushAt (outline : Outline Batch) (edit : List String × Command) :
    (outline.pushAt order edit).root.path = outline.root.path := by
  obtain ⟨names, command⟩ := edit
  cases names with
  | nil => rfl
  | cons name names =>
    rw [pushAt, editAt_cons]
    rfl

/-- What is pushed below a child changes that child only. -/
theorem pushes_under {name : String} {edits : List (List String × Command)} (hne : edits ≠ []) (outline : Outline Batch) :
    outline.pushes order (under name edits) =
      outline.putChild (Batch.growth order) name ((outline.childAt (Batch.growth order) name).pushes order edits) := by
  induction edits generalizing outline with
  | nil => exact absurd rfl hne
  | cons edit edits ih =>
    let child := (outline.childAt (Batch.growth order) name).pushAt order edit
    have hstep : outline.pushAt order (name :: edit.1, edit.2) = outline.putChild (Batch.growth order) name child := by
      rw [pushAt, editAt_cons]
      rfl
    have hname : (Batch.growth order).name? child.root = some name := by
      rw [(Batch.tracks order).name?_eq, path_root_pushAt, ← (Batch.tracks order).name?_eq]
      exact name?_childAt (Batch.tracks order).name?_child outline name
    cases edits with
    | nil => exact hstep
    | cons next edits =>
      have hrest := ih (List.cons_ne_nil _ _) (outline.putChild (Batch.growth order) name child)
      rw [childAt_putChild_self hname, putChild_putChild hname, ← hstep] at hrest
      exact hrest

/-- Commands for the root go to its batch. -/
theorem pushes_root (root : Batch) (below : Forest Batch) (commands : List Command) :
    (⟨root, below⟩ : Outline Batch).pushes order (commands.map ([], ·)) =
      ⟨{ root with commands := root.commands ++ commands }, below⟩ := by
  induction commands generalizing root with
  | nil => simp [pushes]
  | cons command commands ih =>
    have hstep : (⟨root, below⟩ : Outline Batch).pushAt order ([], command) =
        ⟨{ root with commands := root.commands ++ [command] }, below⟩ := rfl
    rw [List.map_cons, pushes, List.foldl_cons, hstep, ← pushes, ih]
    simp

/-- A child that has to be made for some commands gets them and nothing else. -/
theorem pushes_childAt {outline : Outline Batch} {name : String}
    (h : ∀ o ∈ outline.below.outlines, ((Batch.growth order).name? o.root == some name) = false) (commands : List Command)
    (edits : List (List String × Command)) :
    (outline.childAt (Batch.growth order) name).pushes order (commands.map ([], ·) ++ edits) =
      (⟨{ (Batch.growth order).child outline.root name with commands }, .nil⟩ : Outline Batch).pushes order edits := by
  have hfind : outline.child? (Batch.growth order) name = none :=
    List.find?_eq_none.2 fun o ho => by simpa using h o ho
  rw [childAt, hfind, Option.getD_none, pushes_append, pushes_root]
  rfl

end Outline

/-- The edits of a row of batches, by the names that lead to them. -/
def Forest.edits : Forest Batch → List (List String × Command)
  | nil => []
  | cons entry below rest =>
    Outline.under (entry.path.name?.getD "") (entry.commands.map ([], ·) ++ below.edits) ++ rest.edits

/-- The paths and the commands of the batches that have commands. -/
def Batch.working (batches : List Batch) : List (Path × List Command) :=
  (batches.filter (!·.commands.isEmpty)).map fun batch => (batch.path, batch.commands)

theorem Batch.working_append (batches more : List Batch) : working (batches ++ more) = working batches ++ working more := by
  simp [working]

/-- Batches with the same path and the same commands count the same. -/
theorem Batch.working_congr {batch other : Batch} (hpath : batch.path = other.path) (hcommands : batch.commands = other.commands)
    (rest : List Batch) : working (batch :: rest) = working [other] ++ working rest := by
  cases hempty : other.commands.isEmpty <;> simp [working, hpath, hcommands, hempty]

namespace Forest

/-- The edits of a row in place are those of its batches. -/
theorem Placed.edits_eq {path : Path} {f : Forest Batch} (h : f.Placed Batch.path path) :
    f.edits.map (fun edit => (path.extend edit.1, edit.2)) =
      f.entries.flatMap fun batch => batch.commands.map (batch.path, ·) := by
  induction f generalizing path with
  | nil => rfl
  | cons entry below rest ihBelow ihRest =>
    obtain ⟨⟨name, hname⟩, -, hbelow, hrest⟩ := h
    have hunder : (fun edit : List String × Command => (path.extend edit.1, edit.2)) ∘
        (fun edit : List String × Command => (name :: edit.1, edit.2)) = fun edit => (entry.path.extend edit.1, edit.2) := by
      funext edit
      simp [hname]
    rw [edits, List.map_append, ihRest hrest, Outline.under, hname, Path.name?_child, Option.getD_some, List.map_map,
      hunder, List.map_append, ihBelow hbelow, entries, List.flatMap_cons, List.flatMap_append, List.map_map,
      List.append_assoc]
    simp [Function.comp_def]

/-- A row without edits has no batch with commands. -/
theorem working_eq_nil {f : Forest Batch} (h : f.edits = []) : Batch.working f.entries = [] := by
  induction f with
  | nil => rfl
  | cons entry below rest ihBelow ihRest =>
    obtain ⟨hfirst, hrest⟩ := List.append_eq_nil_iff.1 h
    obtain ⟨hcommands, hbelow⟩ := List.append_eq_nil_iff.1 (List.map_eq_nil_iff.1 hfirst)
    rw [entries, ← List.singleton_append, Batch.working_append, Batch.working_append, ihBelow hbelow, ihRest hrest]
    simp [Batch.working, List.map_eq_nil_iff.1 hcommands]

/-- A child that is made for a batch has its path, its commands, and the sections below it, if pushing those under a batch of
that path makes them. -/
theorem working_pushes_childAt {order : OrderTable} {outline : Outline Batch} {name : String} {entry : Batch}
    {below : Forest Batch} (hmissing : ∀ o ∈ outline.below.outlines, ((Batch.growth order).name? o.root == some name) = false)
    (hpath : ((Batch.growth order).child outline.root name).path = entry.path)
    (hbelow : ∀ made : Batch, made.path = entry.path → ((⟨made, .nil⟩ : Outline Batch).pushes order below.edits).root = made ∧
      Batch.working ((⟨made, .nil⟩ : Outline Batch).pushes order below.edits).below.entries = Batch.working below.entries)
    {child : Outline Batch}
    (hchild : child = (outline.childAt (Batch.growth order) name).pushes order (entry.commands.map ([], ·) ++ below.edits)) :
    child.root.path = entry.path ∧ Batch.working child.entries = Batch.working (entry :: below.entries) := by
  rw [Outline.pushes_childAt hmissing] at hchild
  obtain ⟨hroot, hworking⟩ := hbelow { (Batch.growth order).child outline.root name with commands := entry.commands } hpath
  rw [← hchild] at hroot hworking
  have hrootPath : child.root.path = entry.path := by rw [hroot]; exact hpath
  have hrootCommands : child.root.commands = entry.commands := by rw [hroot]
  refine ⟨hrootPath, ?_⟩
  rw [Outline.entries, Batch.working_congr hrootPath hrootCommands, hworking]
  exact (Batch.working_append [entry] below.entries).symm

/-- A child that was not there is put in after the others. -/
theorem working_putChild {order : OrderTable} {outline child : Outline Batch} {name : String}
    (hmissing : ∀ o ∈ outline.below.outlines, ((Batch.growth order).name? o.root == some name) = false) :
    Batch.working (outline.putChild (Batch.growth order) name child).below.entries =
      Batch.working outline.below.entries ++ Batch.working child.entries := by
  have hlast : (outline.putChild (Batch.growth order) name child).below.entries = outline.below.entries ++ child.entries :=
    entries_putFirst hmissing
  rw [hlast, Batch.working_append]

/-- Pushing the edits of a row below a root that has no child of its names adds the sections of the row, in order, to those that
are there. -/
theorem working_pushes (order : OrderTable) {path : Path} {f : Forest Batch} (hf : f.Placed Batch.path path)
    {outline : Outline Batch} (hroot : outline.root.path = path)
    (happart : ∀ o ∈ f.outlines, ∀ o' ∈ outline.below.outlines, o'.root.path.name? ≠ o.root.path.name?) :
    (outline.pushes order f.edits).root = outline.root ∧
      Batch.working (outline.pushes order f.edits).below.entries =
        Batch.working outline.below.entries ++ Batch.working f.entries := by
  induction f generalizing path outline with
  | nil => exact ⟨rfl, (List.append_nil _).symm⟩
  | cons entry below rest ihBelow ihRest =>
    obtain ⟨⟨name, hname⟩, hne, hbelow, hrest⟩ := hf
    obtain ⟨hfirst, hothers⟩ := List.forall_mem_cons.1 happart
    have hentry : entry.path.name? = some name := by rw [hname, Path.name?_child]
    have hsplit : outline.pushes order (edits (cons entry below rest)) =
        (outline.pushes order (Outline.under name (entry.commands.map ([], ·) ++ below.edits))).pushes order rest.edits := by
      rw [edits, hentry, Option.getD_some, Outline.pushes_append]
    rw [hsplit, entries, ← List.cons_append, Batch.working_append]
    by_cases hnone : entry.commands.map ([], ·) ++ below.edits = ([] : List (List String × Command))
    · -- nothing is pushed for a part without commands
      obtain ⟨hcommands, hedits⟩ := List.append_eq_nil_iff.1 hnone
      have hworking : Batch.working (entry :: below.entries) = [] := by
        rw [Batch.working_congr rfl rfl, working_eq_nil hedits]
        simp [Batch.working, List.map_eq_nil_iff.1 hcommands]
      rw [hnone, hworking]
      exact ihRest hrest hroot hothers
    · have hmissing : ∀ o ∈ outline.below.outlines, ((Batch.growth order).name? o.root == some name) = false := by
        intro o ho
        have hother := hfirst o ho
        rw [hentry] at hother
        simpa [(Batch.tracks order).name?_eq] using hother
      have hpath : ((Batch.growth order).child outline.root name).path = entry.path := by
        rw [hname, ← hroot]
        rfl
      have hmade : ∀ made : Batch, made.path = entry.path → _ := fun made hmade =>
        @ihBelow entry.path hbelow ⟨made, .nil⟩ hmade fun _ _ o' ho' => absurd ho' List.not_mem_nil
      rw [Outline.pushes_under hnone]
      generalize hchild : (outline.childAt (Batch.growth order) name).pushes order
        (entry.commands.map ([], ·) ++ below.edits) = child
      obtain ⟨hchildPath, hchildWorking⟩ := working_pushes_childAt hmissing hpath hmade hchild.symm
      have happart' : ∀ o ∈ rest.outlines, ∀ o' ∈ (outline.putChild (Batch.growth order) name child).below.outlines,
          o'.root.path.name? ≠ o.root.path.name? := by
        intro o ho o' ho'
        rcases mem_outlines_putFirst ho' with rfl | ho'
        · obtain ⟨other, hother⟩ := hrest.exists_name ho
          rw [hchildPath, hentry, hother, Path.name?_child]
          intro heq
          exact hne o ho (by rw [hother, hname, Option.some.inj heq])
        · exact hothers o ho o' ho'
      have hroot' : (outline.putChild (Batch.growth order) name child).root.path = path := hroot
      obtain ⟨hrestRoot, hrestBelow⟩ := ihRest hrest hroot' happart'
      refine ⟨hrestRoot, ?_⟩
      rw [hrestBelow, working_putChild hmissing, hchildWorking, List.append_assoc]

end Forest

/-! ## Scripts -/

namespace Script

variable {order : OrderTable} {script : Script}

/-- The commands of a script are those of its batches that have some. -/
theorem edits_eq_flatMap_working (script : Script) :
    script.edits = (Batch.working script.batches).flatMap fun batch => batch.2.map (batch.1, ·) := by
  rw [Batch.working, List.flatMap_map, edits]
  exact (Batch.flatMap_filter (fun batch hnone => by rw [hnone, List.map_nil]) script.batches).symm

theorem outline_pushAll (script : Script) (path : Path) (commands : List Command) :
    (script.pushAll order path commands).outline = script.outline.pushes order (commands.map (path.segments, ·)) := by
  induction commands generalizing script with
  | nil => rfl
  | cons command commands ih => exact ih _

/-- Pushing batches is pushing their edits. -/
theorem outline_pushBatches (script : Script) (batches : List Batch) :
    (script.pushBatches order batches).outline =
      script.outline.pushes order (batches.flatMap fun batch => batch.commands.map (batch.path.segments, ·)) := by
  induction batches generalizing script with
  | nil => rfl
  | cons batch batches ih =>
    rw [List.flatMap_cons, Outline.pushes_append, ← outline_pushAll]
    exact ih _

/-- The edits of a script, by the names that lead to them. -/
def namedEdits (script : Script) : List (List String × Command) :=
  script.edits.map fun edit => (edit.1.segments, edit.2)

/-- The named edits are those of the batches with commands. -/
theorem namedEdits_eq_flatMap (script : Script) :
    script.namedEdits = script.workingBatches.flatMap fun batch => batch.commands.map (batch.path.segments, ·) := by
  rw [workingBatches, Batch.flatMap_filter fun batch hnone => by rw [hnone, List.map_nil], namedEdits, edits, List.map_flatMap]
  simp [Function.comp_def]

/-- The named edits of a script in place: those of its root, then those of the row below. -/
theorem Placed.namedEdits_eq (h : script.Placed) :
    script.namedEdits = script.outline.root.commands.map ([], ·) ++ script.outline.below.edits := by
  have hbelow := congrArg (List.map fun edit : Path × Command => (edit.1.segments, edit.2)) h.2.edits_eq
  have hid : (fun edit : Path × Command => (edit.1.segments, edit.2)) ∘
      (fun edit : List String × Command => (Path.root.extend edit.1, edit.2)) = id := rfl
  rw [List.map_map, hid, List.map_id] at hbelow
  rw [namedEdits, edits, batches, Outline.entries, List.flatMap_cons, List.map_append, ← hbelow, h.1]
  simp [Path.root, Function.comp_def]

/-- Pushing the edits of a script in place, in order, onto a bare root makes the same sections with the same commands. -/
theorem Placed.working_pushes (h : script.Placed) {root : Batch} (hpath : root.path = .root) (hnone : root.commands = []) :
    Batch.working ((⟨root, .nil⟩ : Outline Batch).pushes order script.namedEdits).entries = Batch.working script.batches := by
  rw [h.namedEdits_eq, Outline.pushes_append, Outline.pushes_root, hnone, List.nil_append]
  generalize hstart : ({ root with commands := script.outline.root.commands } : Batch) = start
  have hstartPath : (⟨start, .nil⟩ : Outline Batch).root.path = .root := hstart ▸ hpath
  have hcommands : start.commands = script.outline.root.commands := hstart ▸ rfl
  obtain ⟨hkept, hbelow⟩ :=
    Forest.working_pushes order h.2 hstartPath fun _ _ o' ho' => absurd ho' List.not_mem_nil
  rw [Outline.entries, hkept, Batch.working_congr (hstartPath.trans h.1.symm) hcommands, hbelow, batches, Outline.entries,
    ← List.singleton_append (l := script.outline.below.entries), Batch.working_append]
  rfl

/-- Pushing the batches of a script in place, in order, makes the same sections with the same commands. -/
theorem Placed.working_pushBatches (h : script.Placed) :
    Batch.working (empty.pushBatches order script.workingBatches).batches = Batch.working script.batches := by
  rw [batches, outline_pushBatches, ← namedEdits_eq_flatMap]
  exact h.working_pushes rfl rfl

end Script

end RouterPlan
