import RouterPlan.Proofs.Lemmas.Walks
import Mathlib.Data.List.Perm.Subperm

/-!
# Walking all sections

Main statement: in every reachable register the walk over all sections ends and passes each once, parents before children, children
in the order in which they were made, and what is below a section in one stretch right after it; so the rows for a path are a
stretch of the rows of all sections (`Register.traversal_exact`). The sections and rows are those of the configuration that the
register shows.
-/

namespace RouterPlan.Register

variable {r : Register} {id above : Nat} {order : List Nat} {sections : List Section} {path : Path}

/-- A register that shows a configuration is walked in the order of its sections. -/
theorem Shows.exists_walks {c : Configuration} (h : r.Shows c) :
    ∃ order, r.Walks [0] order ∧ (order.map fun id => (r.place id).held) = c.sections := by
  obtain ⟨order, hwalks, hsections⟩ := (Lists.cons h.holds.lt h.holds.below .nil).exists_walks
  refine ⟨order, hwalks, hsections.trans ?_⟩
  rw [Forest.entries, Forest.entries, List.append_nil, h.holds.root]
  rfl

/-- No number is passed twice, since no two sections share a path. -/
theorem nodup_walk {c : Configuration} (hc : c.WellFormed)
    (hsections : (order.map fun id => (r.place id).held) = c.sections) : order.Nodup := by
  have hpaths : (c.sections.map Section.path).Nodup := hc.placed.nodup_paths
  rw [← hsections] at hpaths
  exact (hpaths.of_map _).of_map _

/-- A walk over the root passes every number once. -/
theorem Walks.perm_range (h : r.Walks [0] order) (hcons : r.Consistent) (hnodup : order.Nodup) :
    order.Perm (List.range r.size) :=
  (List.perm_ext_iff_of_nodup hnodup List.nodup_range).2 fun _ =>
    ⟨fun hmem => List.mem_range.2 (h.lt hmem), fun hmem => h.mem_of_lt hcons (List.mem_range.1 hmem)⟩

/-- A walk passes a parent before its children. -/
theorem Walks.idxOf_lt (h : r.Walks [0] order) (hcons : r.Consistent) (hnodup : order.Nodup)
    (hparent : (r.place id).parent = some above) : order.idxOf above < order.idxOf id := by
  obtain ⟨hlt, hid, hmem, -⟩ := hcons.of_parent hparent
  obtain ⟨before, block, after, rfl, hblock⟩ := h.exists_block (h.mem_of_lt hcons (Nat.lt_trans hlt hid))
  have hid' : id ∈ above :: (block ++ after) :=
    List.mem_cons_of_mem _ (List.mem_append_left _ (hblock.sublist.subset hmem))
  have habove : above ∉ before := fun hbefore => List.disjoint_of_nodup_append hnodup hbefore List.mem_cons_self
  have hbefore : id ∉ before := fun hbefore => List.disjoint_of_nodup_append hnodup hbefore hid'
  rw [List.idxOf_append_of_notMem habove, List.idxOf_append_of_notMem hbefore, List.idxOf_cons_self,
    List.idxOf_cons_ne _ (Nat.ne_of_lt hlt)]
  omega

/-- A walk passes the children of a number in the order in which they are listed. -/
theorem Walks.filter_parent (h : r.Walks [0] order) (hcons : r.Consistent) (hnodup : order.Nodup) (hid : id < r.size) :
    order.filter (fun child => (r.place child).parent = some id) = (r.place id).children := by
  obtain ⟨before, block, after, hsplit, hblock⟩ := h.exists_block (h.mem_of_lt hcons hid)
  have hlisted : (r.place id).children.filter (fun child => (r.place child).parent = some id) = (r.place id).children :=
    List.filter_eq_self.2 fun child hchild => decide_eq_true (hcons.listed id hid child hchild).2
  have hwithin : block.Sublist order := by
    rw [hsplit]
    exact ((List.sublist_append_left _ _).cons _).trans (List.sublist_append_right _ _)
  have hsub : (r.place id).children.Sublist (order.filter fun child => (r.place child).parent = some id) :=
    hlisted ▸ (hblock.sublist.trans hwithin).filter _
  -- What a number lists lies in the walk in that order, and nothing else has the number as its parent.
  have hall : order.filter (fun child => (r.place child).parent = some id) ⊆ (r.place id).children := fun child hchild =>
    (hcons.of_parent (of_decide_eq_true (List.mem_filter.1 hchild).2)).2.2.1
  have hlength := ((hnodup.filter fun child => (r.place child).parent = some id).subperm hall).length_le
  exact (hsub.eq_of_length_le hlength).symm

/-- A test that picks out a stretch of a list without repetitions leaves the stretch. -/
theorem filter_stretch {before stretch after : List Nat} {test : Nat → Bool} (hnodup : (before ++ (stretch ++ after)).Nodup)
    (htest : ∀ j ∈ before ++ (stretch ++ after), test j = true ↔ j ∈ stretch) :
    (before ++ (stretch ++ after)).filter test = stretch := by
  have hbefore : before.filter test = [] := List.filter_eq_nil_iff.2 fun j hj hpicked =>
    List.disjoint_of_nodup_append hnodup hj
      (List.mem_append_left _ ((htest j (List.mem_append_left _ hj)).1 hpicked))
  have hstretch : stretch.filter test = stretch := List.filter_eq_self.2 fun j hj =>
    (htest j (List.mem_append_right _ (List.mem_append_left _ hj))).2 hj
  have hafter : after.filter test = [] := List.filter_eq_nil_iff.2 fun j hj hpicked =>
    List.disjoint_of_nodup_append hnodup.of_append_right
      ((htest j (List.mem_append_right _ (List.mem_append_right _ hj))).1 hpicked) hj
  rw [List.filter_append, List.filter_append, hbefore, hstretch, hafter, List.nil_append, List.append_nil]

/-- The sections at the path of a number and below it are those of one stretch of the walk. -/
theorem Walks.filter_isUnder {before block after : List Nat} (h : r.Walks [0] (before ++ id :: (block ++ after)))
    (hcons : r.Consistent) (hnodup : (before ++ id :: (block ++ after)).Nodup) (hblock : ∀ j, j ∈ block ↔ r.Below id j) :
    ((before ++ id :: (block ++ after)).map fun id => (r.place id).held).filter (·.isUnder (r.place id).path) =
      (id :: block).map fun id => (r.place id).held := by
  have hid : id < r.size := h.lt (by simp)
  have hunder : ∀ j ∈ before ++ id :: (block ++ after),
      (r.place j).held.isUnder (r.place id).path = true ↔ j ∈ id :: block := fun j hj => by
    rw [Section.isUnder, List.isPrefixOf_iff_prefix, List.mem_cons, hblock]
    exact hcons.prefix_iff hid (h.lt hj)
  have hstretch : (before ++ (id :: block ++ after)).filter (fun j => (r.place j).held.isUnder (r.place id).path) = id :: block :=
    filter_stretch hnodup hunder
  rw [List.filter_map]
  exact congrArg _ hstretch

/-! ## Rows -/

/-- The row of a place says where it is, how it is ordered and how much it holds. -/
theorem row_held (p : Place) :
    p.held.row = ⟨p.path, p.mode, p.items.length, p.settings.entries.length⟩ := by
  rw [Section.row]
  simp [Place.held, Assoc.mapValues]

/-- There are rows for a path unless no section has it. -/
theorem Consistent.rows?_eq_none_iff (h : r.Consistent) (hsections : r.sections? = some sections) :
    r.rows? (some path) = none ↔ ∀ id < r.size, (r.place id).path ≠ path := by
  rw [rows?, hsections]
  cases hfind : r.find? path with
  | none =>
    refine iff_of_true rfl fun id hid hpath => ?_
    rw [h.find?_eq_some_iff.2 ⟨hid, hpath⟩] at hfind
    cases hfind
  | some id =>
    obtain ⟨hid, hpath⟩ := h.find?_eq_some_iff.1 hfind
    exact iff_of_false (by simp) fun hnot => hnot id hid hpath

/-- The rows for the path of a number are those of one stretch of the walk, of the number and what is below it. -/
theorem Walks.exists_stretch (h : r.Walks [0] order) (hcons : r.Consistent) (hnodup : order.Nodup)
    (hsections : r.sections? = some (order.map fun id => (r.place id).held)) (hid : id < r.size) :
    ∃ before block after, order = before ++ id :: (block ++ after) ∧ (∀ j, j ∈ block ↔ r.Below id j) ∧
      r.rows? (some (r.place id).path) = some ((id :: block).map fun id => (r.place id).held.row) := by
  obtain ⟨before, block, after, rfl, hblock⟩ := h.exists_block (h.mem_of_lt hcons hid)
  have hbelow : ∀ j, j ∈ block ↔ r.Below id j := fun _ => hblock.mem_iff_below hcons hid
  refine ⟨before, block, after, rfl, hbelow, ?_⟩
  rw [rows?, hsections, hcons.find?_path hid, Option.bind_eq_bind, Option.bind_some, Option.bind_eq_bind, Option.bind_some,
    h.filter_isUnder hcons hnodup hbelow, List.map_map]
  rfl

/-- The rows of a configuration are those of the register that shows it. -/
theorem Shows.rows?_eq {c : Configuration} (h : r.Shows c) (hsections : r.sections? = some c.sections) (path : Path) :
    r.rows? (some path) = c.rows? path := by
  rw [rows?, Configuration.rows?, hsections, h.section?_eq]
  cases r.find? path <;> rfl

/-- All rows are those at the root and below it. -/
theorem rows?_none {c : Configuration} (hsections : r.sections? = some c.sections) :
    r.rows? none = c.rows? .root := by
  have hroot : c.section? .root = some c.outline.root := rfl
  have hall : c.sections.filter (·.isUnder .root) = c.sections := List.filter_eq_self.2 fun _ _ => rfl
  rw [rows?, Configuration.rows?, hsections, hroot, hall]
  rfl

/-- In every reachable register the walk over all sections ends, whatever turns it is given beyond one for each number, with numbers
such that:
* each number that was given out is there once;
* a parent comes before its children;
* the children of a section come in the order in which they are listed, which is that of their numbers and so the one in which they
  were made;
* a section is followed by one stretch of those below it, and no others;
* the rows are those of the numbers, with the path and the mode of each section and how many items and settings it has; there are
  rows for a path exactly when a section has it, and they are then the stretch of all rows that begins with that section and goes
  on with what is below it.
The sections and rows are those of the configuration that the register shows. -/
theorem traversal_exact (h : r.Reachable) :
    ∃ order, r.traverse = some order ∧ (∀ turns ≥ r.size, r.walk turns [] [0] = some order) ∧
      order.Perm (List.range r.size) ∧
      (∀ id above, (r.place id).parent = some above → order.idxOf above < order.idxOf id) ∧
      (∀ id < r.size, order.filter (fun child => (r.place child).parent = some id) = (r.place id).children ∧
        (r.place id).children.Pairwise (· < ·)) ∧
      r.rows? none = some (order.map fun id => (r.place id).held.row) ∧
      (∀ id, (r.place id).held.row =
        ⟨(r.place id).path, (r.place id).mode, (r.place id).items.length, (r.place id).settings.entries.length⟩) ∧
      (∀ path, r.rows? (some path) = none ↔ ∀ id < r.size, (r.place id).path ≠ path) ∧
      (∀ id < r.size, ∃ before block after, order = before ++ id :: (block ++ after) ∧ (∀ j, j ∈ block ↔ r.Below id j) ∧
        r.rows? (some (r.place id).path) = some ((id :: block).map fun id => (r.place id).held.row)) ∧
      ∃ c : Configuration, c.Reachable ∧ r.Shows c ∧ c.sections = (order.map fun id => (r.place id).held) ∧
        (∀ path, c.rows? path = r.rows? (some path)) ∧ c.rows? .root = r.rows? none := by
  obtain ⟨c, hc, hshows⟩ := h.exists_shows
  have hcons := hshows.consistent
  obtain ⟨order, hwalks, hheld⟩ := hshows.exists_walks
  have hnodup : order.Nodup := nodup_walk hc.wellFormed hheld
  have hperm : order.Perm (List.range r.size) := hwalks.perm_range hcons hnodup
  have hlength : order.length = r.size := hperm.length_eq.trans List.length_range
  have htraverse : r.traverse = some order := hwalks.walk_root (Nat.le_of_eq hlength)
  have hsections : r.sections? = some (order.map fun id => (r.place id).held) := by
    rw [sections?, htraverse]
    rfl
  have hshown : r.sections? = some c.sections := hheld ▸ hsections
  refine ⟨order, htraverse, fun turns hturns => hwalks.walk_root (hlength ▸ hturns), hperm,
    fun id above => hwalks.idxOf_lt hcons hnodup, fun id hid => ?_, ?_,
    fun id => row_held (r.place id), fun path => hcons.rows?_eq_none_iff hsections,
    fun id => hwalks.exists_stretch hcons hnodup hsections, c, hc, hshows, hheld.symm,
    fun path => (hshows.rows?_eq hshown path).symm, (rows?_none hshown).symm⟩
  · exact ⟨hwalks.filter_parent hcons hnodup hid, (h.ascending id).1⟩
  · rw [rows?, hsections, Option.bind_eq_bind, Option.bind_some, List.map_map]
    rfl

/-- The firewall, and then an interface section and one for addresses beside the firewall. -/
def branches : Register :=
  ((firewall.ensure ⟨["interface"]⟩).2.ensure ⟨["ip", "address"]⟩).2

/-- The addresses, made last, come with what else is below `ip`, before the interface section. -/
theorem traversal_exact_branches :
    branches.Reachable ∧ branches.traverse = some [0, 1, 2, 3, 4, 6, 5] ∧ branches.rows? (some ⟨["ipv6"]⟩) = none ∧
      ∃ before block after, [0, 1, 2, 3, 4, 6, 5] = before ++ 1 :: (block ++ after) ∧ (∀ j, j ∈ block ↔ branches.Below 1 j) ∧
        branches.rows? (some ⟨["ip"]⟩) = some ((1 :: block).map fun id => (branches.place id).held.row) := by
  have hreachable : branches.Reachable := .ensure _ (.ensure _ reachable_firewall)
  have htraverse : branches.traverse = some [0, 1, 2, 3, 4, 6, 5] := by decide +kernel
  obtain ⟨order, hwalk, -, -, -, -, -, -, hnone, hblocks, -⟩ := traversal_exact hreachable
  rw [htraverse, Option.some.injEq] at hwalk
  subst hwalk
  have hpath : (branches.place 1).path = ⟨["ip"]⟩ := by decide +kernel
  have hblock := hblocks 1 (by decide +kernel)
  rw [hpath] at hblock
  exact ⟨hreachable, htraverse, (hnone _).2 (by decide +kernel), hblock⟩

end RouterPlan.Register
