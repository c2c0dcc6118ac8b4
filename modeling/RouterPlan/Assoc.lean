/-!
# Finite maps in key order

A map is the list of its entries in strictly ascending key order, so two maps with the same entries are the same value,
and everything that lists a map lists it in one order. `get?_insert` says what an insertion changes.
-/

namespace RouterPlan

/-- A finite map: entries in strictly ascending order of their keys. -/
structure Assoc (κ ν : Type) [Ord κ] where
  entries : List (κ × ν)
  sorted : entries.Pairwise (fun a b => compare a.1 b.1 = .lt)
deriving DecidableEq

namespace Assoc

variable {κ ν : Type} [Ord κ]

/-- The map without entries. -/
def empty : Assoc κ ν :=
  ⟨[], .nil⟩

instance : EmptyCollection (Assoc κ ν) :=
  ⟨empty⟩

instance : Inhabited (Assoc κ ν) :=
  ⟨empty⟩

/-- Whether the map has no entries. -/
def isEmpty (m : Assoc κ ν) : Bool :=
  m.entries.isEmpty

/-- The value of a key. -/
def get? (m : Assoc κ ν) (key : κ) : Option ν :=
  (m.entries.find? (fun entry => compare entry.1 key == .eq)).map (·.2)

/-- An ascending list of entries with the value of one key set. -/
def insertEntry (key : κ) (value : ν) : List (κ × ν) → List (κ × ν)
  | [] => [(key, value)]
  | entry :: entries =>
    match compare key entry.1 with
    | .lt => (key, value) :: entry :: entries
    | .eq => (key, value) :: entries
    | .gt => entry :: insertEntry key value entries

theorem mem_insertEntry {key : κ} {value : ν} {entries : List (κ × ν)} {e : κ × ν}
    (h : e ∈ insertEntry key value entries) : e = (key, value) ∨ e ∈ entries := by
  induction entries with
  | nil => simpa [insertEntry] using h
  | cons entry entries ih =>
    unfold insertEntry at h
    split at h
    · simpa using h
    · rcases List.mem_cons.1 h with h | h
      · exact .inl h
      · exact .inr (List.mem_cons_of_mem _ h)
    · rcases List.mem_cons.1 h with h | h
      · exact .inr (h ▸ List.mem_cons_self)
      · exact (ih h).imp id (List.mem_cons_of_mem _)

theorem sorted_insertEntry [Std.TransOrd κ] (key : κ) (value : ν) {entries : List (κ × ν)}
    (h : entries.Pairwise (fun a b => compare a.1 b.1 = .lt)) :
    (insertEntry key value entries).Pairwise (fun a b => compare a.1 b.1 = .lt) := by
  induction entries with
  | nil => exact List.pairwise_singleton _ _
  | cons entry entries ih =>
    obtain ⟨hfirst, hrest⟩ := List.pairwise_cons.1 h
    unfold insertEntry
    split
    · rename_i hlt
      refine List.pairwise_cons.2 ⟨fun e he => ?_, h⟩
      rcases List.mem_cons.1 he with rfl | he
      · exact hlt
      · exact Std.TransCmp.lt_trans hlt (hfirst e he)
    · rename_i heq
      exact List.pairwise_cons.2 ⟨fun e he => Std.TransCmp.lt_of_eq_of_lt heq (hfirst e he), hrest⟩
    · rename_i hgt
      refine List.pairwise_cons.2 ⟨fun e he => ?_, ih hrest⟩
      rcases mem_insertEntry he with rfl | he
      · exact Std.OrientedCmp.gt_iff_lt.1 hgt
      · exact hfirst e he

/-- The map with the value of a key set. -/
def insert [Std.TransOrd κ] (m : Assoc κ ν) (key : κ) (value : ν) : Assoc κ ν :=
  ⟨insertEntry key value m.entries, sorted_insertEntry key value m.sorted⟩

/-- The map without a key. -/
def erase (m : Assoc κ ν) (key : κ) : Assoc κ ν :=
  ⟨m.entries.filter (fun entry => compare entry.1 key != .eq), m.sorted.sublist List.filter_sublist⟩

/-- The entries whose key and value pass a test. -/
def filter (m : Assoc κ ν) (p : κ × ν → Bool) : Assoc κ ν :=
  ⟨m.entries.filter p, m.sorted.sublist List.filter_sublist⟩

/-- The map with a function applied to each value. -/
def mapValues {μ : Type} (f : ν → μ) (m : Assoc κ ν) : Assoc κ μ :=
  ⟨m.entries.map fun entry => (entry.1, f entry.2), List.pairwise_map.2 m.sorted⟩

/-- The map with further entries put in; the last entry of a key counts. -/
def insertMany [Std.TransOrd κ] (m : Assoc κ ν) (entries : List (κ × ν)) : Assoc κ ν :=
  entries.foldl (fun m entry => m.insert entry.1 entry.2) m

/-- The map of a list of entries; the last entry of a key counts. -/
def ofList [Std.TransOrd κ] (entries : List (κ × ν)) : Assoc κ ν :=
  insertMany ∅ entries

/-- Maps compare as their lists of entries. -/
instance [Ord ν] : Ord (Assoc κ ν) where
  compare a b := List.compareLex (compareLex (compareOn Prod.fst) (compareOn Prod.snd)) a.entries b.entries

@[ext] theorem ext {m m' : Assoc κ ν} (h : m.entries = m'.entries) : m = m' := by
  cases m
  cases m'
  simp_all

@[simp] theorem get?_empty (key : κ) : (∅ : Assoc κ ν).get? key = none := rfl

/-- An insertion sets the value of its key and leaves the others. -/
theorem get?_insert [Std.TransOrd κ] [Std.LawfulEqOrd κ] (m : Assoc κ ν) (key key' : κ) (value : ν) :
    (m.insert key value).get? key' = if compare key key' = .eq then some value else m.get? key' := by
  obtain ⟨entries, hsorted⟩ := m
  simp only [get?, insert]
  clear hsorted
  induction entries with
  | nil => by_cases h : compare key key' = .eq <;> simp [insertEntry, h]
  | cons entry entries ih =>
    unfold insertEntry
    split
    · by_cases h : compare key key' = .eq <;> simp [h]
    · rename_i heq
      have heq : key = entry.1 := Std.LawfulEqOrd.eq_of_compare heq
      by_cases h : compare key key' = .eq
      · simp [h]
      · simp [heq ▸ h, heq]
    · rename_i hgt
      by_cases he : compare entry.1 key' = .eq
      · have hne : compare key key' ≠ .eq := by
          rw [← Std.LawfulEqOrd.eq_of_compare he, hgt]
          decide
        simp [he, hne]
      · simpa [List.find?_cons, he] using ih

end Assoc

end RouterPlan
