import Mathlib.Data.List.Nodup
import RouterPlan.Assoc

/-!
# Looking up in finite maps

A map is determined by what it gives for each key (`Assoc.ext_get?`), and each operation is described by what it does to
the lookups: `get?_insertMany` for putting one map over another, `get?_filter` for keeping some of the entries. Maps are in a
linear order, that of their entries.
-/

namespace RouterPlan.Assoc

variable {κ ν : Type} [Ord κ]

/-- A map holds no entries but those that were put in. -/
theorem mem_insertMany [Std.TransOrd κ] {m : Assoc κ ν} {entries : List (κ × ν)} {entry : κ × ν}
    (h : entry ∈ (m.insertMany entries).entries) : entry ∈ m.entries ∨ entry ∈ entries := by
  induction entries generalizing m with
  | nil => exact .inl h
  | cons first entries ih =>
    rcases ih (m := m.insert first.1 first.2) h with h | h
    · rcases mem_insertEntry h with rfl | h
      · exact .inr List.mem_cons_self
      · exact .inl h
    · exact .inr (List.mem_cons_of_mem _ h)

theorem mem_of_mem_ofList [Std.TransOrd κ] {entries : List (κ × ν)} {entry : κ × ν}
    (h : entry ∈ (ofList entries).entries) : entry ∈ entries :=
  (mem_insertMany h).resolve_left List.not_mem_nil

variable [Std.LawfulEqOrd κ]

/-- An entry of a map is what a lookup of its key gives. -/
theorem mem_entries_iff {m : Assoc κ ν} {key : κ} {value : ν} : (key, value) ∈ m.entries ↔ m.get? key = some value := by
  obtain ⟨entries, hsorted⟩ := m
  simp only [get?]
  induction entries with
  | nil => simp
  | cons entry entries ih =>
    obtain ⟨hfirst, hrest⟩ := List.pairwise_cons.1 hsorted
    by_cases he : entry.1 = key
    · have hnot : (key, value) ∉ entries := by
        intro hmem
        have hlt := hfirst _ hmem
        rw [he, Std.compare_self] at hlt
        cases hlt
      subst he
      obtain ⟨key, value'⟩ := entry
      simp only [List.mem_cons, Prod.mk.injEq, true_and, hnot, or_false, Std.compare_self, BEq.rfl, List.find?_cons_of_pos,
        Option.map_some, Option.some.injEq]
      exact eq_comm
    · have hne : (compare entry.1 key == .eq) = false := by simpa using he
      have hcons : (key, value) ≠ entry := by
        rintro rfl
        exact he rfl
      simp only [List.mem_cons, hcons, false_or, List.find?_cons, hne]
      exact ih hrest

/-- A map with entries holds some key, and only such a map does. -/
theorem isEmpty_eq_false_iff {m : Assoc κ ν} : m.isEmpty = false ↔ ∃ key value, m.get? key = some value := by
  constructor
  · intro h
    cases hm : m.entries with
    | nil => simp [isEmpty, hm] at h
    | cons entry rest => exact ⟨entry.1, entry.2, mem_entries_iff.1 (by simp [hm])⟩
  · rintro ⟨key, value, h⟩
    have hmem := mem_entries_iff.2 h
    cases hm : m.entries with
    | nil => simp [hm] at hmem
    | cons entry entries => simp [isEmpty, hm]

/-- The keys of a map differ. -/
theorem nodup_keys (m : Assoc κ ν) : (m.entries.map (·.1)).Nodup := by
  rw [List.Nodup, List.pairwise_map]
  refine m.sorted.imp fun {a b} hlt hab => ?_
  rw [hab, Std.compare_self] at hlt
  cases hlt

/-- Keeping the entries that pass a test keeps what a lookup gives if it passes. -/
theorem get?_filter (m : Assoc κ ν) (p : κ × ν → Bool) (key : κ) :
    (m.filter p).get? key = (m.get? key).filter fun value => p (key, value) := by
  refine Option.ext fun value => ?_
  rw [← mem_entries_iff, filter, List.mem_filter, mem_entries_iff, Option.filter_eq_some_iff]

/-- Taking a key out leaves the other keys as they are. -/
theorem get?_erase [DecidableEq κ] (m : Assoc κ ν) (key key' : κ) :
    (m.erase key).get? key' = if key' = key then none else m.get? key' := by
  refine Option.ext fun value => ?_
  rw [← mem_entries_iff, erase, List.mem_filter, mem_entries_iff]
  by_cases h : key' = key <;> simp [h]

variable [Std.TransOrd κ]

/-- Maps that give the same for every key are the same. -/
theorem ext_get? {m m' : Assoc κ ν} (h : ∀ key, m.get? key = m'.get? key) : m = m' := by
  have hmem : ∀ e : κ × ν, e ∈ m.entries ↔ e ∈ m'.entries := by
    rintro ⟨key, value⟩
    rw [mem_entries_iff, mem_entries_iff, h]
  have hnodup : ∀ m : Assoc κ ν, m.entries.Nodup := by
    intro m
    refine m.sorted.imp fun {a b} hlt hab => ?_
    rw [hab, Std.compare_self] at hlt
    cases hlt
  have hperm : m.entries.Perm m'.entries := (List.perm_ext_iff_of_nodup (hnodup m) (hnodup m')).2 hmem
  refine ext (hperm.eq_of_pairwise (fun a b _ _ hab hba => ?_) m.sorted m'.sorted)
  rw [Std.OrientedCmp.gt_of_lt hab] at hba
  cases hba

/-- A map without entries gives nothing for any key, and only such a map does. -/
theorem isEmpty_iff {m : Assoc κ ν} : m.isEmpty = true ↔ ∀ key, m.get? key = none := by
  constructor
  · intro h key
    have hnil : m.entries = [] := List.isEmpty_iff.1 h
    simp [get?, hnil]
  · intro h
    have hm : m = ∅ := ext_get? fun key => by rw [h key, get?_empty]
    rw [hm]
    rfl

/-- An insertion sets the value of its key and leaves the others. -/
theorem get?_insert_eq [DecidableEq κ] (m : Assoc κ ν) (key key' : κ) (value : ν) :
    (m.insert key value).get? key' = if key' = key then some value else m.get? key' := by
  rw [get?_insert]
  simp only [Std.compare_eq_iff_eq, eq_comm (a := key)]

/-- The value that a key has can be put in again. -/
theorem insert_of_get? [DecidableEq κ] {m : Assoc κ ν} {key : κ} {value : ν} (h : m.get? key = some value) :
    m.insert key value = m := by
  refine ext_get? fun key' => ?_
  rw [get?_insert_eq]
  split
  · rename_i hkey
    rw [hkey, h]
  · rfl

/-- A key that was not there can be put in and taken out. -/
theorem erase_insert [DecidableEq κ] {m : Assoc κ ν} {key : κ} (h : m.get? key = none) (value : ν) :
    (m.insert key value).erase key = m := by
  refine ext_get? fun key' => ?_
  rw [get?_erase, get?_insert_eq]
  split
  · rename_i hkey
    rw [hkey, h]
  · rfl

/-- Of two values for a key the later one counts. -/
theorem insert_insert [DecidableEq κ] (m : Assoc κ ν) (key : κ) (first second : ν) :
    (m.insert key first).insert key second = m.insert key second := by
  refine ext_get? fun key' => ?_
  rw [get?_insert_eq, get?_insert_eq, get?_insert_eq]
  split <;> rfl

/-- Putting in a list of entries whose keys differ: what the list says counts before what the map says. -/
theorem get?_insertMany_of_nodup (entries : List (κ × ν)) (hnodup : (entries.map (·.1)).Nodup) (m : Assoc κ ν) (key : κ) :
    (m.insertMany entries).get? key =
      ((entries.find? fun entry => compare entry.1 key == .eq).map (·.2)).or (m.get? key) := by
  induction entries generalizing m with
  | nil => rfl
  | cons entry entries ih =>
    obtain ⟨hfirst, hrest⟩ := List.nodup_cons.1 hnodup
    have hcons : m.insertMany (entry :: entries) = (m.insert entry.1 entry.2).insertMany entries := rfl
    rw [hcons, ih hrest, get?_insert, List.find?_cons]
    by_cases he : entry.1 = key
    · have hnone : entries.find? (fun entry => compare entry.1 key == .eq) = none := by
        rw [List.find?_eq_none]
        intro e hmem heq
        refine hfirst (List.mem_map.2 ⟨e, hmem, ?_⟩)
        exact (Std.compare_eq_iff_eq.1 (by simpa using heq)).trans he.symm
      simp [he, hnone]
    · have hne : (compare entry.1 key == .eq) = false := by simpa using he
      simp [he, hne]

/-- Putting one map over another: its values count before those below. -/
theorem get?_insertMany (m above : Assoc κ ν) (key : κ) :
    (m.insertMany above.entries).get? key = (above.get? key).or (m.get? key) :=
  get?_insertMany_of_nodup above.entries above.nodup_keys m key

/-- A map made from entries whose keys differ has those entries. -/
theorem get?_ofList_eq_some_iff {entries : List (κ × ν)} (hnodup : (entries.map (·.1)).Nodup) {key : κ} {value : ν} :
    (ofList entries).get? key = some value ↔ (key, value) ∈ entries := by
  rw [ofList, get?_insertMany_of_nodup entries hnodup, get?_empty, Option.or_none, Option.map_eq_some_iff]
  constructor
  · rintro ⟨entry, hfind, rfl⟩
    have hkey : entry.1 = key := Std.compare_eq_iff_eq.1 (by simpa using List.find?_some hfind)
    exact hkey ▸ List.mem_of_find?_eq_some hfind
  · intro hmem
    cases hfind : entries.find? fun entry => compare entry.1 key == .eq with
    | none => simpa using List.find?_eq_none.1 hfind (key, value) hmem
    | some entry =>
      have hkey : entry.1 = key := Std.compare_eq_iff_eq.1 (by simpa using List.find?_some hfind)
      rw [List.inj_on_of_nodup_map hnodup (List.mem_of_find?_eq_some hfind) hmem hkey]
      exact ⟨_, rfl, rfl⟩

/-- The map of the entries of a map is that map. -/
theorem ofList_entries (m : Assoc κ ν) : ofList m.entries = m :=
  ext_get? fun key => by rw [ofList, get?_insertMany, get?_empty, Option.or_none]

/-! ## Comparing maps -/

section Compare

variable {κ ν : Type} [Ord κ] [Ord ν]

instance [Std.TransOrd κ] [Std.TransOrd ν] : Std.TransOrd (Assoc κ ν) where
  eq_swap {a _} :=
    (Std.OrientedCmp.eq_swap : List.compareLex (compareLex (compareOn Prod.fst) (compareOn Prod.snd)) a.entries _ = _)
  isLE_trans {a _ c} hab hbc :=
    (Std.TransCmp.isLE_trans hab hbc :
      (List.compareLex (compareLex (compareOn Prod.fst) (compareOn Prod.snd)) a.entries c.entries).isLE = true)

instance [Std.LawfulEqOrd κ] [Std.LawfulEqOrd ν] :
    Std.LawfulEqCmp (compareLex (compareOn (Prod.fst : κ × ν → κ)) (compareOn Prod.snd)) where
  compare_self {a} := by simp [compareLex, compareOn]
  eq_of_compare {a b} h := by
    simp only [compareLex, compareOn, Ordering.then_eq_eq] at h
    exact Prod.ext (Std.LawfulEqOrd.eq_of_compare h.1) (Std.LawfulEqOrd.eq_of_compare h.2)

instance [Std.LawfulEqOrd κ] [Std.LawfulEqOrd ν] : Std.LawfulEqOrd (Assoc κ ν) where
  compare_self {a} :=
    (Std.ReflCmp.compare_self : List.compareLex (compareLex (compareOn Prod.fst) (compareOn Prod.snd)) a.entries a.entries = .eq)
  eq_of_compare {a b} h := ext (Std.LawfulEqCmp.eq_of_compare
    (h : List.compareLex (compareLex (compareOn Prod.fst) (compareOn Prod.snd)) a.entries b.entries = .eq))

end Compare

end RouterPlan.Assoc
