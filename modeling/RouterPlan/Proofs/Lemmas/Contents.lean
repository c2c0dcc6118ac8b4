import RouterPlan.Proofs.Lemmas.Converged

/-!
# Contents compared

Equality of configurations compares sorted lists and maps; a comparison edits one configuration towards the other. Both come to the
same: sections of one mode that have reached each other hold what compares as equal (`Section.comparable_eq_iff`), since sorting
forgets nothing but the order (`Item.mergeSort_eq_iff`) and settings without empty ones are determined by their values
(`Section.settings_eq_iff`). So configurations with the same order table are equal exactly when they have reached each other
(`Configuration.WellFormed.beq_iff_reaches`).
-/

namespace RouterPlan

/-! ## Sorted items -/

namespace Item

theorem precedes_eq_isLE (a b : Item) : a.precedes b = (compare a b).isLE := by
  rw [precedes]
  cases compare a b <;> rfl

/-- Items that stand before each other are the same. -/
theorem eq_of_precedes {a b : Item} (hab : a.precedes b = true) (hba : b.precedes a = true) : a = b := by
  rw [precedes_eq_isLE] at hab hba
  exact Std.LawfulEqOrd.eq_of_compare (Std.OrientedCmp.isLE_antisymm hab hba)

theorem precedes_trans (a b c : Item) (hab : a.precedes b = true) (hbc : b.precedes c = true) : a.precedes c = true := by
  rw [precedes_eq_isLE] at hab hbc ⊢
  exact Std.TransCmp.isLE_trans hab hbc

theorem precedes_total (a b : Item) : (a.precedes b || b.precedes a) = true := by
  have hswap : compare b a = (compare a b).swap := Std.OrientedCmp.eq_swap
  rw [precedes_eq_isLE, precedes_eq_isLE, hswap]
  cases compare a b <;> rfl

/-- Lists of items are sorted into the same list exactly when they hold the same, as often. -/
theorem mergeSort_eq_iff {items items' : List Item} :
    items.mergeSort precedes = items'.mergeSort precedes ↔ items.Perm items' := by
  constructor
  · intro heq
    exact (List.mergeSort_perm items precedes).symm.trans (heq ▸ List.mergeSort_perm items' precedes)
  · intro hperm
    refine List.Perm.eq_of_pairwise (fun a b _ _ => eq_of_precedes) (List.pairwise_mergeSort precedes_trans precedes_total items)
      (List.pairwise_mergeSort precedes_trans precedes_total items') ?_
    exact ((List.mergeSort_perm items precedes).trans hperm).trans (List.mergeSort_perm items' precedes).symm

end Item

/-! ## Sections -/

namespace Section

variable {order order' : OrderTable} {s s' : Section}

/-- Settings, none of which is empty, are the same exactly when they have the same values. -/
theorem settings_eq_iff (hs : s.WellFormed order) (hs' : s'.WellFormed order') :
    s.settings = s'.settings ↔ ∀ id key, s.value? id key = s'.value? id key := by
  constructor
  · intro heq id key
    rw [value?, value?, heq]
  · intro hvalue
    refine Assoc.ext_get? fun id => ?_
    simp only [value?] at hvalue
    -- A setting of one section without values in the other one would be empty.
    cases hvalues : s.settings.get? id with
    | none =>
      cases hvalues' : s'.settings.get? id with
      | none => rfl
      | some values' =>
        obtain ⟨key, value, hkey⟩ := Assoc.isEmpty_eq_false_iff.1 (hs'.settled id values' hvalues')
        have hboth := hvalue id key
        rw [hvalues, hvalues', Option.bind_some, hkey] at hboth
        cases hboth
    | some values =>
      cases hvalues' : s'.settings.get? id with
      | none =>
        obtain ⟨key, value, hkey⟩ := Assoc.isEmpty_eq_false_iff.1 (hs.settled id values hvalues)
        have hboth := hvalue id key
        rw [hvalues, hvalues', Option.bind_some, hkey] at hboth
        cases hboth
      | some values' =>
        refine congrArg some (Assoc.ext_get? fun key => ?_)
        have hboth := hvalue id key
        rwa [hvalues, hvalues'] at hboth

/-- Lists without repetitions that compare as equal in a mode: the same list where order counts, the same items where not. -/
theorem comparableItems_eq_iff (hmode : s.mode = s'.mode) (hn : s.items.Nodup) (hn' : s'.items.Nodup) :
    s.comparableItems = s'.comparableItems ↔
      (s.mode.isOrdered = true → s.items = s'.items) ∧ ∀ item, item ∈ s.items ↔ item ∈ s'.items := by
  rw [comparableItems, comparableItems, ← hmode]
  cases s.mode.isOrdered with
  | true =>
    simp only [if_true, forall_true_left]
    exact ⟨fun heq => ⟨heq, fun item => by rw [heq]⟩, fun h => h.1⟩
  | false =>
    simp only [Bool.false_eq_true, if_false, IsEmpty.forall_iff, true_and]
    rw [Item.mergeSort_eq_iff, List.perm_ext_iff_of_nodup hn hn']

/-- Sections of one mode hold what compares as equal exactly when they have reached each other. -/
theorem comparable_eq_iff (hs : s.WellFormed order) (hs' : s'.WellFormed order') (hmode : s.mode = s'.mode) :
    s.comparableItems = s'.comparableItems ∧ s.settings = s'.settings ↔ s.Reaches s' ∧ s'.Reaches s := by
  rw [comparableItems_eq_iff hmode hs.nodup hs'.nodup, settings_eq_iff hs hs']
  constructor
  · rintro ⟨⟨hitems, hmem⟩, hvalue⟩
    exact ⟨⟨hitems, hmem, fun id key value h => (hvalue id key).trans h⟩,
      ⟨fun hordered => (hitems (hmode ▸ hordered)).symm, fun item => (hmem item).symm,
        fun id key value h => (hvalue id key).symm.trans h⟩⟩
  · rintro ⟨hthere, hback⟩
    refine ⟨⟨hthere.items_eq, hthere.mem_iff⟩, fun id key => Option.ext fun value => ?_⟩
    exact ⟨hback.value?_eq id key value, hthere.value?_eq id key value⟩

/-- What a section holds, as far as equality counts it: nothing if it has no content. -/
def held? (s : Section) : Option (List Item × Assoc Identifier Values) :=
  if s.hasContent then some (s.comparableItems, s.settings) else none

/-- A section without content has no items to compare, and no settings. -/
theorem hasContent_eq_false_iff : s.hasContent = false ↔ s.comparableItems = [] ∧ s.settings = ∅ := by
  have hitems : s.comparableItems = [] ↔ s.items = [] := by
    rw [comparableItems]
    split
    · exact Iff.rfl
    · exact ⟨fun h => (List.nil_perm.1 (h ▸ List.mergeSort_perm s.items Item.precedes)),
        fun h => by rw [h, List.mergeSort_nil]⟩
  have hsettings : s.settings.isEmpty = true ↔ s.settings = ∅ :=
    ⟨fun h => Assoc.ext (List.isEmpty_iff.1 h), fun h => by rw [h]; rfl⟩
  rw [hitems, ← hsettings, hasContent]
  cases s.items <;> cases s.settings.isEmpty <;> simp

theorem getD_held? (s : Section) : s.held?.getD ([], ∅) = (s.comparableItems, s.settings) := by
  rw [held?]
  cases hs : s.hasContent with
  | true => rfl
  | false =>
    obtain ⟨hitems, hsettings⟩ := hasContent_eq_false_iff.1 hs
    rw [hitems, hsettings]
    rfl

/-- Sections hold the same exactly when their items compare as equal and their settings are the same. -/
theorem held?_eq_iff : s.held? = s'.held? ↔ s.comparableItems = s'.comparableItems ∧ s.settings = s'.settings := by
  constructor
  · intro heq
    have hparts : (s.comparableItems, s.settings) = (s'.comparableItems, s'.settings) := by
      rw [← getD_held?, ← getD_held?, heq]
    exact Prod.mk.inj hparts
  · rintro ⟨hitems, hsettings⟩
    have hcontent : s.hasContent = false ↔ s'.hasContent = false := by
      rw [hasContent_eq_false_iff, hasContent_eq_false_iff, hitems, hsettings]
    have hcontent : s.hasContent = s'.hasContent := Bool.eq_iff_iff.2 (by simpa using not_congr hcontent)
    rw [held?, held?, hcontent, hitems, hsettings]

/-- What nothing has reached and what has reached nothing: a section without items and settings. -/
theorem Reaches.symm_fresh {path : Path} (h : (fresh order path).Reaches s) : s.Reaches (fresh order path) := by
  have hitems := h.items_eq_nil_iff.1 rfl
  exact ⟨fun _ => hitems, fun item => by rw [hitems]; exact Iff.rfl, fun id key value hvalue => nomatch hvalue⟩

end Section

/-! ## Configurations -/

namespace Configuration

variable {c c' : Configuration}

/-- Configurations are equal exactly when they hold the same at every path. -/
theorem WellFormed.beq_iff (h : c.WellFormed) (h' : c'.WellFormed) :
    (c == c') = true ↔ ∀ path, (c.sectionAt path).held? = (c'.sectionAt path).held? := by
  have hbeq : (c == c') = true ↔ c.content = c'.content := beq_iff_eq (α := Assoc Path (List Item × Assoc Identifier Values))
  rw [hbeq]
  constructor
  · intro heq path
    rw [Section.held?, Section.held?, ← h.get?_content, ← h'.get?_content, heq]
  · intro hheld
    refine Assoc.ext_get? fun path => ?_
    rw [h.get?_content, h'.get?_content]
    exact hheld path

/-- Where configurations have reached each other, so have the sections at every path, whether they are there or not. -/
theorem Reaches.sectionAt (hc : c.WellFormed) (hc' : c'.WellFormed) (horder : c.order = c'.order) (h : c.Reaches c')
    (h' : c'.Reaches c) (path : Path) : (c.sectionAt path).Reaches (c'.sectionAt path) := by
  cases hs' : c'.section? path with
  | some s' =>
    obtain ⟨hmem, rfl⟩ := hc'.section?_eq_some_iff.1 hs'
    rw [sectionAt_of_section? hs']
    exact h s' hmem
  | none =>
    rw [hc'.sectionAt_of_section?_eq_none hs']
    cases hs : c.section? path with
    | some s =>
      obtain ⟨hmem, rfl⟩ := hc.section?_eq_some_iff.1 hs
      have hback := h' s hmem
      rw [hc'.sectionAt_of_section?_eq_none hs'] at hback
      rw [sectionAt_of_section? hs]
      exact hback.symm_fresh
    | none =>
      rw [hc.sectionAt_of_section?_eq_none hs, horder]
      exact .refl _

/-- Configurations with the same order table are equal exactly when they have reached each other. -/
theorem WellFormed.beq_iff_reaches (h : c.WellFormed) (h' : c'.WellFormed) (horder : c.order = c'.order) :
    (c == c') = true ↔ c.Reaches c' ∧ c'.Reaches c := by
  have hmode : ∀ path, (c.sectionAt path).mode = (c'.sectionAt path).mode := by
    intro path
    rw [(h.sectionAt path).mode, (h'.sectionAt path).mode, h.path_sectionAt, h'.path_sectionAt, horder]
  have hsections : ∀ path, (c.sectionAt path).held? = (c'.sectionAt path).held? ↔
      (c.sectionAt path).Reaches (c'.sectionAt path) ∧ (c'.sectionAt path).Reaches (c.sectionAt path) := fun path =>
    Section.held?_eq_iff.trans (Section.comparable_eq_iff (h.sectionAt path) (h'.sectionAt path) (hmode path))
  rw [h.beq_iff h']
  simp only [hsections]
  constructor
  · intro hreach
    refine ⟨fun t ht => ?_, fun t ht => ?_⟩
    · have hthere := (hreach t.path).1
      rwa [sectionAt_of_section? (h'.section?_eq_some_iff.2 ⟨ht, rfl⟩)] at hthere
    · have hback := (hreach t.path).2
      rwa [sectionAt_of_section? (h.section?_eq_some_iff.2 ⟨ht, rfl⟩)] at hback
  · rintro ⟨hthere, hback⟩ path
    exact ⟨hthere.sectionAt h h' horder hback path, hback.sectionAt h' h horder.symm hthere path⟩

end Configuration

end RouterPlan
