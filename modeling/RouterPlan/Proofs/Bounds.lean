import RouterPlan.Proofs.Lemmas.CheckedRuns

/-!
# No step is out of bounds

Main statement: reading, merging and carrying out scripts give the same with every cut, every position and every number checked
(`Checked.never_stops`). So no text is cut within a character, no locator is closed more often than opened, and no item is read, put
in or taken out where its list has no position, whatever the texts, configurations and scripts are.

The one thing that can be in the way is a list of 2 ^ 63 items, which no memory holds: where the sizes of what is read, merged or
carried out allow none, the programs do not stop at all.
-/

namespace RouterPlan.Checked

/-- A merge needs room for the items of both sides. -/
theorem agrees_merge (base target : Configuration) :
    Agrees (base.itemCount + target.itemCount < lengthBound) (merge base target) (base.merge target) := by
  have hbase := base.length_le_itemCount
  have htarget : target.itemCount =
      target.outline.root.items.length + (target.outline.below.entries.map (·.items.length)).sum := List.sum_cons
  have hroot := hbase base.outline.root List.mem_cons_self
  refine ((agrees_mergeWith _ _).mono fun hroom => by omega).bindRun fun result hmerge => ?_
  obtain ⟨commands, s⟩ := result
  have hmerged := Section.length_of_mergeWith hmerge
  have hlengths : ∀ t ∈ ({ base.outline with root := s } : Outline Section).entries,
      t.items.length ≤ base.itemCount + target.outline.root.items.length := by
    intro t ht
    rcases List.mem_cons.1 ht with rfl | ht
    · exact hmerged.trans (Nat.add_le_add_right hroot _)
    · exact (hbase t (List.mem_cons_of_mem _ ht)).trans (Nat.le_add_right _ _)
  exact ((agrees_mergeBelow base.order _ _ hlengths).mono fun hroom => by omega).bindRun fun _ _ => .of_eq rfl

theorem agrees_diff (base target : Configuration) :
    Agrees (base.itemCount + target.itemCount < lengthBound) (diff base target) (base.diff target) := by
  refine (agrees_merge base target).bind ?_
  rw [Configuration.diff]
  cases base.merge target <;> exact .of_eq rfl

/-- A script needs room for the items that are there and for one for each of its commands. -/
theorem agrees_replay (c : Configuration) (script : Script) :
    Agrees (c.itemCount + script.size < lengthBound) (replay c script) (c.replay script) :=
  agrees_loadAll script.edits c c.length_le_itemCount

theorem agrees_apply (c : Configuration) (script : Script) :
    Agrees (c.itemCount + script.size < lengthBound) (apply c script) (c.apply script) := by
  refine (agrees_replay c script).bind ?_
  rw [Configuration.apply]
  rcases c.replay script with ⟨_ | _, c'⟩ <;> exact .of_eq rfl

/-- A text needs room for an item for each of its characters. -/
theorem agrees_readConfiguration (order : OrderTable) (text : String) :
    Agrees (text.length < lengthBound) (readConfiguration order text) (Configuration.read order text) := by
  have hstatements := Statement.length_ofText_le text
  have hempty : ∀ s ∈ (Configuration.empty order).sections, s.items.length ≤ 0 := by
    intro s hs
    obtain rfl := List.mem_singleton.1 hs
    exact Nat.le_refl 0
  rw [readConfiguration, statements_eq]
  exact (agrees_foldlM_follow _ _ hempty).mono fun hroom => by omega

theorem readScript_eq (order : OrderTable) (text : String) : readScript order text = .ok (Script.read order text) := by
  rw [readScript, statements_eq]
  rfl

/-- With every step checked, a text gives the configuration and the script that it gives without, and configurations and scripts give
the same difference, merge and run; for this it does not matter how the configurations have come about. A program could only stop at
a list that memory does not hold, where the sizes of a text, of two configurations or of a configuration and a script leave no room. -/
theorem never_stops :
    (∀ order text, Agrees (text.length < lengthBound) (readConfiguration order text) (Configuration.read order text)) ∧
      (∀ order text, readScript order text = .ok (Script.read order text)) ∧
      (∀ base target, Agrees (base.itemCount + target.itemCount < lengthBound) (diff base target) (base.diff target) ∧
        Agrees (base.itemCount + target.itemCount < lengthBound) (merge base target) (base.merge target)) ∧
      ∀ c script, Agrees (c.itemCount + script.size < lengthBound) (apply c script) (c.apply script) ∧
        Agrees (c.itemCount + script.size < lengthBound) (replay c script) (c.replay script) :=
  ⟨agrees_readConfiguration, readScript_eq, fun base target => ⟨agrees_diff base target, agrees_merge base target⟩,
    fun c script => ⟨agrees_apply c script, agrees_replay c script⟩⟩

end RouterPlan.Checked
