import RouterPlan.Pattern.Engine
import RouterPlan.Proofs.Reachable

/-!
# Replaying the script of a merge

A merge finds its commands item by item; a replay has nothing but the script. Main statement: the replay goes through and ends
with the items and settings of the merged configuration, and whenever a command is carried out, its positions are valid and name
what the merge was after (`replay_exact`). What carries this is that both walk the same list of edits at each path
(`PassesAt.effects`), however the paths are interleaved.
-/

namespace RouterPlan

/-- The log takes no part in what a command is after. -/
theorem Section.Aim.withLog {target s : Section} {command : Command} (h : Aim target s command) (log : List Command) :
    Aim target { s with log } command := by
  cases h with
  | set hvalues hchanged => exact .set hvalues hchanged
  | remove hitem hgone => exact .remove hitem hgone
  | add hwanted hnew hbefore => exact .add hwanted hnew hbefore
  | move hitem hplace hlt => exact .move hitem hplace hlt

namespace Configuration

/-- The script of a merge can be replayed, and the replay ends with the items and settings of the merged configuration. -/
theorem exists_apply {base target merged : Configuration} {script : Script} (hb : base.WellFormed) (hm : merged.WellFormed)
    (h : ∀ path, PassesAt base target merged script path) :
    ∃ result, base.apply script = .ok result ∧
      ∀ path, result.itemsAt path = merged.itemsAt path ∧ result.settingsAt path = merged.settingsAt path := by
  obtain ⟨result, hresult, hafter⟩ := exists_loadAll_of_effects hb fun path => (h path).effects
  have hwf := hb.loadAll script.edits
  rw [hresult] at hwf
  refine ⟨result, by rw [apply, replay, hresult], fun path => ?_⟩
  rw [hwf.itemsAt_eq, hm.itemsAt_eq, hwf.settingsAt_eq, hm.settingsAt_eq, hafter]
  exact ⟨rfl, rfl⟩

/-- The script of a merge of reachable configurations can be replayed, and the replay ends at every path with the items, in the
same order, and the settings of the merged configuration. When a command of the script has its turn, the commands before it have
gone through, it has an effect on the section of its path as it stands then, so its index and its destination are valid there,
and the item or setting that it names is the one that the target asks for. -/
theorem replay_exact {base target : Configuration} (hb : base.Reachable) (ht : target.Reachable) :
    ∃ script merged result, base.merge target = .ok (script, merged) ∧ base.diff target = .ok script ∧
      base.apply script = .ok result ∧
      (∀ path, result.itemsAt path = merged.itemsAt path ∧ result.settingsAt path = merged.settingsAt path) ∧
      ∀ done path command rest, script.edits = done ++ (path, command) :: rest → ∃ c s, loadAll done base = (.ok (), c) ∧
        (c.sectionAt path).Effect command s ∧ target.AimsAt path (c.sectionAt path) command := by
  have hbase := hb.wellFormed
  obtain ⟨script, merged, hmerge, hdiff, hmerged, -, hpasses⟩ := exists_script_passes hbase ht.wellFormed
  obtain ⟨result, happly, hsame⟩ := exists_apply hbase hmerged hpasses
  refine ⟨script, merged, result, hmerge, hdiff, happly, hsame, ?_⟩
  intro done path command rest hedits
  have heff := fun other => (hpasses other).effects
  rw [hedits] at heff
  simp only [atPath_append] at heff
  obtain ⟨between, hdone⟩ := Classical.skolem.1 fun other => (heff other).split
  obtain ⟨c, hc, hbetween⟩ := exists_loadAll_of_effects hbase fun other => (hdone other).1
  have hnext := (hdone path).2
  rw [atPath_cons, if_pos rfl] at hnext
  cases hnext with
  | @step _ s _ _ _ haim he _ =>
    obtain ⟨t, hwanted, haim⟩ := haim
    refine ⟨c, { s with log := (base.sectionAt path).log ++ atPath path done }, hc, ?_, t, hwanted, ?_⟩
    · rw [hbetween path]
      exact he.withLog _
    · rw [hbetween path]
      exact haim.withLog _

/-- Rules are taken out, put in and moved, and the script that says so leads to the target. -/
theorem replay_exact_filter :
    (withRules .builtin filterPath ["a", "b", "c"]).Reachable ∧
      (withRules .builtin filterPath ["c", "x", "y", "a"]).Reachable ∧
      ∃ script result, (withRules .builtin filterPath ["a", "b", "c"]).diff
          (withRules .builtin filterPath ["c", "x", "y", "a"]) = .ok script ∧
        script.edits.map (·.2) = [.remove 1, .add (rule "x") none, .add (rule "y") none, .move 1 (some 0),
          .move 2 (some 1), .move 3 (some 2)] ∧
        (withRules .builtin filterPath ["a", "b", "c"]).apply script = .ok result ∧
        result.itemsAt filterPath = ["c", "x", "y", "a"].map rule := by
  have hb := reachable_withRules .builtin filterPath ["a", "b", "c"]
  have ht := reachable_withRules .builtin filterPath ["c", "x", "y", "a"]
  refine ⟨hb, ht, ?_⟩
  obtain ⟨script, merged, result, hmerge, hdiff, happly, hsame, -⟩ := replay_exact hb ht
  have hcomputed : ((withRules .builtin filterPath ["a", "b", "c"]).merge
      (withRules .builtin filterPath ["c", "x", "y", "a"])).map
        (fun (script, merged) => (script.edits.map (·.2), merged.itemsAt filterPath)) =
      .ok ([.remove 1, .add (rule "x") none, .add (rule "y") none, .move 1 (some 0), .move 2 (some 1), .move 3 (some 2)],
        ["c", "x", "y", "a"].map rule) := by
    decide +kernel
  rw [hmerge] at hcomputed
  obtain ⟨hedits, hitems⟩ := Prod.mk.inj (Except.ok.inj hcomputed)
  exact ⟨script, result, hdiff, hedits, happly, (hsame filterPath).1.trans hitems⟩

end Configuration

end RouterPlan
