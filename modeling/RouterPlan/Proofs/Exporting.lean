import RouterPlan.Pattern.Engine
import RouterPlan.Proofs.Lemmas.ExportLines
import RouterPlan.Proofs.Reachable

/-!
# Exports read back

The export of a reachable configuration in which everything is printable can be read. Main statement: what is read is equal to the
configuration, holds the same at every path, has its version, and has the same export (`exportText_exact`). Only sections that hold
nothing are lost on the way. What carries this is that the commands of an export, loaded where nothing is, are recorded in the
document order in which they were written (`WellFormed.exists_loadAll_export`).
-/

namespace RouterPlan.Configuration

/-- The export of a printable configuration reads back under its order table: to a configuration that is equal to it, with the
same items in the same order and the same settings at every path, in sections without an order too, of the same version, and whose
export is the same text. -/
theorem exportText_exact {c : Configuration} (h : c.Reachable) (hp : c.Printable) :
    ∃ c', read c.order c.exportText = .ok c' ∧ (c' == c) = true ∧
      (∀ path, c'.itemsAt path = c.itemsAt path ∧ c'.settingsAt path = c.settingsAt path) ∧
      c'.version = c.version ∧ c'.exportText = c.exportText := by
  have hwf := h.wellFormed
  obtain ⟨c', hback⟩ := hwf.exists_readsBack hp
  refine ⟨c', hback.read, hback.beq, fun path => ?_, hback.version_eq, hback.exportText_eq⟩
  rw [hback.wellFormed.itemsAt_eq, hwf.itemsAt_eq, hback.wellFormed.settingsAt_eq, hwf.settingsAt_eq]
  exact ⟨hback.alike.items_eq path, hback.alike.settings_eq path⟩

/-- A sample with a version: rules with blanks and quotes in a comment, a section that holds nothing, a named entry and a locator
with a bracket between quotes. -/
def sample : Configuration :=
  let rules := (withRules .builtin filterPath ["say \"a b\"", "last"]).ensure ⟨["ip", "address"]⟩
  let named := (rules.editAt ⟨["interface"]⟩ fun s => s.set (.name "ether1") (.ofList [("comment", "a=b")])).2
  let located := (named.editAt ⟨["interface"]⟩ fun s => s.set (.locator "[find name=\"x]\"]") (.ofList [("mtu", "9")])).2
  { located with version := some "7.12.1" }

theorem reachable_sample : sample.Reachable :=
  .setVersion _ (.set _ _ _ (.set _ _ _ (.ensure _ (reachable_withRules _ _ _))))

/-- The sample is exported section by section, without those that hold nothing, and reads back. -/
theorem exportText_exact_sample :
    sample.Reachable ∧ sample.Printable ∧
      sample.exportLines = ["# by RouterOS 7.12.1", "/ip firewall filter", "add comment=\"say \\\"a b\\\"\"",
        "add comment=last", "/interface", "set ether1 comment=a=b", "set [find name=\"x]\"] mtu=9"] ∧
      ∃ c, read sample.order sample.exportText = .ok c ∧ (c == sample) = true ∧ c.exportText = sample.exportText := by
  have hp : sample.Printable := by decide +kernel
  refine ⟨reachable_sample, hp, by decide +kernel, ?_⟩
  obtain ⟨c, hread, hequal, -, -, hsame⟩ := exportText_exact reachable_sample hp
  exact ⟨c, hread, hequal, hsame⟩

end RouterPlan.Configuration
