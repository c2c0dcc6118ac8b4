import RouterPlan.Pattern.Engine
import RouterPlan.Proofs.Lemmas.ExportLines
import RouterPlan.Proofs.Lemmas.PrintableMerges
import RouterPlan.Proofs.Lemmas.SingleLines

/-!
# Reconciling a router that does what it is told

Main statement: a reconciliation of a simulated router that is left undisturbed succeeds, sends the lines of the script and
nothing else, and leaves a router that has reached the target, on which a second one sends nothing (`reconcile_exact`). The script
was made for what the first export gives, and is carried out by the router line by line; what carries the proof is that the export
is alike to what the router has, so that both make configurations that are alike, whichever empty sections they list.
-/

namespace RouterPlan.SimulatedRouter

variable {router : SimulatedRouter} {base target predicted : Configuration} {script : Script}

/-- The router after one more export. -/
def exportedOnce (router : SimulatedRouter) : SimulatedRouter :=
  { router with exportCount := router.exportCount + 1 }

/-- An undisturbed router exports what it has. -/
theorem run_exportText (router : SimulatedRouter) :
    ((device {}).exportText).run router = (.ok router.configuration.exportText, router.exportedOnce) :=
  rfl

/-- What an export of a router gives under the order table of a target that is that of the router. -/
theorem exported_of_readsBack (hbase : router.configuration.ReadsBack base) (horder : router.configuration.order = target.order) :
    Device.exported target.order (.ok router.configuration.exportText) = .ok base :=
  Device.exported_of_read (horder ▸ hbase.read)

/-- A router with a printable configuration that has reached a target. -/
structure Settled (router : SimulatedRouter) (target : Configuration) : Prop where
  wellFormed : router.configuration.WellFormed
  order_eq : router.configuration.order = target.order
  printable : router.configuration.Printable
  reaches : router.configuration.Reaches target

/-- What a reconciliation of a router with a target did: the script takes the first export to the target, its lines were sent in
order, and were counted, and what was read in the end is what the script makes of the first export and what the router has, and has
reached the target. -/
structure Reconciled (router : SimulatedRouter) (target : Configuration) (outcome : Outcome) (router' : SimulatedRouter) :
    Prop where
  ends : ((device {}).reconcile target).Ends router (.ok outcome) router'
  exported : ∃ base predicted, router.configuration.ReadsBack base ∧ base.diff target = .ok outcome.script ∧
    base.apply outcome.script = .ok predicted ∧ (outcome.result == predicted) = true
  sent : router'.sent = router.sent ++ outcome.script.wireLines
  linesSent : outcome.linesSent = outcome.script.wireLines.length
  beq : (outcome.result == router'.configuration) = true
  reached : outcome.result.checkConvergence target = .ok ()

/-- A router that has reached the target is exported once, and nothing else is asked of it. -/
theorem Settled.exists_reconciled (h : router.Settled target) (ht : target.WellFormed) :
    ∃ outcome, router.Reconciled target outcome router.exportedOnce ∧ outcome.script.isEmpty = true := by
  obtain ⟨base, hbase⟩ := h.wellFormed.exists_readsBack h.printable
  have hreaches : base.Reaches target := hbase.alike.reaches_iff.2 h.reaches
  obtain ⟨script, hdiff, hiff⟩ := Configuration.exists_diff hbase.wellFormed ht
  have hempty := hiff.2 hreaches
  have hnone := Script.wireLines_eq_nil_iff.2 hempty
  have happly : base.apply script = .ok base := by
    rw [Configuration.apply_eq_ok_iff, List.isEmpty_iff.1 hempty]
    rfl
  have hsame : base.Alike base := fun _ => rfl
  refine ⟨{ script, linesSent := 0, result := base }, ?_, hempty⟩
  exact {
    ends := Device.ends_reconcile_of_isEmpty router.run_exportText (exported_of_readsBack hbase h.order_eq) hdiff hempty
    exported := ⟨base, base, hbase, hdiff, happly, hsame.beq hbase.wellFormed hbase.wellFormed⟩
    sent := by rw [hnone, List.append_nil]; rfl
    linesSent := by rw [hnone]; rfl
    beq := hbase.beq
    reached := (Configuration.checkConvergence_eq_ok_iff hbase.wellFormed ht).2 hreaches }

/-- The lines of a script that takes the export to the target are all accepted, and leave the router with a printable configuration
that is like the one that the script makes of the export. -/
theorem exists_accepts (h : router.configuration.WellFormed) (hp : router.configuration.Printable)
    (hi : router.configuration.Indexable) (hbase : router.configuration.ReadsBack base) (ht : target.WellFormed)
    (htp : target.Printable) (hti : target.Indexable) (hdiff : base.diff target = .ok script)
    (hpredicted : base.apply script = .ok predicted) :
    ∃ router', (device {}).Accepts router script.wireLines router' ∧ router'.sent = router.sent ++ script.wireLines ∧
      router'.configuration.WellFormed ∧ router'.configuration.order = router.configuration.order ∧
      router'.configuration.Printable ∧ router'.configuration.Alike predicted := by
  have hbasePrintable := hbase.alike.printable hbase.wellFormed h hbase.version_eq hp
  have hbaseIndexable := hbase.alike.indexable hbase.wellFormed h hi
  have hfits := Configuration.fits_of_diff hbase.wellFormed ht hdiff hbasePrintable htp hbaseIndexable hti
  rw [hbase.order_eq] at hfits
  obtain ⟨hpredictedWf, -, hpredictedVersion⟩ := hbase.wellFormed.of_apply hpredicted
  obtain ⟨c, hc, halike⟩ := hbase.alike.symm.exists_apply hpredicted
  obtain ⟨hwf, horder, hversion⟩ := h.of_apply hc
  have hsame : c.version = predicted.version := by rw [hversion, hpredictedVersion, hbase.version_eq]
  have hprintable := Configuration.printable_of_apply hbase.wellFormed ht hdiff hpredicted hbasePrintable htp
  exact ⟨_, accepts_wireLines hfits hc, rfl, hwf, horder, halike.printable hwf hpredictedWf hsame hprintable, halike⟩

/-- A reconciliation of a router with a target, both of which can be exported, succeeds, and the router has reached the target. -/
theorem exists_reconciled (h : router.configuration.WellFormed) (hp : router.configuration.Printable)
    (hi : router.configuration.Indexable) (ht : target.WellFormed) (htp : target.Printable) (hti : target.Indexable)
    (horder : router.configuration.order = target.order) :
    ∃ outcome router', router.Reconciled target outcome router' ∧ router'.Settled target := by
  obtain ⟨base, hbase⟩ := h.exists_readsBack hp
  obtain ⟨script, hdiff, hiff⟩ := Configuration.exists_diff hbase.wellFormed ht
  cases hempty : script.isEmpty with
  | true =>
    have hsettled : router.Settled target := ⟨h, horder, hp, hbase.alike.reaches_iff.1 (hiff.1 hempty)⟩
    obtain ⟨outcome, hreconciled, -⟩ := hsettled.exists_reconciled ht
    exact ⟨outcome, router.exportedOnce, hreconciled, h, horder, hp, hsettled.reaches⟩
  | false =>
    obtain ⟨script', predicted, hdiff', hpredicted, hpredictedWf, -, hreaches⟩ :=
      Configuration.exists_apply_reaches hbase.wellFormed ht
    cases hdiff.symm.trans hdiff'
    obtain ⟨sent, haccepts, hlines, hwf, hsentOrder, hprintable, halike⟩ :=
      @exists_accepts router.exportedOnce base target predicted script h hp hi hbase ht htp hti hdiff hpredicted
    obtain ⟨final, hfinal⟩ := hwf.exists_readsBack hprintable
    have hfinalAlike := hfinal.alike.trans halike
    have hsentReaches : sent.configuration.Reaches target := halike.reaches_iff.2 hreaches
    have hcheck : predicted.checkConvergence target = .ok () :=
      (Configuration.checkConvergence_eq_ok_iff hpredictedWf ht).2 hreaches
    have hfinalCheck : final.checkConvergence predicted = .ok () :=
      (Configuration.checkConvergence_eq_ok_iff hfinal.wellFormed hpredictedWf).2 (hfinalAlike.reaches hpredictedWf)
    have hcarried : ((device {}).carryOut target.order script predicted).Ends router.exportedOnce _ sent.exportedOnce :=
      Device.ends_carryOut haccepts sent.run_exportText (exported_of_readsBack hfinal (hsentOrder.trans horder))
    rw [hfinalCheck] at hcarried
    refine ⟨{ script, linesSent := script.wireLines.length, result := final }, sent.exportedOnce, ?_,
      hwf, hsentOrder.trans horder, hprintable, hsentReaches⟩
    exact {
      ends := Device.ends_reconcile router.run_exportText (exported_of_readsBack hbase horder) hdiff hempty hpredicted hcheck
        hcarried
      exported := ⟨base, predicted, hbase, hdiff, hpredicted, hfinalAlike.beq hfinal.wellFormed hpredictedWf⟩
      sent := hlines
      linesSent := rfl
      beq := hfinal.beq
      reached := (Configuration.checkConvergence_eq_ok_iff hfinal.wellFormed ht).2 (hfinalAlike.reaches_iff.2 hreaches) }

/-- A reconciliation of an undisturbed router with a target under the same order table, both of them printable and with no more
items than there are indices, goes through: the script is what takes the first export to the target, its lines are sent once each
and in order, and they are counted. What is read in the end is equal to what the script makes of the first export and to the
configuration that the router then has, and has reached the target, as that has. A second reconciliation goes through too; its
script is empty, it sends nothing, and the router has what it had. -/
theorem reconcile_exact {router : SimulatedRouter} {target : Configuration} (hr : router.configuration.Reachable)
    (ht : target.Reachable) (horder : router.configuration.order = target.order) (hp : router.configuration.Printable)
    (htp : target.Printable) (hi : router.configuration.Indexable) (hti : target.Indexable) :
    ∃ base predicted outcome journal router' again journal' router'',
      Configuration.read target.order router.configuration.exportText = .ok base ∧ base.diff target = .ok outcome.script ∧
      base.apply outcome.script = .ok predicted ∧
      (Run.outcome ((device {}).reconcile target)).run router = ((.ok outcome, journal), router') ∧
      router'.sent = router.sent ++ outcome.script.wireLines ∧ outcome.linesSent = outcome.script.wireLines.length ∧
      (outcome.result == predicted) = true ∧ (outcome.result == router'.configuration) = true ∧
      outcome.result.checkConvergence target = .ok () ∧ router'.configuration.checkConvergence target = .ok () ∧
      (Run.outcome ((device {}).reconcile target)).run router' = ((.ok again, journal'), router'') ∧
      again.script.isEmpty = true ∧ again.linesSent = 0 ∧ router''.sent = router'.sent ∧
      router''.configuration = router'.configuration := by
  obtain ⟨outcome, router', hfirst, hsettled⟩ :=
    exists_reconciled hr.wellFormed hp hi ht.wellFormed htp hti horder
  obtain ⟨again, hsecond, hempty⟩ := hsettled.exists_reconciled ht.wellFormed
  obtain ⟨base, predicted, hbase, hdiff, happly, hpredicted⟩ := hfirst.exported
  obtain ⟨journal, hrun⟩ := hfirst.ends.outcome
  obtain ⟨journal', hagain⟩ := hsecond.ends.outcome
  have hreached := (Configuration.checkConvergence_eq_ok_iff hsettled.wellFormed ht.wellFormed).2 hsettled.reaches
  have hnone : again.linesSent = 0 := by
    rw [hsecond.linesSent, Script.wireLines_eq_nil_iff.2 hempty]
    rfl
  exact ⟨base, predicted, outcome, journal, router', again, journal', router'.exportedOnce, horder ▸ hbase.read, hdiff, happly,
    hrun, hfirst.sent, hfirst.linesSent, hpredicted, hfirst.beq, hfirst.reached, hreached, hagain, hempty, hnone, rfl, rfl⟩

/-- A router with two rules. -/
def sample : SimulatedRouter :=
  { configuration := Configuration.withRules .builtin Configuration.filterPath ["a", "b"] }

/-- A target that lacks the first rule, and has another one before the second. -/
def sampleTarget : Configuration :=
  Configuration.withRules .builtin Configuration.filterPath ["c", "b"]

/-- A reconciliation of the sample. -/
def sampleRun : (Except Failure Outcome × Journal) × SimulatedRouter :=
  (Run.outcome ((device {}).reconcile sampleTarget)).run sample

/-- The sample is sent four lines, which are counted, and none by a second reconciliation. -/
theorem reconcile_exact_sample :
    ∃ outcome journal router' again journal' router'', sampleRun = ((.ok outcome, journal), router') ∧
      router'.sent = ["/ip firewall filter remove 0", "/ip firewall filter add comment=c", "/ip firewall filter print",
        "/ip firewall filter move 1 0"] ∧
      outcome.linesSent = 4 ∧ router'.configuration.checkConvergence sampleTarget = .ok () ∧
      (Run.outcome ((device {}).reconcile sampleTarget)).run router' = ((.ok again, journal'), router'') ∧
      router''.sent = router'.sent := by
  have hsent : sampleRun.2.sent = ["/ip firewall filter remove 0", "/ip firewall filter add comment=c",
      "/ip firewall filter print", "/ip firewall filter move 1 0"] := by
    decide +kernel
  obtain ⟨base, predicted, outcome, journal, router', again, journal', router'', -, -, -, hrun, hlines, hcount, -, -, -, hreached,
      hagain, -, -, hsame, -⟩ :=
    @reconcile_exact sample sampleTarget (Configuration.reachable_withRules _ _ _) (Configuration.reachable_withRules _ _ _) rfl
      (by decide +kernel) (by decide +kernel) (by decide +kernel) (by decide +kernel)
  rw [sampleRun, hrun] at hsent
  have hwire : [] ++ outcome.script.wireLines = _ := hlines.symm.trans hsent
  refine ⟨outcome, journal, router', again, journal', router'', hrun, hsent, ?_, hreached, hagain, hsame⟩
  rw [hcount, ← List.nil_append outcome.script.wireLines, hwire]
  rfl

end RouterPlan.SimulatedRouter
