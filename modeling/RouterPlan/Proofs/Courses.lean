import RouterPlan.Pattern.Engine
import RouterPlan.Proofs.Lemmas.Courses

/-!
# What a reconciliation can do to any device

Statements for every device, whatever it answers. Main statements: a reconciliation takes one of the courses of `Device.Course`, so
that the lines are sent in order up to the first that is refused, and the only failures are those of the device, of its exports and
of the last check (`reconcile_course`); and when it succeeds, the device has reached the target but for sections that the target
lists without items and that the device did not have before (`reconcile_reached_iff`).
-/

namespace RouterPlan.Device

/-- A check that fails does so because of a script that is left. -/
theorem convergence_of_check {c predicted : Configuration} (hc : c.WellFormed) (hp : predicted.WellFormed) {outcome : Outcome}
    {failure : Failure} (h : ((c.checkConvergence predicted).map fun () => outcome) = .error failure) :
    c.checkConvergence predicted = .error failure ∧ ∃ residual, failure = .convergence residual := by
  cases hcheck : c.checkConvergence predicted with
  | ok =>
    rw [hcheck] at h
    cases h
  | error cause =>
    rw [hcheck] at h
    cases h
    obtain ⟨residual, -, -, hresidual⟩ := Configuration.exists_residual hc hp hcheck
    exact ⟨rfl, residual, hresidual⟩

/-- Whatever a device answers to what it was asked so far, a reconciliation with a reachable target takes one of the courses.
Without a first export that can be read nothing is sent. Where the script has no lines, nothing is sent and all is well. Otherwise
its lines are sent in order up to the first that is refused, which the failure names; after the last one the device is exported
once more, and that is checked against what the script makes of the first export. No edit is ever refused on the way, and a check
fails only after all lines were sent and the second export was read. -/
theorem reconcile_course (answers : List Request → Except String String) {target : Configuration} (ht : target.Reachable) :
    ∃ result journal requests,
      (Run.outcome ((answering answers).reconcile target)).run [] = ((result, journal), requests) ∧
      Course answers target requests result ∧ (∀ cause, result ≠ .error (.integrity cause)) ∧
      ∀ residual, result = .error (.convergence residual) →
        ∃ base script predicted final, Gives answers (asked []) target.order base ∧ base.diff target = .ok script ∧
          base.apply script = .ok predicted ∧ requests = asked script.wireLines ++ [.exportText] ∧
          Gives answers requests target.order final ∧ final.checkConvergence predicted = .error (.convergence residual) := by
  obtain ⟨result, requests, hends, hcourse⟩ := exists_course answers ht.wellFormed
  obtain ⟨journal, hrun⟩ := hends.outcome
  refine ⟨result, journal, requests, hrun, hcourse, ?_⟩
  cases hcourse with
  | unavailable => exact ⟨nofun, nofun⟩
  | unreadable => exact ⟨nofun, nofun⟩
  | settled => exact ⟨nofun, nofun⟩
  | refused => exact ⟨nofun, nofun⟩
  | lost => exact ⟨nofun, nofun⟩
  | garbled => exact ⟨nofun, nofun⟩
  | @checked base predicted final script hbase hdiff hsome hobeys happly hfinal =>
    obtain ⟨hpredicted, -, -⟩ := Configuration.reaches_of_apply hbase.wellFormed.1 ht.wellFormed hdiff happly
    refine ⟨fun cause heq => ?_, fun residual heq => ?_⟩
    · obtain ⟨-, residual, hresidual⟩ := convergence_of_check hfinal.wellFormed.1 hpredicted heq
      cases hresidual
    · obtain ⟨hcheck, -⟩ := convergence_of_check hfinal.wellFormed.1 hpredicted heq
      exact ⟨base, script, predicted, final, hbase, hdiff, happly, rfl, hfinal, hcheck⟩

/-- The lines that a failed check says are left to send. -/
def residualLines? : Except Failure Outcome → Option (List String)
  | .error (.convergence residual) => some residual.wireLines
  | _ => none

/-- A device that gives an empty export and accepts every line, but does nothing. -/
def idle : List Request → Except String String :=
  fun _ => .ok ""

/-- A reconciliation of the idle device with one rule. -/
def idleRun : (Except Failure Outcome × Journal) × List Request :=
  (Run.outcome ((answering idle).reconcile (Configuration.withRules .builtin Configuration.filterPath ["a"]))).run []

/-- The idle device is sent the line, and the check after it says that the line is still to be carried out. -/
theorem reconcile_course_idle :
    (Configuration.withRules .builtin Configuration.filterPath ["a"]).Reachable ∧
      ∃ residual, Course idle (Configuration.withRules .builtin Configuration.filterPath ["a"])
        [.exportText, .send "/ip firewall filter add comment=a", .exportText] (.error (.convergence residual)) ∧
        residual.wireLines = ["/ip firewall filter add comment=a"] := by
  have ht := Configuration.reachable_withRules .builtin Configuration.filterPath ["a"]
  obtain ⟨result, journal, requests, hrun, hcourse, -, -⟩ := reconcile_course idle ht
  have hrequests : idleRun.2 = [.exportText, .send "/ip firewall filter add comment=a", .exportText] := by decide +kernel
  have hleft : residualLines? idleRun.1.1 = some ["/ip firewall filter add comment=a"] := by decide +kernel
  rw [idleRun, hrun] at hrequests hleft
  refine ⟨ht, ?_⟩
  cases result with
  | ok outcome => cases hleft
  | error failure =>
    cases failure with
    | convergence residual => exact ⟨residual, hrequests ▸ hcourse, Option.some.inj hleft⟩
    | parse cause => cases hleft
    | integrity cause => cases hleft
    | device line message => cases hleft

/-! ## Where success is short of the target -/

/-- A check that passes leads to the outcome. -/
theorem outcome_of_check {c predicted : Configuration} {outcome other : Outcome}
    (h : ((c.checkConvergence predicted).map fun () => outcome) = .ok other) :
    c.checkConvergence predicted = .ok () ∧ outcome = other := by
  cases hcheck : c.checkConvergence predicted with
  | ok =>
    rw [hcheck] at h
    exact ⟨rfl, Except.ok.inj h⟩
  | error cause =>
    rw [hcheck] at h
    cases h

/-- When a reconciliation with a reachable target succeeds, the configuration that was read in the end has reached the target exactly
when it has no items in those sections that the target lists without items and that the first export did not have. The script need
not have a command for such a section; then what it makes of the first export does not have the section either, and the last check
does not look there. -/
theorem reconcile_reached_iff (answers : List Request → Except String String) {target : Configuration} (ht : target.Reachable)
    {outcome : Outcome} {journal : Journal} {requests : List Request}
    (h : (Run.outcome ((answering answers).reconcile target)).run [] = ((.ok outcome, journal), requests)) :
    ∃ base, Gives answers (asked []) target.order base ∧
      (outcome.result.checkConvergence target = .ok () ↔
        ∀ t ∈ target.sections, t.items = [] → base.section? t.path = none → outcome.result.itemsAt t.path = []) := by
  have htarget := ht.wellFormed
  obtain ⟨result, requests', hends, hcourse⟩ := exists_course answers htarget
  obtain ⟨journal', hrun⟩ := hends.outcome
  have hresult : result = .ok outcome := congrArg (·.1.1) (hrun.symm.trans h)
  cases hcourse with
  | unavailable => cases hresult
  | unreadable => cases hresult
  | refused => cases hresult
  | lost => cases hresult
  | garbled => cases hresult
  | @settled base script hbase hdiff hnone =>
    cases hresult
    refine ⟨base, hbase, iff_of_true ?_ fun t _ _ hmissing => by rw [Configuration.itemsAt, hmissing]; rfl⟩
    obtain ⟨script', hdiff', hiff⟩ := Configuration.exists_diff hbase.wellFormed.1 htarget
    cases hdiff.symm.trans hdiff'
    rw [Configuration.checkConvergence_eq_ok_iff hbase.wellFormed.1 htarget, ← hiff]
    exact Script.wireLines_eq_nil_iff.1 hnone
  | @checked base predicted final script hbase hdiff hsome hobeys happly hfinal =>
    obtain ⟨hcheck, rfl⟩ := outcome_of_check hresult
    obtain ⟨hpredicted, horder, hreaches⟩ := Configuration.reaches_of_apply hbase.wellFormed.1 htarget hdiff happly
    have hsame : final.order = predicted.order := by rw [hfinal.wellFormed.2, horder, hbase.wellFormed.2]
    have hfirst := (Configuration.checkConvergence_eq_ok_iff hfinal.wellFormed.1 hpredicted).1 hcheck
    have hiff := Configuration.Reaches.trans_iff hfinal.wellFormed.1 hpredicted hsame hfirst hreaches
    refine ⟨base, hbase, (Configuration.checkConvergence_eq_ok_iff hfinal.wellFormed.1 htarget).trans ⟨fun hreached t hmem hnil _ => ?_,
      fun hitems => hiff.2 fun t hmem hmissing => ?_⟩⟩
    · rw [hfinal.wellFormed.1.itemsAt_eq]
      exact (hreached t hmem).items_eq_nil_iff.2 hnil
    · have hempty := hreaches t hmem
      rw [hpredicted.sectionAt_of_section?_eq_none hmissing] at hempty
      refine hitems t hmem (hempty.items_eq_nil_iff.1 rfl) (Option.not_isSome_iff_eq_none.1 fun hsome => ?_)
      -- a section of the first export would be there still
      have hkept := Configuration.isSome_section?_loadAll script.edits hsome
      rw [Configuration.apply_eq_ok_iff.1 happly, hmissing] at hkept
      cases hkept

/-- The path of a section that the target lists without items. -/
def addressPath : Path :=
  ⟨["ip", "address"]⟩

/-- A target with a rule, and without addresses. -/
def ruleOnly : Configuration :=
  (Configuration.withRules .builtin Configuration.filterPath ["a"]).ensure addressPath

theorem reachable_ruleOnly : ruleOnly.Reachable :=
  .ensure _ (Configuration.reachable_withRules _ _ _)

/-- A device that has nothing at first, accepts every line, and has the rule and an address in the end. -/
def straying : List Request → Except String String :=
  fun requests =>
    if requests.length = 3 then .ok "/ip address\nadd address=10.0.0.1/24\n/ip firewall filter\nadd comment=a\n" else .ok ""

/-- A reconciliation of the straying device. -/
def strayingRun : (Except Failure Outcome × Journal) × List Request :=
  (Run.outcome ((answering straying).reconcile ruleOnly)).run []

/-- The items that the device has at a path when a reconciliation succeeds. -/
def itemsAfter? (path : Path) : Except Failure Outcome → Option (List Item)
  | .ok outcome => some (outcome.result.itemsAt path)
  | .error _ => none

/-- The straying device is taken to have reached the target, although the target lists no addresses. -/
theorem reconcile_reached_straying :
    ∃ outcome journal requests, strayingRun = ((.ok outcome, journal), requests) ∧
      outcome.result.checkConvergence ruleOnly ≠ .ok () := by
  have hitems : itemsAfter? addressPath strayingRun.1.1 = some [.ofList [("address", "10.0.0.1/24")]] := by decide +kernel
  have hlisted : ∃ t ∈ ruleOnly.sections, t.path = addressPath ∧ t.items = [] := by decide +kernel
  have hread : (Configuration.read .builtin "").map (·.sections.map (·.path)) = .ok [.root] := by decide +kernel
  rcases hrun : strayingRun with ⟨⟨result, journal⟩, requests⟩
  rw [hrun] at hitems
  cases result with
  | error failure => cases hitems
  | ok outcome =>
    refine ⟨outcome, journal, requests, rfl, fun hcheck => ?_⟩
    obtain ⟨base, hbase, hiff⟩ := reconcile_reached_iff straying reachable_ruleOnly hrun
    obtain ⟨t, hmem, hpath, hnil⟩ := hlisted
    have hmissing : base.section? t.path = none := by
      refine Option.eq_none_iff_forall_not_mem.2 fun s hs => ?_
      obtain ⟨hbaseWellFormed, -⟩ := hbase.wellFormed
      obtain ⟨text, hanswer, hbaseRead⟩ := hbase
      obtain rfl : "" = text := Except.ok.inj hanswer
      rw [show Configuration.read .builtin "" = .ok base from hbaseRead] at hread
      obtain ⟨hsection, hat⟩ := hbaseWellFormed.section?_eq_some_iff.1 hs
      have hroot : s.path ∈ [Path.root] := Except.ok.inj hread ▸ List.mem_map_of_mem hsection
      rw [hat, hpath] at hroot
      revert hroot
      decide
    have hnone := hiff.1 hcheck t hmem hnil hmissing
    rw [hpath] at hnone
    rw [itemsAfter?, hnone] at hitems
    cases hitems

end RouterPlan.Device
