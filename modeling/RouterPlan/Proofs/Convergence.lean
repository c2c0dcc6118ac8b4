import RouterPlan.Pattern.Engine
import RouterPlan.Proofs.Lemmas.Contents
import RouterPlan.Proofs.Reachable

/-!
# When configurations have converged

`Configuration.Converged` says, from what is found at the paths alone, what a check for convergence is after. Main statements: a
comparison finds nothing, and the check passes, exactly then, and otherwise the residual leads there (`convergence_exact`); two
configurations with the same order table are equal exactly when a comparison finds nothing either way (`beq_iff_diff_isEmpty`). What
carries this is that a merge has a command to emit exactly where its target has not been reached (`Passes.commands_eq_nil_iff`).
-/

namespace RouterPlan.Configuration

/-- At the path of every section of `expected`, `actual` has the items of that section, in the same order where the order table of
`actual` gives the path an order, and every value of each of its settings. A section that is missing in `actual` has nothing. -/
def Converged (actual expected : Configuration) : Prop :=
  ∀ t ∈ expected.sections,
    (if (actual.order.modeFor t.path).isOrdered then actual.itemsAt t.path = t.items
      else actual.itemsAt t.path ⊆ t.items ∧ t.items ⊆ actual.itemsAt t.path) ∧
    ∀ setting ∈ t.settings.entries, ∀ pair ∈ setting.2.entries,
      ((actual.settingsAt t.path).get? setting.1).bind (·.get? pair.1) = some pair.2

instance (actual expected : Configuration) : Decidable (actual.Converged expected) :=
  inferInstanceAs (Decidable (∀ t ∈ expected.sections, _ ∧ _))

variable {actual expected : Configuration}

/-- Every section of the expected configuration has been reached exactly when the configurations have converged. -/
theorem WellFormed.reaches_iff_converged (ha : actual.WellFormed) : actual.Reaches expected ↔ actual.Converged expected := by
  refine forall₂_congr fun t _ => ?_
  have hmode : (actual.sectionAt t.path).mode = actual.order.modeFor t.path := by
    rw [(ha.sectionAt t.path).mode, ha.path_sectionAt]
  rw [ha.itemsAt_eq, ha.settingsAt_eq, ← hmode]
  constructor
  · intro h
    refine ⟨?_, fun setting hsetting pair hpair => h.value?_eq _ _ _ ?_⟩
    · split
      · rename_i hordered
        exact h.items_eq hordered
      · exact ⟨fun item => (h.mem_iff item).1, fun item => (h.mem_iff item).2⟩
    · rw [Section.value?, Assoc.mem_entries_iff.1 hsetting]
      exact Assoc.mem_entries_iff.1 hpair
  · rintro ⟨hitems, hsettings⟩
    refine ⟨fun hordered => by rwa [if_pos hordered] at hitems, fun item => ?_, fun id key value hvalue => ?_⟩
    · split at hitems
      · rw [hitems]
      · exact ⟨fun h => hitems.1 h, fun h => hitems.2 h⟩
    · obtain ⟨values, hvalues, hkey⟩ := Option.bind_eq_some_iff.1 hvalue
      exact hsettings (id, values) (Assoc.mem_entries_iff.2 hvalues) (key, value) (Assoc.mem_entries_iff.2 hkey)

/-- A comparison of reachable configurations goes through. Its script is empty, and the check for convergence passes, exactly when
the configurations have converged. If they have not, the check fails with the script, which can be carried out and leads to a
configuration that passes the check. -/
theorem convergence_exact (ha : actual.Reachable) (he : expected.Reachable) :
    ∃ residual, actual.diff expected = .ok residual ∧
      (residual.isEmpty = true ↔ actual.Converged expected) ∧
      (actual.checkConvergence expected = .ok () ↔ actual.Converged expected) ∧
      (¬actual.Converged expected → actual.checkConvergence expected = .error (.convergence residual) ∧
        ∃ result, actual.apply residual = .ok result ∧ result.checkConvergence expected = .ok ()) := by
  have hawf := ha.wellFormed
  have hewf := he.wellFormed
  obtain ⟨residual, result, hdiff, happly, hwf, -, hreached⟩ := exists_apply_reaches hawf hewf
  obtain ⟨residual', hdiff', hempty⟩ := exists_diff hawf hewf
  cases hdiff.symm.trans hdiff'
  rw [hawf.reaches_iff_converged] at hempty
  refine ⟨residual, hdiff, hempty, ?_, fun hnot => ⟨?_, result, happly, (checkConvergence_eq_ok_iff hwf hewf).2 hreached⟩⟩
  · rw [checkConvergence_eq_ok_iff hawf hewf, hawf.reaches_iff_converged]
  · have hsome : residual.isEmpty = false := by simpa [← hempty] using hnot
    rw [checkConvergence, hdiff]
    simp only [hsome, Bool.false_eq_true, if_false]

/-- Rules in another order have converged where order means nothing, and not where it counts; there the residual puts them right. -/
theorem convergence_exact_reordered :
    (withRules ⟨[]⟩ filterPath ["a", "b"]).Reachable ∧ (withRules .builtin filterPath ["a", "b"]).Reachable ∧
      (withRules .builtin filterPath ["b", "a"]).Reachable ∧
      (withRules ⟨[]⟩ filterPath ["a", "b"]).checkConvergence (withRules .builtin filterPath ["b", "a"]) = .ok () ∧
      ∃ residual result,
        (withRules .builtin filterPath ["a", "b"]).checkConvergence (withRules .builtin filterPath ["b", "a"]) =
          .error (.convergence residual) ∧
        (withRules .builtin filterPath ["a", "b"]).apply residual = .ok result ∧
        result.checkConvergence (withRules .builtin filterPath ["b", "a"]) = .ok () := by
  have hloose := reachable_withRules ⟨[]⟩ filterPath ["a", "b"]
  have hactual := reachable_withRules .builtin filterPath ["a", "b"]
  have hexpected := reachable_withRules .builtin filterPath ["b", "a"]
  obtain ⟨-, -, -, hpass, -⟩ := convergence_exact hloose hexpected
  obtain ⟨residual, -, -, -, hfail⟩ := convergence_exact hactual hexpected
  obtain ⟨hcheck, result, happly, hresult⟩ := hfail (by decide +kernel)
  exact ⟨hloose, hactual, hexpected, hpass.2 (by decide +kernel), residual, result, hcheck, happly, hresult⟩

/-- Reachable configurations with the same order table are equal exactly when neither has anything that would take it to the other:
empty sections do not count, nor does the order of items where it means nothing, but a setting that only one of them has does. -/
theorem beq_iff_diff_isEmpty {a b : Configuration} (ha : a.Reachable) (hb : b.Reachable) (horder : a.order = b.order) :
    (a == b) = true ↔ ∃ there back, a.diff b = .ok there ∧ b.diff a = .ok back ∧ there.isEmpty = true ∧ back.isEmpty = true := by
  obtain ⟨there, hthere, hthereEmpty⟩ := exists_diff ha.wellFormed hb.wellFormed
  obtain ⟨back, hback, hbackEmpty⟩ := exists_diff hb.wellFormed ha.wellFormed
  rw [ha.wellFormed.beq_iff_reaches hb.wellFormed horder, ← hthereEmpty, ← hbackEmpty]
  constructor
  · rintro ⟨hnone, hnone'⟩
    exact ⟨there, back, hthere, hback, hnone, hnone'⟩
  · rintro ⟨there', back', hthere', hback', hnone, hnone'⟩
    cases hthere.symm.trans hthere'
    cases hback.symm.trans hback'
    exact ⟨hnone, hnone'⟩

/-- The path of the addresses, whose order means nothing without a profile. -/
def addressPath : Path :=
  ⟨["ip", "address"]⟩

/-- A sample with addresses in one order, and an empty section. -/
def sampleAddresses : Configuration :=
  (withRules .builtin addressPath ["a", "b"]).ensure filterPath

/-- The sample with a setting, and with its addresses in the order in which they are given. -/
def sampleSettings (comments : List String) (values : Values) : Configuration :=
  ((withRules .builtin addressPath comments).editAt addressPath fun s => s.set .itself values).2

/-- An empty section and the order of addresses make no difference. A setting makes one, although the other way nothing is missing. -/
theorem beq_iff_diff_isEmpty_addresses :
    sampleAddresses.Reachable ∧ (sampleSettings ["b", "a"] ∅).Reachable ∧ (sampleSettings ["a", "b"] (rule "c")).Reachable ∧
      (sampleAddresses == sampleSettings ["b", "a"] ∅) = true ∧
      ((sampleSettings ["a", "b"] (rule "c")).diff sampleAddresses).map (·.isEmpty) = .ok true ∧
      ¬(sampleAddresses == sampleSettings ["a", "b"] (rule "c")) = true := by
  have hfirst : sampleAddresses.Reachable := .ensure _ (reachable_withRules _ _ _)
  have hsecond : ∀ comments values, (sampleSettings comments values).Reachable :=
    fun comments values => .set _ _ _ (reachable_withRules _ _ _)
  have horder : ∀ comments values, sampleAddresses.order = (sampleSettings comments values).order := fun comments values =>
    (order_withRules .builtin addressPath ["a", "b"]).trans (order_withRules .builtin addressPath comments).symm
  have hnothing : ∀ a b : Configuration, (a.diff b).map (·.isEmpty) = .ok true →
      ∃ script, a.diff b = .ok script ∧ script.isEmpty = true := by
    intro a b h
    cases hdiff : a.diff b with
    | error cause =>
      rw [hdiff] at h
      cases h
    | ok script =>
      rw [hdiff] at h
      exact ⟨script, rfl, Except.ok.inj h⟩
  refine ⟨hfirst, hsecond _ _, hsecond _ _, ?_, by decide +kernel, fun hequal => ?_⟩
  · obtain ⟨there, hthere, hnone⟩ := hnothing sampleAddresses (sampleSettings ["b", "a"] ∅) (by decide +kernel)
    obtain ⟨back, hback, hnone'⟩ := hnothing (sampleSettings ["b", "a"] ∅) sampleAddresses (by decide +kernel)
    exact (beq_iff_diff_isEmpty hfirst (hsecond _ _) (horder _ _)).2 ⟨there, back, hthere, hback, hnone, hnone'⟩
  · obtain ⟨there, back, hdiff, -, hnone, -⟩ := (beq_iff_diff_isEmpty hfirst (hsecond _ _) (horder _ _)).1 hequal
    have hmore : (sampleAddresses.diff (sampleSettings ["a", "b"] (rule "c"))).map (·.isEmpty) = .ok false := by
      decide +kernel
    rw [hdiff] at hmore
    cases hnone.symm.trans (Except.ok.inj hmore)

end RouterPlan.Configuration
