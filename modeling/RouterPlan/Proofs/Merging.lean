import RouterPlan.Pattern.Engine
import RouterPlan.Proofs.Reachable

/-!
# What a merge results in

A merge of reachable configurations always goes through, and its result is determined (`merge_exact`). Where the target has a
section, the items are those of the target, in its order where the base says that order counts, and the settings are those of
the base with those of the target put over them; at every other path all is as it was.
-/

namespace RouterPlan

/-- Values with further ones put over them; values that are missing count as none. -/
def overlay (below above : Option Values) : Option Values :=
  Option.merge (fun below above => below.insertMany above.entries) below above

namespace Section

variable {order order' : OrderTable} {s s' target : Section} {commands : List Command}

/-- The items after a merge: those of the target, in its order or with what was there first. -/
theorem items_of_mergeWith (hs : s.WellFormed order) (ht : target.WellFormed order')
    (h : s.mergeWith target = .ok (commands, s')) :
    s'.items = if (order.modeFor s.path).isOrdered then target.items
      else (s.items.filter fun item => item ∈ target.items) ++ target.items.filter fun item => item ∉ s.items := by
  obtain ⟨p⟩ := nonempty_passes hs.nodup ht.nodup
  cases p.mergeWith_eq.symm.trans h
  rw [← hs.mode]
  cases hmode : s.mode.isOrdered with
  | true =>
    rw [if_pos rfl]
    exact p.items_of_ordered hmode
  | false =>
    rw [if_neg Bool.false_ne_true]
    exact p.items_of_unordered ht.nodup hmode

/-- The settings after a merge: those of before with those of the target over them. -/
theorem settings_of_mergeWith (hs : s.WellFormed order) (ht : target.WellFormed order')
    (h : s.mergeWith target = .ok (commands, s')) (id : Identifier) :
    s'.settings.get? id = overlay (s.settings.get? id) (target.settings.get? id) := by
  obtain ⟨p⟩ := nonempty_passes hs.nodup ht.nodup
  cases p.mergeWith_eq.symm.trans h
  have hsome := p.isSome_after ht.settled id
  have hvalue := p.value?_after id
  simp only [value?] at hvalue
  cases habove : target.settings.get? id with
  | none =>
    rw [habove] at hsome hvalue
    cases hbelow : s.settings.get? id with
    | none =>
      rw [hbelow] at hsome
      exact Option.not_isSome_iff_eq_none.1 (by simp [hsome])
    | some below =>
      rw [hbelow] at hsome hvalue
      obtain ⟨values, hvalues⟩ := Option.isSome_iff_exists.1 hsome
      rw [hvalues] at hvalue ⊢
      exact congrArg some (Assoc.ext_get? hvalue)
  | some above =>
    rw [habove] at hsome hvalue
    obtain ⟨values, hvalues⟩ := Option.isSome_iff_exists.1 hsome
    rw [hvalues] at hvalue ⊢
    cases hbelow : s.settings.get? id with
    | none =>
      rw [hbelow] at hvalue
      refine congrArg some (Assoc.ext_get? fun key => (hvalue key).trans ?_)
      simp
    | some below =>
      rw [hbelow] at hvalue
      refine congrArg some (Assoc.ext_get? fun key => (hvalue key).trans ?_)
      rw [Assoc.get?_insertMany]
      rfl

end Section

namespace Configuration

/-- A merge of reachable configurations goes through, whatever their order tables say. At the path of every section of the
target, the items are those of the target, in its order where the base's table gives the path an order; elsewhere those of the
base that the target holds too come first, in the order of the base, and then those that are new. The settings there are those
of the base with those of the target over them, key by key. At every other path nothing changes. -/
theorem merge_exact {base target : Configuration} (hb : base.Reachable) (ht : target.Reachable) :
    ∃ script merged, base.merge target = .ok (script, merged) ∧ base.diff target = .ok script ∧
      (∀ t ∈ target.sections, ∃ s, merged.section? t.path = some s ∧
        s.items = (if (base.order.modeFor t.path).isOrdered then t.items
          else ((base.itemsAt t.path).filter fun item => item ∈ t.items) ++
            t.items.filter fun item => item ∉ base.itemsAt t.path) ∧
        ∀ id, s.settings.get? id = overlay ((base.settingsAt t.path).get? id) (t.settings.get? id)) ∧
      ∀ path, path ∉ target.sections.map (·.path) → merged.section? path = base.section? path := by
  have hbase := hb.wellFormed
  have htarget := ht.wellFormed
  obtain ⟨script, merged, hmerge, -, -, -, hspec⟩ := exists_merge hbase htarget
  refine ⟨script, merged, hmerge, by rw [diff, hmerge]; rfl, fun t hmem => ?_, fun path hnot => ?_⟩
  · have hat := hspec t.path
    rw [htarget.section?_eq_some_iff.2 ⟨hmem, rfl⟩] at hat
    obtain ⟨commands, s, hs, hafter, -⟩ := hat
    have hcurrent := hbase.sectionAt t.path
    have hwanted := htarget.sections t hmem
    refine ⟨s, hafter, ?_, fun id => ?_⟩
    · rw [hbase.itemsAt_eq, Section.items_of_mergeWith hcurrent hwanted hs, hbase.path_sectionAt]
    · rw [hbase.settingsAt_eq]
      exact Section.settings_of_mergeWith hcurrent hwanted hs id
  · have hat := hspec path
    have hnone : target.section? path = none := by
      cases hs : target.section? path with
      | none => rfl
      | some s =>
        obtain ⟨hmem, hpath⟩ := htarget.section?_eq_some_iff.1 hs
        exact absurd (List.mem_map.2 ⟨s, hmem, hpath⟩) hnot
    rw [hnone] at hat
    exact hat.1

/-- A rule goes, one comes, and the rest changes places, although the target itself was read without an order. -/
theorem merge_exact_filter :
    (withRules .builtin filterPath ["a", "b", "c"]).Reachable ∧ (withRules ⟨[]⟩ filterPath ["c", "x", "a"]).Reachable ∧
      ∃ script merged, (withRules .builtin filterPath ["a", "b", "c"]).merge (withRules ⟨[]⟩ filterPath ["c", "x", "a"]) =
        .ok (script, merged) ∧ merged.itemsAt filterPath = [rule "c", rule "x", rule "a"] := by
  have hb := reachable_withRules .builtin filterPath ["a", "b", "c"]
  have ht := reachable_withRules ⟨[]⟩ filterPath ["c", "x", "a"]
  refine ⟨hb, ht, ?_⟩
  obtain ⟨script, merged, hmerge, -, hsections, -⟩ := merge_exact hb ht
  have hfilter : ∃ t ∈ (withRules ⟨[]⟩ filterPath ["c", "x", "a"]).sections,
      t.path = filterPath ∧ t.items = [rule "c", rule "x", rule "a"] := by
    decide +kernel
  obtain ⟨t, hmem, hpath, hitems⟩ := hfilter
  obtain ⟨s, hs, hafter, -⟩ := hsections t hmem
  have hordered : ((withRules .builtin filterPath ["a", "b", "c"]).order.modeFor filterPath).isOrdered = true := by
    decide +kernel
  rw [hpath, hordered, if_pos rfl, hitems] at hafter
  refine ⟨script, merged, hmerge, ?_⟩
  rw [itemsAt, ← hpath, hs]
  exact hafter

end Configuration

end RouterPlan
