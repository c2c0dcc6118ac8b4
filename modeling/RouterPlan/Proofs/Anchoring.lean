import RouterPlan.Order
import RouterPlan.Proofs.Lemmas.Lists
import RouterPlan.Proofs.Lemmas.PatternGrammar

/-!
# Anchored rules

A rule of an order table is meant for whole paths, and its pattern is anchored for that by writing `^(?:` before it and `)$` after it.
Main statement, for any package of regular expressions that does as documented: a rule whose pattern is an expression on its own holds
for exactly the paths that the pattern matches from their first character to their last, and the first rule that holds for a path
decides its mode (`OrderTable.ofRules_exact`). A pattern that is an expression only between the anchors, because it closes their group
itself, is taken in all the same, and holds for paths of which the anchored text matches a part.
-/

namespace RouterPlan

variable {grammar : RegexGrammar}

namespace OrderRule

/-- The pattern of the rule is an expression on its own. -/
def WellFormed (grammar : RegexGrammar) (rule : OrderRule) : Prop :=
  (grammar rule.pattern).isSome = true

instance (rule : OrderRule) : Decidable (rule.WellFormed grammar) :=
  inferInstanceAs (Decidable (_ = true))

/-- The pattern of the rule, on its own, matches the whole written path, from its first character to its last. -/
def Describes (grammar : RegexGrammar) (rule : OrderRule) (path : Path) : Prop :=
  ∃ matched, grammar rule.pattern = some matched ∧ matched path.text.toList 0 path.text.toList.length

theorem Describes.wellFormed {rule : OrderRule} {path : Path} (h : rule.Describes grammar path) : rule.WellFormed grammar := by
  obtain ⟨matched, hmatched, -⟩ := h
  exact Option.isSome_iff_exists.2 ⟨matched, hmatched⟩

/-- The anchored pattern of the rule matches a part of the written path. -/
def Touches (grammar : RegexGrammar) (rule : OrderRule) (path : Path) : Prop :=
  ∃ whole, grammar rule.anchored = some whole ∧ ∃ i j, whole path.text.toList i j

/-- Between its anchors, what is an expression on its own matches a part of a path exactly if on its own it matches all of it. -/
theorem WellFormed.touches_iff [RegexEngine] (hdocs : RegexEngine.Documented grammar) {rule : OrderRule}
    (h : rule.WellFormed grammar) (hanchored : (grammar rule.anchored).isSome = true) (path : Path) :
    rule.Touches grammar path ↔ rule.Describes grammar path := by
  obtain ⟨matched, hmatched⟩ := Option.isSome_iff_exists.1 h
  obtain ⟨whole, hwhole⟩ := Option.isSome_iff_exists.1 hanchored
  have hsome : grammar rule.pattern ≠ none := by simp [hmatched]
  obtain ⟨rest, hrest, hstart⟩ := hdocs.start_group_end hsome hwhole
  have hend := hdocs.group_end hmatched hrest
  have hboth : ∀ i j, whole path.text.toList i j ↔ i = 0 ∧ matched path.text.toList i j ∧ j = path.text.toList.length :=
    fun i j => (hstart _ i j).trans (and_congr_right fun _ => hend _ i j)
  constructor
  · rintro ⟨_, hwhole', i, j, hij⟩
    cases hwhole.symm.trans hwhole'
    obtain ⟨rfl, hmatch, rfl⟩ := (hboth i j).1 hij
    exact ⟨matched, hmatched, hmatch⟩
  · rintro ⟨_, hmatched', hmatch⟩
    cases hmatched.symm.trans hmatched'
    exact ⟨whole, hwhole, 0, _, (hboth 0 _).2 ⟨rfl, hmatch, rfl⟩⟩

section

variable [RegexEngine]

/-- The pattern of the rule compiles between the anchors. -/
def Accepted (rule : OrderRule) : Prop :=
  ∃ regex, rule.compile = .ok (regex, rule.mode)

/-- The pattern of the rule is found in the written path, with the anchors around it. -/
def AppliesTo (rule : OrderRule) (path : Path) : Prop :=
  ∃ regex, rule.compile = .ok (regex, rule.mode) ∧ regex.isMatch path.text = true

/-- A rule is accepted with its own mode, or its own pattern is reported. -/
theorem compile_cases (rule : OrderRule) :
    (∃ p, rule.compile = .ok (p, rule.mode)) ∨ rule.compile = .error ⟨rule.pattern⟩ := by
  unfold compile
  split
  · exact .inl ⟨_, rfl⟩
  · exact .inr rfl

theorem exists_compile_iff (rule : OrderRule) : (∃ compiled, rule.compile = .ok compiled) ↔ rule.Accepted := by
  constructor
  · rintro ⟨compiled, h⟩
    obtain ⟨p, hp⟩ | hbad := rule.compile_cases
    · exact ⟨p, hp⟩
    · rw [hbad] at h
      cases h
  · rintro ⟨p, hp⟩
    exact ⟨_, hp⟩

theorem compile_eq_error_iff (rule : OrderRule) (bad : InvalidPattern) :
    rule.compile = .error bad ↔ ¬rule.Accepted ∧ bad = ⟨rule.pattern⟩ := by
  unfold Accepted
  obtain ⟨p, hp⟩ | hbad := rule.compile_cases
  · simp [hp]
  · simp [hbad, eq_comm]

theorem appliesTo_iff_any (rule : OrderRule) (path : Path) :
    rule.AppliesTo path ↔ rule.compile.toOption.any (·.1.isMatch path.text) = true := by
  unfold AppliesTo
  obtain ⟨p, hp⟩ | hbad := rule.compile_cases
  · simp [hp, Except.toOption]
  · simp [hbad, Except.toOption]

instance (rule : OrderRule) (path : Path) : Decidable (rule.AppliesTo path) :=
  decidable_of_iff _ (rule.appliesTo_iff_any path).symm

theorem compile?_of_compile {rule : OrderRule} {regex : Regex} (h : rule.compile = .ok (regex, rule.mode)) :
    RegexEngine.compile? rule.anchored = some regex := by
  unfold compile at h
  split at h
  · rename_i regex' hcompile
    cases h
    exact hcompile
  · cases h

/-- What an accepted rule has between its anchors is an expression. -/
theorem Accepted.isSome_anchored (hdocs : RegexEngine.Documented grammar) {rule : OrderRule} (h : rule.Accepted) :
    (grammar rule.anchored).isSome = true := by
  obtain ⟨regex, hregex⟩ := h
  rw [← Option.ne_none_iff_isSome]
  intro hnone
  have hcompile := compile?_of_compile hregex
  rw [hdocs.refuses hnone] at hcompile
  cases hcompile

/-- An accepted rule applies to the paths of which its anchored pattern matches a part. -/
theorem Accepted.appliesTo_iff (hdocs : RegexEngine.Documented grammar) {rule : OrderRule} (h : rule.Accepted) (path : Path) :
    rule.AppliesTo path ↔ rule.Touches grammar path := by
  obtain ⟨whole, hwhole⟩ := Option.isSome_iff_exists.1 (h.isSome_anchored hdocs)
  obtain ⟨regex, hregex⟩ := h
  have hmatch := hdocs.isMatch_iff (compile?_of_compile hregex) hwhole path.text
  constructor
  · rintro ⟨regex', hregex', hfound⟩
    cases hregex.symm.trans hregex'
    exact ⟨whole, hwhole, hmatch.1 hfound⟩
  · rintro ⟨_, hwhole', hpart⟩
    cases hwhole.symm.trans hwhole'
    exact ⟨regex, hregex, hmatch.2 hpart⟩

end

end OrderRule

namespace OrderTable

/-- A rule in front of a table is tried first. -/
theorem modeFor_cons (regex : Regex) (mode : OrderMode) (rules : List (Regex × OrderMode)) (path : Path) :
    modeFor ⟨(regex, mode) :: rules⟩ path = if regex.isMatch path.text then mode else modeFor ⟨rules⟩ path := by
  unfold modeFor
  rw [List.find?_cons]
  cases regex.isMatch path.text <;> rfl

section

variable [RegexEngine]

theorem ofRules_cons_of_error {rule : OrderRule} {bad : InvalidPattern} (h : rule.compile = .error bad) (rules : List OrderRule) :
    ofRules (rule :: rules) = .error bad := by
  unfold ofRules
  rw [List.mapM_cons, h]
  rfl

theorem ofRules_cons_of_ok {rule : OrderRule} {compiled : Regex × OrderMode} (h : rule.compile = .ok compiled)
    (rules : List OrderRule) : ofRules (rule :: rules) = (ofRules rules).map fun table => ⟨compiled :: table.rules⟩ := by
  unfold ofRules
  rw [List.mapM_cons, h]
  cases rules.mapM OrderRule.compile <;> rfl

theorem withOverrides_eq (table : OrderTable) (rules : List OrderRule) :
    table.withOverrides rules = (ofRules rules).map fun overrides => ⟨overrides.rules ++ table.rules⟩ := by
  unfold withOverrides
  cases ofRules rules <;> rfl

/-- Rules that are added to a table of rules make the table of all of them, the new ones in front. -/
theorem withOverrides_ofRules {base : List OrderRule} {table : OrderTable} (h : ofRules base = .ok table) (rules : List OrderRule) :
    table.withOverrides rules = ofRules (rules ++ base) := by
  rw [withOverrides_eq]
  induction rules with
  | nil =>
    rw [List.nil_append, h]
    rfl
  | cons rule rules ih =>
    rw [List.cons_append]
    obtain ⟨p, hp⟩ | hbad := rule.compile_cases
    · rw [ofRules_cons_of_ok hp, ofRules_cons_of_ok hp, ← ih]
      cases ofRules rules <;> rfl
    · rw [ofRules_cons_of_error hbad, ofRules_cons_of_error hbad]
      rfl

/-- The first rule that is not accepted is reported. -/
theorem ofRules_eq_error_iff (rules : List OrderRule) (bad : InvalidPattern) :
    ofRules rules = .error bad ↔ ∃ before rule after, rules = before ++ rule :: after ∧ (∀ r ∈ before, r.Accepted) ∧
      ¬rule.Accepted ∧ bad = ⟨rule.pattern⟩ := by
  have hmap : ofRules rules = .error bad ↔ rules.mapM OrderRule.compile = .error bad := by
    unfold ofRules
    cases rules.mapM OrderRule.compile <;> simp [bind, Except.bind, pure, Except.pure]
  rw [hmap, mapM_eq_error_iff]
  simp only [OrderRule.compile_eq_error_iff, OrderRule.exists_compile_iff]

/-- A table of rules is the first one in front of a table of the others. -/
theorem exists_of_ofRules_cons {first : OrderRule} {rules : List OrderRule} {table : OrderTable}
    (h : ofRules (first :: rules) = .ok table) :
    ∃ p rest, first.compile = .ok (p, first.mode) ∧ ofRules rules = .ok rest ∧ table = ⟨(p, first.mode) :: rest.rules⟩ := by
  obtain ⟨p, hp⟩ | hbad := first.compile_cases
  · rw [ofRules_cons_of_ok hp] at h
    cases hrest : ofRules rules with
    | error cause =>
      rw [hrest] at h
      cases h
    | ok rest =>
      rw [hrest] at h
      exact ⟨p, rest, hp, rfl, (Except.ok.inj h).symm⟩
  · rw [ofRules_cons_of_error hbad] at h
    cases h

/-- The rules of a table can all be read between the anchors. -/
theorem accepted_of_ofRules {rules : List OrderRule} {table : OrderTable} (h : ofRules rules = .ok table) :
    ∀ rule ∈ rules, rule.Accepted := by
  induction rules generalizing table with
  | nil => simp
  | cons first rules ih =>
    obtain ⟨p, rest, hp, hrest, -⟩ := exists_of_ofRules_cons h
    exact List.forall_mem_cons.2 ⟨⟨p, hp⟩, ih hrest⟩

/-- The first rule that applies to a path decides its mode. -/
theorem modeFor_ofRules {rules : List OrderRule} {table : OrderTable} (h : ofRules rules = .ok table) (path : Path) :
    (∃ before rule after, rules = before ++ rule :: after ∧ (∀ r ∈ before, ¬r.AppliesTo path) ∧ rule.AppliesTo path ∧
        table.modeFor path = rule.mode) ∨
      ((∀ r ∈ rules, ¬r.AppliesTo path) ∧ table.modeFor path = .unordered) := by
  induction rules generalizing table with
  | nil =>
    cases h
    exact .inr ⟨by simp, rfl⟩
  | cons first rules ih =>
    obtain ⟨p, rest, hp, hrest, rfl⟩ := exists_of_ofRules_cons h
    rw [modeFor_cons]
    by_cases hfound : p.isMatch path.text = true
    · exact .inl ⟨[], first, rules, rfl, by simp, ⟨p, hp, hfound⟩, if_pos hfound⟩
    · have hfirst : ¬first.AppliesTo path := by
        rintro ⟨q, hq, hqfound⟩
        rw [hp] at hq
        cases hq
        exact hfound hqfound
      rw [if_neg hfound]
      obtain ⟨before, rule, after, rfl, hbefore, hrule, hmode⟩ | ⟨hnone, hmode⟩ := ih hrest
      · exact .inl ⟨first :: before, rule, after, rfl, List.forall_mem_cons.2 ⟨hfirst, hbefore⟩, hrule, hmode⟩
      · exact .inr ⟨List.forall_mem_cons.2 ⟨hfirst, hnone⟩, hmode⟩

/-- Tables of rules, with any package of regular expressions that does as documented:
* rules that are added to a table of other rules are tried before them, and the table is that of all these rules in this order;
* a list of rules is refused exactly if one of them does not compile between the anchors, and the pattern of the first such rule is
  reported;
* in a table, the first rule that applies to a path decides its mode, and a path to which no rule applies is unordered;
* what an accepted rule has between the anchors is an expression, and the rule applies to exactly the paths of which this expression
  matches a part; if its pattern is an expression on its own, these are exactly the paths that the pattern matches as a whole. -/
theorem ofRules_exact (hdocs : RegexEngine.Documented grammar) (rules : List OrderRule) :
    (∀ base table, ofRules base = .ok table → table.withOverrides rules = ofRules (rules ++ base)) ∧
    (∀ bad, ofRules rules = .error bad ↔ ∃ before rule after, rules = before ++ rule :: after ∧ (∀ r ∈ before, r.Accepted) ∧
      ¬rule.Accepted ∧ bad = ⟨rule.pattern⟩) ∧
    ∀ table, ofRules rules = .ok table → ∀ path,
      ((∃ before rule after, rules = before ++ rule :: after ∧ (∀ r ∈ before, ¬r.AppliesTo path) ∧ rule.AppliesTo path ∧
          table.modeFor path = rule.mode) ∨
        ((∀ rule ∈ rules, ¬rule.AppliesTo path) ∧ table.modeFor path = .unordered)) ∧
      ∀ rule ∈ rules, (grammar rule.anchored).isSome = true ∧ (rule.AppliesTo path ↔ rule.Touches grammar path) ∧
        (rule.WellFormed grammar → (rule.AppliesTo path ↔ rule.Describes grammar path)) := by
  refine ⟨fun base table hbase => withOverrides_ofRules hbase rules, ofRules_eq_error_iff rules, fun table htable path => ?_⟩
  refine ⟨modeFor_ofRules htable path, fun rule hrule => ?_⟩
  have haccepted := accepted_of_ofRules htable rule hrule
  have hanchored := haccepted.isSome_anchored hdocs
  have happlies := haccepted.appliesTo_iff hdocs path
  exact ⟨hanchored, happlies, fun hwellFormed => happlies.trans (hwellFormed.touches_iff hdocs hanchored path)⟩

end

/-- A rule with alternatives of which neither is a start of the other, and one that closes the group of its anchors itself. -/
def anchoringSample : List OrderRule :=
  [⟨"/a|/b", .orderedAppend⟩, ⟨"/c)|(?:d", .ordered⟩]

/-- The first rule of the sample applies to `/b` as a whole and not to the start of `/a x`. The second one is not well formed on its
own and is taken in all the same; it decides the mode of `/c x`, of which its anchored pattern matches a part. -/
theorem ofRules_exact_alternatives : RegexEngine.Documented Pattern.grammar ∧ ∃ table, ofRules anchoringSample = .ok table ∧
    (⟨"/a|/b", .orderedAppend⟩ : OrderRule).Describes Pattern.grammar ⟨["b"]⟩ ∧ table.modeFor ⟨["b"]⟩ = .orderedAppend ∧
    ¬(⟨"/a|/b", .orderedAppend⟩ : OrderRule).Describes Pattern.grammar ⟨["a", "x"]⟩ ∧
    table.modeFor ⟨["a", "x"]⟩ = .unordered ∧
    ¬(⟨"/c)|(?:d", .ordered⟩ : OrderRule).WellFormed Pattern.grammar ∧
    (⟨"/c)|(?:d", .ordered⟩ : OrderRule).Touches Pattern.grammar ⟨["c", "x"]⟩ ∧ table.modeFor ⟨["c", "x"]⟩ = .ordered ∧
    ∀ rule ∈ anchoringSample, ¬rule.Describes Pattern.grammar ⟨["c", "x"]⟩ := by
  have hmodes : (ofRules anchoringSample).map (fun table =>
      [table.modeFor ⟨["b"]⟩, table.modeFor ⟨["a", "x"]⟩, table.modeFor ⟨["c", "x"]⟩]) =
      .ok [.orderedAppend, .unordered, .ordered] := by
    decide +kernel
  refine ⟨Pattern.documented, ?_⟩
  cases htable : ofRules anchoringSample with
  | error bad =>
    rw [htable] at hmodes
    cases hmodes
  | ok table =>
    rw [htable] at hmodes
    obtain ⟨hb, hax, hcx⟩ : table.modeFor ⟨["b"]⟩ = .orderedAppend ∧ table.modeFor ⟨["a", "x"]⟩ = .unordered ∧
        table.modeFor ⟨["c", "x"]⟩ = .ordered := by
      simpa using Except.ok.inj hmodes
    have hexact := fun path => ((ofRules_exact Pattern.documented anchoringSample).2.2 table htable path).2
    have hfirst := fun path => (hexact path ⟨"/a|/b", .orderedAppend⟩ List.mem_cons_self).2.2 (by decide +kernel)
    have hsecond := (hexact ⟨["c", "x"]⟩ ⟨"/c)|(?:d", .ordered⟩ (List.mem_cons_of_mem _ List.mem_cons_self)).2.1
    refine ⟨table, rfl, (hfirst ⟨["b"]⟩).1 (by decide +kernel), hb, ?_, hax, by decide +kernel, hsecond.1 (by decide +kernel), hcx, ?_⟩
    · intro hdescribes
      exact absurd ((hfirst ⟨["a", "x"]⟩).2 hdescribes) (by decide +kernel)
    · refine List.forall_mem_cons.2 ⟨fun hdescribes => ?_, List.forall_mem_singleton.2 fun hdescribes => ?_⟩
      · exact absurd ((hfirst ⟨["c", "x"]⟩).2 hdescribes) (by decide +kernel)
      · exact absurd hdescribes.wellFormed (by decide +kernel)

end OrderTable

end RouterPlan
