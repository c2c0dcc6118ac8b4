import RouterPlan.Device.History
import RouterPlan.Proofs.Lemmas.Converged
import RouterPlan.Proofs.Lemmas.Runs
import RouterPlan.Proofs.Reachable

/-!
# Courses of a reconciliation

How a reconciliation goes with a device of which nothing is known: what the device is asked, in order, and what comes of it, by
what it answers (`Device.Course`). Every reconciliation with a well-formed target takes one of these courses (`exists_course`);
that nothing else can come up before a line is sent rests on what comparisons and their scripts do.
-/

namespace RouterPlan.Device

variable {answers : List Request → Except String String} {target : Configuration}

/-- What was asked when the device gave its export and was then sent some lines. -/
def asked (lines : List String) : List Request :=
  .exportText :: lines.map .send

/-- The last of some requests is answered by a text that reads as a configuration. -/
def Gives (answers : List Request → Except String String) (requests : List Request) (order : OrderTable) (c : Configuration) :
    Prop :=
  ∃ text, answers requests = .ok text ∧ Configuration.read order text = .ok c

/-- Each of some lines is accepted, one after the other. -/
def Obeys (answers : List Request → Except String String) (lines : List String) : Prop :=
  ∀ before line after, lines = before ++ line :: after → ∃ response, answers (asked (before ++ [line])) = .ok response

/-- How a reconciliation goes: what the device is asked, and what comes of it. -/
inductive Course (answers : List Request → Except String String) (target : Configuration) :
    List Request → Except Failure Outcome → Prop where
  /-- There is no first export. -/
  | unavailable {message : String} (h : answers (asked []) = .error message) :
      Course answers target (asked []) (.error (.device exportLine message))
  /-- The first export cannot be read. -/
  | unreadable {text : String} {cause : ParseError} (h : answers (asked []) = .ok text)
      (hread : Configuration.read target.order text = .error cause) :
      Course answers target (asked []) (.error (.parse cause))
  /-- There is nothing to send. -/
  | settled {base : Configuration} {script : Script} (hbase : Gives answers (asked []) target.order base)
      (hdiff : base.diff target = .ok script) (hnone : script.wireLines = []) :
      Course answers target (asked []) (.ok { script, linesSent := 0, result := base })
  /-- A line is refused; those before it were accepted. -/
  | refused {base : Configuration} {script : Script} {before after : List String} {line message : String}
      (hbase : Gives answers (asked []) target.order base) (hdiff : base.diff target = .ok script)
      (hlines : script.wireLines = before ++ line :: after) (hobeys : Obeys answers before)
      (hrefused : answers (asked (before ++ [line])) = .error message) :
      Course answers target (asked (before ++ [line])) (.error (.device line message))
  /-- All lines are accepted, and there is no second export. -/
  | lost {base : Configuration} {script : Script} {message : String} (hbase : Gives answers (asked []) target.order base)
      (hdiff : base.diff target = .ok script) (hsome : script.wireLines ≠ []) (hobeys : Obeys answers script.wireLines)
      (h : answers (asked script.wireLines ++ [.exportText]) = .error message) :
      Course answers target (asked script.wireLines ++ [.exportText]) (.error (.device exportLine message))
  /-- All lines are accepted, and the second export cannot be read. -/
  | garbled {base : Configuration} {script : Script} {text : String} {cause : ParseError}
      (hbase : Gives answers (asked []) target.order base) (hdiff : base.diff target = .ok script)
      (hsome : script.wireLines ≠ []) (hobeys : Obeys answers script.wireLines)
      (h : answers (asked script.wireLines ++ [.exportText]) = .ok text)
      (hread : Configuration.read target.order text = .error cause) :
      Course answers target (asked script.wireLines ++ [.exportText]) (.error (.parse cause))
  /-- All lines are accepted, and the second export is checked against what the script makes of the first. -/
  | checked {base predicted final : Configuration} {script : Script} (hbase : Gives answers (asked []) target.order base)
      (hdiff : base.diff target = .ok script) (hsome : script.wireLines ≠ []) (hobeys : Obeys answers script.wireLines)
      (happly : base.apply script = .ok predicted)
      (hfinal : Gives answers (asked script.wireLines ++ [.exportText]) target.order final) :
      Course answers target (asked script.wireLines ++ [.exportText])
        ((final.checkConvergence predicted).map fun () =>
          { script, linesSent := script.wireLines.length, result := final })

/-! ## Which course is taken -/

/-- Lines that a device accepts are added to what it was asked. -/
theorem obeys_of_accepts {requests requests' : List Request} {lines : List String}
    (h : (answering answers).Accepts requests lines requests') :
    requests' = requests ++ lines.map .send ∧ ∀ before line after, lines = before ++ line :: after →
      ∃ response, answers (requests ++ (before ++ [line]).map .send) = .ok response := by
  induction h with
  | nil => exact ⟨(List.append_nil _).symm, fun before line after heq => by simp at heq⟩
  | @cons s m s' line response lines hsend _ ih =>
    obtain ⟨hanswer, rfl⟩ := Prod.mk.inj hsend
    obtain ⟨hrequests, hobeys⟩ := ih
    refine ⟨by rw [hrequests, List.map_cons, List.append_assoc, List.singleton_append], fun before other after heq => ?_⟩
    cases before with
    | nil =>
      obtain ⟨rfl, -⟩ := List.cons.inj heq
      exact ⟨response, hanswer⟩
    | cons first before =>
      obtain ⟨rfl, hrest⟩ := List.cons.inj heq
      obtain ⟨response, hresponse⟩ := hobeys before other after hrest
      exact ⟨response, by rw [← hresponse, List.append_assoc]; rfl⟩

/-- What an export is taken for, by its answer. -/
theorem exported_of_gives {requests : List Request} {order : OrderTable} {c : Configuration} (h : Gives answers requests order c) :
    exported order (answers requests) = .ok c := by
  obtain ⟨text, hanswer, hread⟩ := h
  rw [hanswer, exported, hread]
  rfl

/-- A configuration that an export gives is well-formed and has the order table that it was read with. -/
theorem Gives.wellFormed {requests : List Request} {order : OrderTable} {c : Configuration} (h : Gives answers requests order c) :
    c.WellFormed ∧ c.order = order := by
  obtain ⟨text, -, hread⟩ := h
  exact ⟨Configuration.wellFormed_of_read hread, Configuration.order_of_read hread⟩

/-- An answer to an export is an error, or a text that cannot be read, or gives a configuration. -/
theorem exports_cases (answers : List Request → Except String String) (requests : List Request) (order : OrderTable) :
    (∃ message, answers requests = .error message ∧
      exported order (answers requests) = .error (.device exportLine message)) ∨
    (∃ text cause, answers requests = .ok text ∧ Configuration.read order text = .error cause ∧
      exported order (answers requests) = .error (.parse cause)) ∨ ∃ c, Gives answers requests order c := by
  cases hanswer : answers requests with
  | error message => exact .inl ⟨message, rfl, rfl⟩
  | ok text =>
    cases hread : Configuration.read order text with
    | error cause => exact .inr (.inl ⟨text, cause, rfl, hread, by rw [exported, hread]; rfl⟩)
    | ok c => exact .inr (.inr ⟨c, text, hanswer, hread⟩)

/-- With a well-formed target every reconciliation takes one of the courses. -/
theorem exists_course (answers : List Request → Except String String) (ht : target.WellFormed) :
    ∃ result requests, ((answering answers).reconcile target).Ends [] result requests ∧ Course answers target requests result := by
  have hexport : ∀ requests, (answering answers).exportText.run requests =
      (answers (requests ++ [.exportText]), requests ++ [.exportText]) := fun _ => rfl
  rcases exports_cases answers (asked []) target.order with ⟨message, hanswer, hbase⟩ | ⟨text, cause, hanswer, hread, hbase⟩ |
    ⟨base, hgives⟩
  · exact ⟨_, _, ends_reconcile_of_error (hexport []) hbase, .unavailable hanswer⟩
  · exact ⟨_, _, ends_reconcile_of_error (hexport []) hbase, .unreadable hanswer hread⟩
  · have hbase := exported_of_gives hgives
    obtain ⟨script, predicted, hdiff, happly, hpredicted, -, hreaches⟩ :=
      Configuration.exists_apply_reaches hgives.wellFormed.1 ht
    -- so the check before anything is sent passes
    have hcheck := (Configuration.checkConvergence_eq_ok_iff hpredicted ht).2 hreaches
    cases hempty : script.isEmpty with
    | true =>
      exact ⟨_, _, ends_reconcile_of_isEmpty (hexport []) hbase hdiff hempty,
        .settled hgives hdiff (Script.wireLines_eq_nil_iff.2 hempty)⟩
    | false =>
      have hsome : script.wireLines ≠ [] := fun hnone => by
        rw [Script.wireLines_eq_nil_iff.1 hnone] at hempty
        cases hempty
      have hcarry : ∀ {result requests}, ((answering answers).carryOut target.order script predicted).Ends (asked []) result
          requests → ((answering answers).reconcile target).Ends [] result requests :=
        ends_reconcile (hexport []) hbase hdiff hempty happly hcheck
      rcases accepts_or_refuses (answering answers) (asked []) script.wireLines with ⟨requests, haccepts⟩ |
        ⟨before, line, after, message, requests, requests', hlines, haccepts, hrefused⟩
      · obtain ⟨rfl, hobeys⟩ := obeys_of_accepts haccepts
        have hsecond := hexport (asked script.wireLines)
        rcases exports_cases answers (asked script.wireLines ++ [.exportText]) target.order with ⟨message, hanswer, hfinal⟩ |
          ⟨text, cause, hanswer, hread, hfinal⟩ | ⟨final, hfinal⟩
        · exact ⟨_, _, hcarry (ends_carryOut_of_error haccepts hsecond hfinal), .lost hgives hdiff hsome hobeys hanswer⟩
        · exact ⟨_, _, hcarry (ends_carryOut_of_error haccepts hsecond hfinal), .garbled hgives hdiff hsome hobeys hanswer hread⟩
        · exact ⟨_, _, hcarry (ends_carryOut haccepts hsecond (exported_of_gives hfinal)),
            .checked hgives hdiff hsome hobeys happly hfinal⟩
      · obtain ⟨rfl, hobeys⟩ := obeys_of_accepts haccepts
        obtain ⟨hanswer, rfl⟩ := Prod.mk.inj hrefused
        have hlast : asked [] ++ before.map .send ++ [.send line] = asked (before ++ [line]) := by
          rw [asked, asked, List.map_append]
          rfl
        rw [hlast] at hanswer hrefused
        exact ⟨_, _, hcarry (ends_carryOut_of_refuses hlines haccepts hrefused), .refused hgives hdiff hlines hobeys hanswer⟩

end RouterPlan.Device
