import RouterPlan.Device.Basic

/-!
# How runs end

A run in a world with a state takes the state to another one and ends with a result, whatever its journal is (`Run.Ends`). The
steps of a run are put together by `Ends.bind` and `Ends.bind_error`; with them each step of a reconciliation is described by what
the device answers (`Device.ends_fetch`, `Device.Accepts.ends_sendAll`), and so is a reconciliation itself.
-/

namespace RouterPlan

namespace Run

variable {σ ε α β : Type} {run : Run (StateM σ) ε α} {s s' s'' : σ}

/-- From a state, a run ends with a result in another state, whatever the journal says before it. -/
def Ends (run : Run (StateM σ) ε α) (s : σ) (result : Except ε α) (s' : σ) : Prop :=
  ∀ journal, ∃ journal', ((ExceptT.run run).run journal).run s = ((result, journal'), s')

theorem Ends.pure (a : α) (s : σ) : (Pure.pure a : Run (StateM σ) ε α).Ends s (.ok a) s :=
  fun journal => ⟨journal, rfl⟩

/-- A step that succeeds, and then the rest. -/
theorem Ends.bind {a : α} {f : α → Run (StateM σ) ε β} {result : Except ε β} (h : run.Ends s (.ok a) s')
    (h' : (f a).Ends s' result s'') : (run >>= f).Ends s result s'' := by
  intro journal
  obtain ⟨journal', hrun⟩ := h journal
  obtain ⟨journal'', hrest⟩ := h' journal'
  refine ⟨journal'', ?_⟩
  rw [ExceptT.run_bind, StateT.run_bind, StateT.run_bind, hrun]
  exact hrest

/-- A step that fails ends the run. -/
theorem Ends.bind_error {cause : ε} {f : α → Run (StateM σ) ε β} (h : run.Ends s (.error cause) s') :
    (run >>= f).Ends s (.error cause) s' := by
  intro journal
  obtain ⟨journal', hrun⟩ := h journal
  refine ⟨journal', ?_⟩
  rw [ExceptT.run_bind, StateT.run_bind, StateT.run_bind, hrun]
  rfl

theorem ends_note (entries : Journal) (s : σ) : (note entries : Run (StateM σ) ε Unit).Ends s (.ok ()) s :=
  fun journal => ⟨journal ++ entries, rfl⟩

theorem ends_ofExcept (result : Except ε α) (s : σ) : (ofExcept result : Run (StateM σ) ε α).Ends s result s :=
  fun journal => ⟨journal, rfl⟩

/-- Work in the world. -/
theorem ends_perform {work : StateM σ α} {a : α} (h : work.run s = (a, s')) : (perform work : Run (StateM σ) ε α).Ends s (.ok a) s' := by
  intro journal
  refine ⟨journal, ?_⟩
  rw [perform, ExceptT.run_lift, StateT.run_map, StateT.run_lift, StateT.run_map, StateT.run_bind, h]
  rfl

/-- The outcome of a run is the result, with some journal. -/
theorem Ends.outcome {result : Except ε α} (h : run.Ends s result s') :
    ∃ journal, (Run.outcome run).run s = ((result, journal), s') :=
  h []

/-! ## Operations -/

variable {c base target actual expected : Configuration}

/-- Reading a text ends as the reading does. -/
theorem ends_read (order : OrderTable) (text : String) (s : σ) :
    (read order text : Run (StateM σ) Failure Configuration).Ends s ((Configuration.read order text).mapError .parse) s := by
  rw [read]
  cases Configuration.read order text with
  | error cause => exact (ends_ofExcept _ s).bind_error
  | ok c => exact (ends_ofExcept _ s).bind ((ends_note _ s).bind (Ends.pure c s))

/-- A comparison ends as it does without a journal. -/
theorem ends_diff (base target : Configuration) (s : σ) :
    (diff base target : Run (StateM σ) Failure Script).Ends s ((base.diff target).mapError .integrity) s := by
  rw [diff, merge, Configuration.diff]
  cases base.merge target with
  | error cause => exact (ends_ofExcept _ s).bind_error.bind_error
  | ok merged => exact ((ends_ofExcept _ s).bind ((ends_note _ s).bind (Ends.pure merged s))).bind (Ends.pure merged.1 s)

/-- A check for convergence ends as it does without a journal. -/
theorem ends_check (actual expected : Configuration) (s : σ) :
    (check actual expected : Run (StateM σ) Failure Unit).Ends s (actual.checkConvergence expected) s := by
  rw [check]
  cases actual.diff expected with
  | error cause => exact ends_ofExcept _ s
  | ok residual => exact (ends_note _ s).bind (ends_ofExcept _ s)

end Run

/-! ## Devices -/

namespace Device

variable {σ : Type} {device : Device (StateM σ)} {s s' s'' m : σ}

/-- The device accepts some lines, one after the other, and is then in another state. -/
inductive Accepts (device : Device (StateM σ)) : σ → List String → σ → Prop where
  | nil (s : σ) : Accepts device s [] s
  | cons {s m s' : σ} {line response : String} {lines : List String} (h : (device.send line).run s = (.ok response, m))
      (hrest : Accepts device m lines s') : Accepts device s (line :: lines) s'

/-- The device accepts all of some lines, or it accepts those before one that it refuses. -/
theorem accepts_or_refuses (device : Device (StateM σ)) (s : σ) (lines : List String) :
    (∃ s', device.Accepts s lines s') ∨
      ∃ before line after message m s', lines = before ++ line :: after ∧ device.Accepts s before m ∧
        (device.send line).run m = (.error message, s') := by
  induction lines generalizing s with
  | nil => exact .inl ⟨s, .nil s⟩
  | cons line lines ih =>
    cases hsend : (device.send line).run s with
    | mk answer m =>
      cases answer with
      | error message => exact .inr ⟨[], line, lines, message, s, m, rfl, .nil s, hsend⟩
      | ok response =>
        rcases ih m with ⟨s', haccepts⟩ | ⟨before, refused, after, message, m', s', rfl, haccepts, hrefused⟩
        · exact .inl ⟨s', .cons hsend haccepts⟩
        · exact .inr ⟨line :: before, refused, after, message, m', s', rfl, .cons hsend haccepts, hrefused⟩

/-- Lines that are all accepted are all sent. -/
theorem Accepts.ends_sendAll {lines : List String} (h : device.Accepts s lines s') :
    (device.sendAll lines).Ends s (.ok ()) s' := by
  induction h with
  | nil s => exact .pure () s
  | cons hsend _ ih =>
    rw [sendAll]
    exact (Run.ends_note _ _).bind ((Run.ends_perform hsend).bind ((Run.ends_ofExcept _ _).bind ((Run.ends_note _ _).bind ih)))

/-- A line that is refused is the last one sent, and the failure names it. -/
theorem Accepts.ends_sendAll_of_refuses {before : List String} {line message : String} (h : device.Accepts s before m)
    (hrefused : (device.send line).run m = (.error message, s')) (after : List String) :
    (device.sendAll (before ++ line :: after)).Ends s (.error (.device line message)) s' := by
  induction h with
  | nil s =>
    rw [List.nil_append, sendAll]
    exact (Run.ends_note _ _).bind ((Run.ends_perform hrefused).bind (Run.ends_ofExcept _ _).bind_error)
  | cons hsend _ ih =>
    rw [List.cons_append, sendAll]
    exact (Run.ends_note _ _).bind
      ((Run.ends_perform hsend).bind ((Run.ends_ofExcept _ _).bind ((Run.ends_note _ _).bind (ih hrefused))))

/-- The configuration that an answer to an export gives, or why it gives none. -/
def exported (order : OrderTable) (answer : Except String String) : Except Failure Configuration :=
  match answer with
  | .error message => .error (.device exportLine message)
  | .ok text => (Configuration.read order text).mapError .parse

/-- A text that can be read is what the device has. -/
theorem exported_of_read {order : OrderTable} {text : String} {c : Configuration} (h : Configuration.read order text = .ok c) :
    exported order (.ok text) = .ok c := by
  rw [exported, h]
  rfl

/-- An export is read as it is answered. -/
theorem ends_fetch (order : OrderTable) {answer : Except String String} (h : device.exportText.run s = (answer, s')) :
    (device.fetch order).Ends s (exported order answer) s' := by
  rw [fetch]
  cases answer with
  | error message => exact (Run.ends_perform h).bind (Run.ends_ofExcept _ s').bind_error
  | ok text => exact (Run.ends_perform h).bind ((Run.ends_ofExcept _ s').bind (Run.ends_read order text s'))

/-! ## Reconciliations -/

/-- What is left of a reconciliation when the script has been checked: the script is sent, and the device is exported again. -/
def carryOut (device : Device (StateM σ)) (order : OrderTable) (script : Script) (predicted : Configuration) :
    Run (StateM σ) Failure Outcome := do
  let linesSent ← device.execute script
  let result ← device.fetch order
  Run.check result predicted
  return { script, linesSent, result }

section Reconcile

variable {order : OrderTable} {target base predicted final : Configuration} {script : Script} {answer : Except String String}
  {failure : Failure}

/-- A line that is refused ends it. -/
theorem ends_carryOut_of_refuses {before after : List String} {line message : String}
    (hlines : script.wireLines = before ++ line :: after) (haccepts : device.Accepts s before m)
    (hrefused : (device.send line).run m = (.error message, s')) :
    (device.carryOut order script predicted).Ends s (.error (.device line message)) s' := by
  have hsent := haccepts.ends_sendAll_of_refuses hrefused after
  rw [← hlines] at hsent
  exact hsent.bind_error.bind_error

/-- A script whose lines are all accepted is sent, and its lines are counted. -/
theorem Accepts.ends_execute (haccepts : device.Accepts s script.wireLines m) :
    (device.execute script).Ends s (.ok script.wireLines.length) m :=
  haccepts.ends_sendAll.bind (.pure _ m)

/-- Without a second export nothing can be said of the result. -/
theorem ends_carryOut_of_error (haccepts : device.Accepts s script.wireLines m)
    (hexport : device.exportText.run m = (answer, s')) (hfinal : exported order answer = .error failure) :
    (device.carryOut order script predicted).Ends s (.error failure) s' := by
  have hfetch := device.ends_fetch order hexport
  rw [hfinal] at hfetch
  exact haccepts.ends_execute.bind hfetch.bind_error

/-- With the second export the result is checked. -/
theorem ends_carryOut (haccepts : device.Accepts s script.wireLines m) (hexport : device.exportText.run m = (answer, s'))
    (hfinal : exported order answer = .ok final) :
    (device.carryOut order script predicted).Ends s ((final.checkConvergence predicted).map fun () =>
      { script, linesSent := script.wireLines.length, result := final }) s' := by
  have hfetch := device.ends_fetch order hexport
  have hcheck : (Run.check final predicted : Run (StateM σ) Failure Unit).Ends s' _ s' := Run.ends_check final predicted s'
  rw [hfinal] at hfetch
  refine haccepts.ends_execute.bind (hfetch.bind ?_)
  cases hresult : final.checkConvergence predicted with
  | error failure =>
    rw [hresult] at hcheck
    exact hcheck.bind_error
  | ok =>
    rw [hresult] at hcheck
    exact hcheck.bind (.pure _ s')

/-- Without a first export nothing else is asked. -/
theorem ends_reconcile_of_error (hexport : device.exportText.run s = (answer, s'))
    (hbase : exported target.order answer = .error failure) : (device.reconcile target).Ends s (.error failure) s' := by
  have hfetch := device.ends_fetch target.order hexport
  rw [hbase] at hfetch
  exact hfetch.bind_error

/-- Where there is nothing to do nothing is sent. -/
theorem ends_reconcile_of_isEmpty (hexport : device.exportText.run s = (answer, s'))
    (hbase : exported target.order answer = .ok base) (hdiff : base.diff target = .ok script) (hempty : script.isEmpty = true) :
    (device.reconcile target).Ends s (.ok { script, linesSent := 0, result := base }) s' := by
  have hfetch := device.ends_fetch target.order hexport
  have hscript : (Run.diff base target : Run (StateM σ) Failure Script).Ends s' _ s' := Run.ends_diff base target s'
  rw [hbase] at hfetch
  rw [hdiff] at hscript
  refine hfetch.bind (hscript.bind ?_)
  rw [if_pos hempty]
  exact (Run.ends_note _ s').bind (.pure _ s')

/-- A script that has commands and reaches the target is carried out. -/
theorem ends_reconcile {result : Except Failure Outcome} (hexport : device.exportText.run s = (answer, m))
    (hbase : exported target.order answer = .ok base) (hdiff : base.diff target = .ok script) (hempty : script.isEmpty = false)
    (happly : base.apply script = .ok predicted) (hcheck : predicted.checkConvergence target = .ok ())
    (hrest : (device.carryOut target.order script predicted).Ends m result s') : (device.reconcile target).Ends s result s' := by
  have hfetch := device.ends_fetch target.order hexport
  have hscript : (Run.diff base target : Run (StateM σ) Failure Script).Ends m _ m := Run.ends_diff base target m
  have hreached : (Run.check predicted target : Run (StateM σ) Failure Unit).Ends m _ m := Run.ends_check predicted target m
  rw [hbase] at hfetch
  rw [hdiff] at hscript
  rw [hcheck] at hreached
  refine hfetch.bind (hscript.bind ?_)
  rw [hempty, if_neg Bool.false_ne_true, happly]
  exact (Run.ends_ofExcept _ m).bind (hreached.bind ((Run.ends_note _ m).bind hrest))

end Reconcile

end Device

end RouterPlan
