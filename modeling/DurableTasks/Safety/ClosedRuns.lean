import DurableTasks.Engine.Invariants

/-!
What a closed run still does: whether its status stays, and whether a message
that arrives late can still move it.
-/

namespace DurableTasks

open Effects Engine

variable {r : RunRef} {w : World} {seq : Int}

/-! ## The status of a closed run -/

/-- A run id is given to one run, and a closed run is not closed again. -/
def Licence.final : Licence := { fresh := .rowless, reclose := False }

/-- A write the discipline allows leaves a closed row its status and its close
time, or deletes it. -/
theorem Allowed.closed_row {s : Store} {win : Window} {x : Write} {row : WorkflowExecution}
    (hx : Allowed .final s win x) (hrow : s.get (.wf r) = some row) (hshut : row.isOpen = false) :
    (s.apply x).get (.wf r) = none ∨ ∃ row', (s.apply x).get (.wf r) = some row' ∧
      row'.status = row.status ∧ row'.closeTime = row.closeTime := by
  obtain hkept | ⟨row', rfl⟩ | rfl := Store.get_apply_of_some hrow x
  · exact .inr ⟨row, hkept, rfl, rfl⟩
  · refine .inr ⟨row', s.get_put_self (.wf r) row', ?_⟩
    cases hx with
    | create entry running unwritten fresh named =>
      rw [show s.get (.wf _) = none from fresh] at hrow
      cases hrow
    | update stored type len time status =>
      obtain rfl : row = _ := by simpa [hrow] using stored
      exact ⟨status.resolve_right (by simp [hshut]), time⟩
    | count stored more following =>
      obtain rfl : row = _ := by simpa [hrow] using stored
      exact ⟨rfl, rfl⟩
    | close stored closable terminal =>
      obtain rfl : row = _ := by simpa [hrow] using stored
      rcases closable with hopen | ⟨-, hfalse⟩
      · simp [hshut] at hopen
      · exact hfalse.elim
  · exact .inl (s.get_del_self (.wf r))

/-- In every run in which run ids are not reused and no closed run is reset,
with crashes anywhere, a row with a terminal status keeps it and its close time
at every step, until the row is deleted. -/
theorem terminal_status_final {fuel : Nat} {w : World} (hw : w.Fresh)
    {c c' : Config Effect Effect.Answer World}
    (hr : (system fuel).Reachable (Licence.final.policy fun _ => True) w c)
    (hs : (system fuel).Step (Licence.final.policy fun _ => True) c c') {r : RunRef}
    {row : WorkflowExecution} (hrow : c.world.store.get (.wf r) = some row)
    (hterm : row.status.isTerminal = true) :
    c'.world.store.get (.wf r) = none ∨ ∃ row', c'.world.store.get (.wf r) = some row' ∧
      row'.status = row.status ∧ row'.closeTime = row.closeTime := by
  -- the discipline alone is enough: no invariant of the store is needed
  have htrivial : Inductive .final (Licence.final.policy fun _ => True) fun _ => True :=
    ⟨fun _ _ _ _ => trivial, fun _ _ _ _ _ => trivial, fun _ _ _ => trivial,
      fun _ _ _ => trivial⟩
  have hstep := (htrivial.step (Licence.final.conforms _ fun _ _ => trivial) hw.keyed trivial
    (.inl hw.window)
    hr hs).2
  have hshut : row.isOpen = false := by simp [WorkflowExecution.isOpen, hterm]
  rcases hstep with hsame | ⟨x, hx, -, happly⟩
  · exact .inr ⟨row, by rw [hsame, hrow], rfl, rfl⟩
  · rw [happly]
    exact Allowed.closed_row hx hrow hshut

def Store.ending (s : Store) (r : RunRef) : Option (WorkflowStatus × Option Nat) :=
  (s.get (.wf r)).map fun row => (row.status, row.closeTime)

def startAndComplete : List (System.Turn Operation) :=
  [.whole startRun, .whole (.respondWorkflow 0 [.complete (.ofJson "null" .null)])]

theorem terminal_status_final_completed :
    ∃ row, ((system 1).turns startAndComplete emptyShard).store.get (.wf ⟨"n", "wf", "r"⟩) =
        some row ∧ row.status.isTerminal = true ∧
      ∃ c', (system 1).Step (Licence.final.policy fun _ => True)
          ⟨(system 1).turns startAndComplete emptyShard, .done ()⟩ c' ∧
        (c'.world.store.get (.wf ⟨"n", "wf", "r"⟩) = none ∨
          ∃ row', c'.world.store.get (.wf ⟨"n", "wf", "r"⟩) = some row' ∧
            row'.status = row.status ∧ row'.closeTime = row.closeTime) := by
  have hend : ((system 1).turns startAndComplete emptyShard).store.ending ⟨"n", "wf", "r"⟩ =
      some (.completed, some 103) := by decide +kernel
  obtain ⟨row, hrow, hstatus⟩ := Option.map_eq_some_iff.mp hend
  have hterm : row.status.isTerminal = true := by rw [(Prod.mk.inj hstatus).1]; rfl
  have hr := (system 1).reachable_turns _ (policy_notDraw .final fun _ => True) startAndComplete
    emptyShard ⟨⟨fun _ _ _ _ => Store.get_empty _, by decide +kernel⟩,
      ⟨trivial, by decide +kernel⟩, trivial⟩
  have hs := System.Step.start (S := system 1) (P := Licence.final.policy fun _ => True)
    (w := (system 1).turns startAndComplete emptyShard)
    (.terminate ⟨"n", "wf", some "r"⟩ "" "") trivial
  exact ⟨row, hrow, hterm, _, hs, terminal_status_final emptyShard_fresh hr hs hrow hterm⟩

/-- A reset of a completed run turns it into a terminated one that closed
later. -/
theorem reset_rewrites_closed_row :
    ((system 1).turns startAndComplete emptyShard).store.ending ⟨"n", "wf", "r"⟩ =
        some (.completed, some 103) ∧
      ((system 1).turns (startAndComplete ++ [.whole (.reset ⟨"n", "wf", some "r"⟩ 1 "" "")])
        emptyShard).store.ending ⟨"n", "wf", "r"⟩ = some (.terminated, some 107) := by
  decide +kernel

/-! ## Late messages -/

def Store.Closed (s : Store) (r : RunRef) : Prop :=
  ∀ row, s.get (.wf r) = some row → row.status.isTerminal = true

/-- From `w` to `w'` no event was appended to the run, no record of an activity
created, no activity dispatched for it, and no run started. -/
structure Inert (r : RunRef) (w w' : World) : Prop where
  events : ∀ id, w'.store.get (.wfh r id) = w.store.get (.wfh r id)
  records : ∀ seq, w.store.get (.wfact r seq) = none → w'.store.get (.wfact r seq) = none
  dispatches : ∀ seq, w'.attempts r seq = w.attempts r seq
  children : ∀ r', w.store.get (.wf r') = none → w'.store.get (.wf r') = none

def SameWork (w w' : World) : Prop := w'.store = w.store ∧ w'.dispatched = w.dispatched

theorem SameWork.inert {w' : World} (h : SameWork w w') (r : RunRef) : Inert r w w' where
  events id := by rw [h.1]
  records seq hnone := by rw [h.1, hnone]
  dispatches seq := by simp only [World.attempts, h.2]
  children r' hnone := by rw [h.1, hnone]

theorem Inert.of_sameWork {w' w'' : World} (h : Inert r w w') (h' : SameWork w' w'') :
    Inert r w w'' where
  events id := by rw [h'.1, h.events]
  records seq hnone := by rw [h'.1, h.records seq hnone]
  dispatches seq := by
    rw [← h.dispatches]
    simp only [World.attempts, h'.2]
  children r' hnone := by rw [h'.1, h.children r' hnone]

/-- The start of the child at `seq` is in the history, as a reader sees it. -/
def Store.ChildRecorded (s : Store) (r : RunRef) (seq : Int) : Prop :=
  ∃ evs, decodeEvents (s.events r) = some evs ∧
    (evs.any fun p => HistoryEvent.startsChild seq p.2) = true

def Raw.Undecodable (input : Raw) : Prop :=
  input.isEmpty = false ∧ input.json.bind Json.throughAny = none

/-- A command that its own checks stop on a closed run. -/
def Command.Harmless (s : Store) (r : RunRef) : Command → Prop
  | .scheduleActivity seq _ input _ _ _ _ =>
    (s.get (.wfact r seq)).isSome ∨ input.storable = false
  | .startChild seq _ childType _ input _ =>
    childType = "" ∨ s.ChildRecorded r seq ∨ input.Undecodable
  | _ => True

section Closed

variable {A : World → Prop} {G : World → Write → Prop} {r : RunRef} {w : World}

theorem terminalTransition_closed {status : WorkflowStatus} {attrs : EventAttrs}
    {Q : Post (RunRef × WorkflowExecution) World} (hclosed : w.store.Closed r)
    (hQ : ∀ res, Q res w) : (terminalTransition r status attrs).spec A G Q w := by
  rw [spec_terminalTransition, Store.resolve_coe]
  cases hrow : w.store.get (.wf r) with
  | none => exact hQ _
  | some row =>
    simp only [Option.map_some, hclosed row hrow, if_true]
    exact hQ _

theorem applyScheduleActivity_stopped {type : String} {input : Raw} {queue : String}
    {close beat : Int} {rp : Option Temporal.RetryPolicyJSON} {Q : Post Unit World}
    (hstop : (w.store.get (.wfact r seq)).isSome ∨ input.storable = false) (hQ : ∀ res, Q res w) :
    (applyScheduleActivity r seq type input queue close beat rp).spec A G Q w := by
  simp only [applyScheduleActivity, Go.spec_bind, Go.spec_getWorkflowActivity]
  cases hget : w.store.get (.wfact r seq) with
  | some a => exact hQ _
  | none =>
    have hinput : input.storable = false := by simpa [hget] using hstop
    simp only [Go.spec_bind]
    refine activityQueue_spec fun q => ?_
    have hrecord : (scheduledActivity r seq type input q close beat rp).storable = false := by
      simp [scheduledActivity, WorkflowActivity.storable, hinput]
    simp only [putWorkflowActivity_spec, hrecord]
    exact hQ _

theorem applyStartChild_stopped {wf type queue : String} {input : Raw}
    {attrs : List (String × Json)} {Q : Post Unit World}
    (hstop : type = "" ∨ w.store.ChildRecorded r seq ∨ input.Undecodable) (hQ : ∀ res, Q res w) :
    (applyStartChild r seq wf type queue input attrs).spec A G Q w := by
  unfold applyStartChild
  split_ifs with htype
  · exact hQ _
  have hstop := hstop.resolve_left htype
  simp only [childStartRecorded, Go.spec_bind, Go.spec_attempt, spec_listHistory]
  -- either the start is recorded, or the input stops it
  have hinput : ∀ rest : Json → Go Unit, input.Undecodable →
      (decodeInput "startChild" input >>= rest).spec A G Q w := by
    rintro rest ⟨hsome, hnone⟩
    simp only [decodeInput, hsome, hnone, Bool.false_eq_true, if_false, Go.spec_bind, Go.spec_throw]
    exact hQ _
  cases hdec : decodeEvents (w.store.events r) with
  | none =>
    refine hinput _ (hstop.resolve_left ?_)
    rintro ⟨evs, hevs, -⟩
    simp [hdec] at hevs
  | some evs =>
    simp only [Go.spec_pure]
    split_ifs with hany
    · exact hQ _
    · refine hinput _ (hstop.resolve_left ?_)
      rintro ⟨evs', hevs', hany'⟩
      obtain rfl : evs = evs' := by simpa [hdec] using hevs'
      exact hany hany'

/-- A command that its own checks stop leaves a closed run alone. -/
theorem applyCommand_closed {c : Command} (hclosed : w.store.Closed r) (hc : c.Harmless w.store r) :
    (applyCommand r c).spec A G (fun _ w' => SameWork w w') w := by
  have hsame : SameWork w w := ⟨rfl, rfl⟩
  cases c with
  | complete result =>
    simp only [applyCommand, Go.spec_bind]
    refine terminalTransition_closed hclosed ?_
    rintro (e | p) <;> exact hsame
  | fail failure =>
    simp only [applyCommand, Go.spec_bind]
    refine terminalTransition_closed hclosed ?_
    rintro (e | p) <;> exact hsame
  | scheduleActivity seq type input queue close beat rp =>
    exact applyScheduleActivity_stopped hc fun _ => hsame
  | canceled failure =>
    simp only [applyCommand, ackCanceled, Go.spec_bind, Go.spec_clear]
    refine terminalTransition_closed hclosed ?_
    rintro (e | p) <;> exact hsame
  | continueAsNew input type queue =>
    simp only [applyCommand, applyContinueAsNew, Go.spec_bind, spec_describeWorkflow,
      Store.resolve_coe]
    cases hrow : w.store.get (.wf r) with
    | none => exact hsame
    | some row =>
      simp only [Option.map_some, hclosed row hrow, if_true]
      exact hsame
  | startChild seq wf type queue input attrs =>
    exact applyStartChild_stopped hc fun _ => hsame

theorem applyCommands_closed {cmds : List Command} (hclosed : w.store.Closed r)
    (hcmds : ∀ c ∈ cmds, c.Harmless w.store r) :
    (applyCommands r cmds).spec A G (fun _ w' => SameWork w w') w := by
  induction cmds generalizing w with
  | nil => exact ⟨rfl, rfl⟩
  | cons c cmds ih =>
    change ((attempt (applyCommand r c) >>= fun _ => pure ()) >>= fun _ =>
      applyCommands r cmds).spec A G _ w
    simp only [Go.spec_bind, Go.spec_attempt, Go.spec_pure]
    refine Go.spec_mono ?_ _ (applyCommand_closed hclosed (hcmds c (by simp)))
    rintro _ w₁ ⟨hstore, hdispatched⟩
    refine Go.spec_mono ?_ _ (ih (by rwa [hstore]) fun c' hc' => ?_)
    · exact fun _ w₂ h => ⟨h.1.trans hstore, h.2.trans hdispatched⟩
    · rw [hstore]
      exact hcmds c' (by simp [hc'])

theorem inert_put_record {a : WorkflowActivity} (b : WorkflowActivity)
    (hget : w.store.get (.wfact r seq) = some a) :
    Inert r w (w.write (.put (.wfact r seq) b)) where
  events id := by simp [Store.get_put_of_ne]
  records seq' hnone := by
    have hne : seq' ≠ seq := by
      rintro rfl
      simp [hget] at hnone
    simpa [Store.get_put_of_ne, hne] using hnone
  dispatches _ := rfl
  children r' hnone := by simpa [Store.get_put_of_ne] using hnone

/-- The outcome of an activity of a run that is gone goes no further than its
record. -/
theorem recordOutcome_gone {a b : WorkflowActivity} {attrs : EventAttrs} {id : FailureIdentity}
    (hgone : w.store.get (.wf r) = none) (hget : w.store.get (.wfact r seq) = some a) :
    (recordOutcome r seq b attrs id).spec A G (fun _ w' => Inert r w w') w ↔
      (b.storable = true → G w (.put (.wfact r seq) b)) := by
  have hsame : Inert r w w := SameWork.inert ⟨rfl, rfl⟩ r
  have hgone' : (w.write (.put (.wfact r seq) b)).store.get (.wf r) = none := by
    simpa [Store.get_put_of_ne] using hgone
  simp only [recordOutcome, Go.spec_bind, putWorkflowActivity_spec, spec_appendHistory,
    Store.resolve_coe, hgone', Option.map_none]
  split_ifs with hstorable
  · simp [hstorable, inert_put_record b hget]
  · simp [hstorable, hsame]

theorem completeWorkflowActivity_closed {result failure : Raw} (hclosed : w.store.Closed r) :
    (completeWorkflowActivity r seq result failure).spec A (fun _ _ => True)
      (fun _ w' => Inert r w w') w := by
  have hsame : Inert r w w := SameWork.inert ⟨rfl, rfl⟩ r
  refine completeWorkflowActivity_cases (fun _ _ => hsame) (fun _ _ _ => hsame)
    fun a hget _ hopen => ?_
  -- the run is gone: its record may change, and nothing else
  have hrow : w.store.get (.wf r) = none := by
    refine Option.eq_none_iff_forall_ne_some.mpr fun row hrow => ?_
    simpa [WorkflowExecution.isOpen, hclosed row hrow] using hopen row hrow
  rw [completeWorkflowActivity.advance]
  split_ifs
  · exact (recordOutcome_gone hrow hget).mpr fun _ => trivial
  · simp only [Go.spec_bind, Go.spec_recordFailure, putWorkflowActivity_spec, Go.spec_afterFunc]
    split_ifs
    · exact ⟨trivial, (inert_put_record _ hget).of_sameWork ⟨rfl, rfl⟩⟩
    · exact hsame
  · exact (recordOutcome_gone hrow hget).mpr fun _ => trivial

/-- A retry timer finds nothing to dispatch: it is not armed, the run is gone,
or the record is gone or terminal. -/
def World.TimerStopped (w : World) (r : RunRef) (seq : Int) : Prop :=
  (r, seq) ∉ w.timers ∨ w.store.get (.wf r) = none ∨
    ∀ a, w.store.get (.wfact r seq) = some a → a.isTerminal = true

theorem retryTimer_stopped (hstop : w.TimerStopped r seq) :
    (retryTimer r seq).spec A (fun _ _ => True) (fun _ w' => Inert r w w') w := by
  have herased : SameWork w { w with timers := w.timers.erase (r, seq) } := ⟨rfl, rfl⟩
  have hsame := herased.inert r
  simp only [retryTimer, Go.spec_bind, Go.spec_fire]
  split_ifs with harmed
  · simp only [Go.spec_withRun, Go.spec_bind, Go.spec_attempt, Go.spec_getWorkflowActivity]
    have hstop := hstop.resolve_left fun hnot => hnot (by simpa using harmed)
    cases hget : w.store.get (.wfact r seq) with
    | none => exact hsame
    | some a =>
      dsimp only
      split_ifs with hterm
      · exact hsame
      have hgone := hstop.resolve_right fun hall => hterm (hall a hget)
      generalize hw₁ : { w with timers := w.timers.erase (r, seq) } = w₁ at hsame ⊢
      have hget₁ : w₁.store.get (.wfact r seq) = some a := by rw [← hw₁]; exact hget
      have hgone₁ : ∀ b, (w₁.write (.put (.wfact r seq) b)).store.get (.wf r) = none := by
        intro b
        rw [← hw₁]
        simpa [Store.get_put_of_ne] using hgone
      have hmarker : ∀ b, appendStartedMarker r seq b true =
          (appendHistory r (.activityStarted seq b.activityID b.attempt) >>= fun _ => pure ()) :=
        fun _ => rfl
      simp only [dispatchActivityAttempt, Go.spec_bind, putWorkflowActivity_spec, hmarker,
        spec_appendHistory, Store.resolve_coe, hgone₁, Option.map_none]
      split_ifs
      · refine ⟨trivial, ?_⟩
        obtain ⟨hev, hrec, hdisp, hchild⟩ := inert_put_record { a with status := .started } hget₁
        subst hw₁
        exact ⟨hev, hrec, hdisp, hchild⟩
      · exact hsame
  · exact hsame

end Closed

/-- A message in flight for the run `r`: a response to a workflow task or an
activity of it, or a retry timer. -/
def Operation.MessageFor (w : World) (r : RunRef) : Operation → Prop
  | .respondWorkflow token _ =>
    ∀ t, (w.disp.completeWorkflowTask token).1 = some t → t.ref = r
  | .respondActivityCompleted token _ | .respondActivityFailed token _ =>
    ∀ t, (w.disp.resolveActivityToken token).1 = some t → t.ref = r
  | .retryTimer r' _ => r' = r
  | _ => False

/-- A message that the engine's checks stop on a closed run. -/
def Operation.Stopped (w : World) (r : RunRef) : Operation → Prop
  | .respondWorkflow _ cmds => ∀ c ∈ cmds, c.Harmless w.store r
  | .retryTimer _ seq => w.TimerStopped r seq
  | _ => True

/-- A `Go` function that keeps a run inert whatever it returns. -/
theorem inert_of_spec {α : Type} {x : Go α}
    (hx : x.spec (fun _ => True) (fun _ _ => True) (fun _ w' => Inert r w.begin w') w.begin) :
    Inert r w ((drop x).run handler w.begin).2 := by
  have hrun : ((drop x).run handler w.begin).2 = (x.run.run handler w.begin).2 := by
    rw [drop, Program.run_bind]
    rfl
  rw [hrun]
  obtain ⟨hev, hrec, hdisp, hchild⟩ := Go.run_of_spec hx
  exact ⟨hev, hrec, hdisp, hchild⟩

theorem respondActivity_closed {token : Nat} {f : ActivityTask → Go Unit}
    (hclosed : w.store.Closed r)
    (hfor : ∀ t, (w.disp.resolveActivityToken token).1 = some t → t.ref = r)
    (hf : ∀ t (w : World), t.ref = r → w.store.Closed r →
      (f t).spec (fun _ => True) (fun _ _ => True) (fun _ w' => Inert r w w') w) :
    (resolveActivityToken token >>= fun
      | none => throw "task token not found"
      | some t => f t : Go Unit).spec (fun _ => True) (fun _ _ => True)
        (fun _ w' => Inert r w w') w := by
  have htaken : SameWork w { w with disp := (w.disp.resolveActivityToken token).2 } := ⟨rfl, rfl⟩
  simp only [Go.spec_bind, Go.spec_resolveActivityToken]
  cases ht : (w.disp.resolveActivityToken token).1 with
  | none => exact htaken.inert r
  | some t =>
    refine Go.spec_mono ?_ _ (hf t _ (hfor t ht) hclosed)
    rintro _ w' ⟨hev, hrec, hdisp, hchild⟩
    exact ⟨hev, hrec, hdisp, hchild⟩

theorem applyCommands_append (r : RunRef) (pre post : List Command) (w : World) :
    ((applyCommands r (pre ++ post)).run.run handler w).2 =
      ((applyCommands r post).run.run handler ((applyCommands r pre).run.run handler w).2).2 := by
  induction pre generalizing w with
  | nil => rfl
  | cons c pre ih => rw [List.cons_append, run_applyCommands_cons, ih, run_applyCommands_cons]

/-- Once a run is closed or purged, no message for it that the engine's checks
stop appends an event, creates a record, dispatches an activity or starts a run,
and neither do the commands of a batch after the one that closed the run. -/
theorem closed_run_inert (fuel : Nat) (r : RunRef) :
    (∀ (w : World) (o : Operation), w.store.Closed r → o.MessageFor w r → o.Stopped w r →
        Inert r w ((system fuel).turn (.whole o) w)) ∧
      ∀ (w : World) (pre post : List Command),
        ((applyCommands r pre).run.run handler w).2.store.Closed r →
        (∀ c ∈ post, c.Harmless ((applyCommands r pre).run.run handler w).2.store r) →
        Inert r ((applyCommands r pre).run.run handler w).2
          ((applyCommands r (pre ++ post)).run.run handler w).2 := by
  refine ⟨fun w o hclosed hfor hstop => ?_, fun w pre post hclosed hpost => ?_⟩
  · cases o with
    | respondWorkflow token cmds =>
      refine inert_of_spec ?_
      simp only [respondWorkflow, Go.spec_bind, Go.spec_completeWorkflowTask]
      have htaken : SameWork w.begin { w.begin with
        disp := (w.disp.completeWorkflowTask token).2 } := ⟨rfl, rfl⟩
      cases ht : (w.begin.disp.completeWorkflowTask token).1 with
      | none => exact htaken.inert r
      | some t =>
        obtain rfl := hfor t ht
        rw [Go.spec_withRun]
        refine Go.spec_mono ?_ _ (applyCommands_closed hclosed hstop)
        intro _ w' h
        exact (htaken.inert t.ref).of_sameWork h
    | respondActivityCompleted token result =>
      refine inert_of_spec (respondActivity_closed hclosed hfor ?_)
      rintro t w rfl hclosed
      exact completeWorkflowActivity_closed hclosed
    | respondActivityFailed token failure =>
      refine inert_of_spec (respondActivity_closed hclosed hfor ?_)
      rintro t w rfl hclosed
      exact completeWorkflowActivity_closed hclosed
    | retryTimer r' seq =>
      obtain rfl : r' = r := hfor
      exact inert_of_spec (retryTimer_stopped hstop)
    | _ => exact hfor.elim
  · rw [applyCommands_append]
    exact (Go.run_of_spec (applyCommands_closed (G := fun _ _ => True) hclosed hpost)).inert r

def signaledAndCompleted : List (System.Turn Operation) :=
  [.whole startRun, .whole (.signal ⟨"n", "wf", some "r"⟩ "s" .null ""),
    .whole (.respondWorkflow 0 [.complete (.ofJson "null" .null)])]

theorem closed_run_inert_completed :
    Inert ⟨"n", "wf", "r"⟩ ((system 1).turns signaledAndCompleted emptyShard)
      ((system 1).turn (.whole (.respondWorkflow 1 [.complete (.ofJson "null" .null)]))
        ((system 1).turns signaledAndCompleted emptyShard)) := by
  refine (closed_run_inert 1 ⟨"n", "wf", "r"⟩).1 _ _ ?_ ?_ ?_
  · intro row hrow
    have hend : ((system 1).turns signaledAndCompleted emptyShard).store.ending
        ⟨"n", "wf", "r"⟩ = some (.completed, some 104) := by decide +kernel
    rw [Store.ending, hrow] at hend
    rw [(Prod.mk.inj (Option.some.inj hend)).1]
    rfl
  · intro t ht
    have href : (((system 1).turns signaledAndCompleted
        emptyShard).disp.completeWorkflowTask 1).1.map (fun t => t.ref) =
        some ⟨"n", "wf", "r"⟩ := by decide +kernel
    rw [ht] at href
    exact Option.some.inj href
  · intro c hc
    obtain rfl := List.mem_singleton.mp hc
    trivial

/-- What a run has: its status, how many events, attempts of the activity `0`,
and runs under the workflow id `child` there are. -/
def World.activity (w : World) (r : RunRef) : Option WorkflowStatus × Nat × Nat × Nat :=
  ((w.store.get (.wf r)).map fun row => row.status, (w.store.events r).length, w.attempts r 0,
    (w.store.rows r.ns "child").length)

def retryableFailure : Raw :=
  .ofJson "\x7b\"v\":1,\"p\":\x7b\"message\":\"m\",\"code\":\"E\"\x7d\x7d"
    (.obj [("v", .num 1), ("p", .obj [("message", .str "m"), ("code", .str "E")])])

/-- A closed run still moves: a batch goes on scheduling and starting children
after the command that completed the run, and a retry timer dispatches an
activity of a run that was terminated while the timer was pending. -/
theorem closed_run_moves :
    (((system 1).turns [.whole startRun, .whole (.respondWorkflow 0
        [.complete (.ofJson "null" .null)])] emptyShard).activity ⟨"n", "wf", "r"⟩ =
      (some .completed, 2, 0, 0) ∧
    ((system 1).turns [.whole startRun, .whole (.respondWorkflow 0
        [.complete (.ofJson "null" .null),
          .scheduleActivity 0 "A" (.ofJson "null" .null) "" 0 0 none])] emptyShard).activity
        ⟨"n", "wf", "r"⟩ = (some .completed, 4, 1, 0) ∧
    ((system 1).turns [.whole startRun, .whole (.respondWorkflow 0
        [.complete (.ofJson "null" .null), .startChild 1 "child" "C" "" .empty []])]
        emptyShard).activity ⟨"n", "wf", "r"⟩ = (some .completed, 3, 0, 1)) ∧
    ((system 1).turns [.whole startRun,
        .whole (.respondWorkflow 0 [.scheduleActivity 0 "A" (.ofJson "null" .null) "" 0 0 none]),
        .whole (.respondActivityFailed 1 retryableFailure),
        .whole (.terminate ⟨"n", "wf", some "r"⟩ "" "")] emptyShard).activity ⟨"n", "wf", "r"⟩ =
      (some .terminated, 4, 1, 0) ∧
    ((system 1).turns [.whole startRun,
        .whole (.respondWorkflow 0 [.scheduleActivity 0 "A" (.ofJson "null" .null) "" 0 0 none]),
        .whole (.respondActivityFailed 1 retryableFailure),
        .whole (.terminate ⟨"n", "wf", some "r"⟩ "" ""),
        .whole (.retryTimer ⟨"n", "wf", "r"⟩ 0)] emptyShard).activity ⟨"n", "wf", "r"⟩ =
      (some .terminated, 5, 2, 0) := by
  decide +kernel

end DurableTasks
