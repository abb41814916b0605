import DurableTasks.Engine.Footprint
import DurableTasks.Engine.Specs

/-!
The task queues an operation uses. Whatever an engine pushes to workers goes to
the queue of a run or of an activity, and those come from a request or from the
store, so an operation uses no queue that neither of the two names.
-/

namespace DurableTasks

open Effects Engine

variable {r : RunRef} {a : StartRequest} {taskQueue : String}

/-- The queue of a run: it is never left empty. -/
def RunQueue (own : String → String → Prop) (ns queue : String) : Prop :=
  queue ≠ "" ∧ own ns queue

/-- The queue of an activity: empty where the run could not be read, and nobody
can subscribe to that. -/
def ActivityQueue (own : String → String → Prop) (ns queue : String) : Prop :=
  queue = "" ∨ own ns queue

theorem RunQueue.activity {own : String → String → Prop} {ns queue : String}
    (h : RunQueue own ns queue) : ActivityQueue own ns queue := .inr h.2

/-- The accesses that write and push queues of `own` only. -/
def Effect.Uses (own : String → String → Prop) : Effect → Prop
  | .write (.put (.wf r) row) => RunQueue own r.ns row.taskQueue
  | .write (.put (.wfact r _) a) => ActivityQueue own r.ns a.taskQueue
  | .enqueueWorkflowTask t => RunQueue own t.ref.ns t.queue
  | .dispatchActivity t _ => ActivityQueue own t.ref.ns t.queue
  | .pushCancelRequest r queue => RunQueue own r.ns queue
  | .pushQuery r queue _ => RunQueue own r.ns queue
  | _ => True

/-- The answers that tell of queues of `own` only. -/
def Effect.Tells (own : String → String → Prop) : (e : Effect) → e.Answer → Prop
  | .get (.wf r), .ok (some row) => RunQueue own r.ns row.taskQueue
  | .get (.wfact r _), .ok (some a) => ActivityQueue own r.ns a.taskQueue
  | .list (.rows ns _), .ok rows => ∀ p ∈ rows, p.1.ns = ns ∧ RunQueue own ns p.2.taskQueue
  | _, _ => True

def Command.Names (own : String → String → Prop) (ns : String) : Command → Prop
  | .scheduleActivity _ _ _ taskQueue _ _ _ => ActivityQueue own ns taskQueue
  | .continueAsNew _ _ taskQueue => ActivityQueue own ns taskQueue
  | .startChild _ _ _ taskQueue _ _ => own ns (if taskQueue = "" then "default" else taskQueue)
  | _ => True

/-- The queues an operation names are in `own`, with `task` the namespace of the
task it answers. Recovery goes over every run there is. -/
def Operation.Names (own : String → String → Prop) (task : Option String) : Operation → Prop
  | .start a => own a.ns a.queue
  | .signalWithStart a _ _ => own a.ns a.queue
  | .respondWorkflow _ cmds => ∀ ns, task = some ns → ∀ c ∈ cmds, c.Names own ns
  | .recover => False
  | _ => True

section Functions

variable {own : String → String → Prop}

abbrev Uses (own : String → String → Prop) {α : Type} (Q : α → Prop) (x : Go α) : Prop :=
  GivenOf (Effect.Tells own) (Effect.Uses own) Q x

def Found (own : String → String → Prop) (ns : String) (p : RunRef × WorkflowExecution) : Prop :=
  p.1.ns = ns ∧ RunQueue own ns p.2.taskQueue

theorem uses_describeWorkflow (t : Target) :
    Uses own (fun found => ∀ p, found = some p → Found own t.ns p)
      (describeWorkflow t) := by
  unfold describeWorkflow
  cases t.run with
  | some run =>
    refine .bind (givenOf_get trivial) fun row hrow => .pure ?_
    intro p hp
    obtain ⟨row', rfl, rfl⟩ := Option.map_eq_some_iff.mp hp
    exact ⟨rfl, hrow⟩
  | none =>
    refine .bind (givenOf_list trivial) fun rows hrows => .pure ?_
    intro p hp
    exact hrows p (currentRun_mem hp)

theorem uses_described {α : Type} {Q : α → Prop} {t : Target}
    {f : Except String (Option (RunRef × WorkflowExecution)) → Go α}
    (herror : ∀ e, Uses own Q (f (.error e))) (hnone : Uses own Q (f (.ok none)))
    (hsome : ∀ c row, Found own t.ns (c, row) → RunQueue own c.ns row.taskQueue →
      Uses own Q (f (.ok (some (c, row))))) :
    Uses own Q (attempt (describeWorkflow t) >>= f) := by
  refine .bind (uses_describeWorkflow t).lift_run fun res hres => ?_
  rcases res with e | _ | ⟨c, row⟩
  · exact herror e
  · exact hnone
  · obtain ⟨hns, hqueue⟩ := hres _ rfl _ rfl
    exact hsome c row ⟨hns, hqueue⟩ (by rwa [← hns] at hqueue)

theorem uses_validName (name : String) : Uses own Any (validName name) := by
  unfold validName
  split_ifs
  · exact .throw _
  · exact .throw _
  · exact .throw _
  · refine .bind (givenOf_call trivial) fun b _ => ?_
    split_ifs
    · exact .pure trivial
    · exact .throw _

theorem uses_registerNamespace (name : String) (n : Namespace) :
    Uses own Any (registerNamespace name n) := by
  unfold registerNamespace
  by_cases h : name = ""
  · rw [if_pos h]
    exact .throw _
  · rw [if_neg h]
    exact .bind (givenOf_call trivial) fun t _ => givenOf_write trivial

theorem uses_namespaceOf (name : String) : Uses own Any (namespaceOf name) := by
  refine .bind (uses_validName name) fun _ _ => .bind (givenOf_get trivial) fun found _ => ?_
  cases found with
  | some n => exact .pure trivial
  | none =>
    refine .bind (uses_registerNamespace name _) fun _ _ =>
      .bind (givenOf_get trivial) fun found _ => ?_
    cases found with
    | some n => exact .pure trivial
    | none => exact .throw _

theorem uses_appendHistory (t : Target) (attrs : EventAttrs) :
    Uses own Any (appendHistory t attrs) :=
  uses_described (fun _ => .throw _) (.throw _) fun _ _ _ hqueue =>
    .bind (givenOf_call trivial) fun _ _ => .bind (givenOf_write trivial) fun _ _ =>
      .bind (givenOf_write hqueue) fun _ _ => .pure trivial

theorem uses_closeRun {row : WorkflowExecution} (h : RunQueue own r.ns row.taskQueue) :
    Uses own Any (closeRun r row) :=
  .bind (givenOf_write h) fun _ _ => givenOf_write trivial

theorem uses_listHistory (r : RunRef) : Uses own Any (listHistory r) := by
  refine .bind (givenOf_list trivial) fun evs _ => ?_
  cases decodeEvents evs with
  | none => exact .throw _
  | some evs => exact .pure trivial

theorem uses_scheduleWorkflowTask (r : RunRef) :
    Uses own Any (scheduleWorkflowTask r) := by
  refine .bind (uses_describeWorkflow r) fun found hfound => ?_
  rcases found with _ | ⟨c, row⟩
  · exact .throw _
  · obtain ⟨-, hqueue⟩ := hfound _ rfl
    dsimp only
    split_ifs
    · exact .pure trivial
    · exact .bind (uses_listHistory r) fun hist _ => givenOf_call hqueue

theorem uses_terminalTransition (t : Target) (status : WorkflowStatus) (attrs : EventAttrs) :
    Uses own (Found own t.ns) (terminalTransition t status attrs) := by
  refine uses_described (fun _ => .throw _) (.throw _) fun c row hfound hqueue => ?_
  dsimp only
  split_ifs
  · exact .pure hfound
  · refine .bind (givenOf_call trivial) fun time _ => .bind (givenOf_write trivial) fun _ _ =>
      .bind (uses_closeRun hqueue) fun _ _ => .bind (uses_appendHistory c attrs) fun _ _ =>
        uses_described (fun _ => .throw _) (.throw _) fun c' row' hfound' _ =>
          .bind (givenOf_reportClose (fun _ _ => trivial) fun _ => trivial) fun _ _ => .pure ?_
    rwa [← hfound.1]

/-! ## Starting -/

theorem uses_recordRequest (ns wf req run : String) :
    Uses own Any (recordRequest ns wf req run) := by
  unfold recordRequest
  split_ifs
  · exact .pure trivial
  · exact .bind (givenOf_write trivial).lift_run fun _ _ => .pure trivial

theorem StartRequest.queue_ne_empty (a : StartRequest) : a.queue ≠ "" := by
  unfold StartRequest.queue
  split_ifs with h
  · decide
  · exact h

theorem uses_createRun (h : own a.ns a.queue) (wf run : String) :
    Uses own (Found own a.ns) (createRun a wf run) := by
  have hqueue : RunQueue own a.ns a.queue := ⟨StartRequest.queue_ne_empty a, h⟩
  refine .bind (givenOf_call trivial) fun t _ => .bind (givenOf_write trivial) fun _ _ =>
    .bind (givenOf_write hqueue) fun _ _ => .bind (uses_recordRequest _ _ _ _) fun _ _ =>
      .bind (uses_appendHistory _ _) fun _ _ =>
        uses_described (fun _ => ?_) ?_ fun _ _ hfound _ => ?_
  · exact .bind (uses_scheduleWorkflowTask _) fun _ _ => .pure ⟨rfl, hqueue⟩
  · exact .bind (uses_scheduleWorkflowTask _) fun _ _ => .pure ⟨rfl, hqueue⟩
  · exact .bind (uses_scheduleWorkflowTask _) fun _ _ => .pure hfound

theorem uses_priorStart (ns wf req : String) :
    Uses own (fun found => ∀ p, found = some p → Found own ns p)
      (priorStart ns wf req) := by
  unfold priorStart
  split_ifs
  · exact .pure (by simp)
  · refine .bind (givenOf_get trivial).lift_run fun res _ => ?_
    rcases res with e | _ | run
    · exact .pure (by simp)
    · exact .pure (by simp)
    · refine .bind (uses_describeWorkflow _).lift_run fun res hres => ?_
      cases res with
      | error e => exact .pure (by simp)
      | ok found => exact .pure (hres found rfl)

theorem uses_resolveWorkflowIdConflict (ns wf : String) (policy : ConflictPolicy) :
    Uses own (fun found => ∀ p, found = some p → Found own ns p)
      (resolveWorkflowIdConflict ns wf policy) := by
  unfold resolveWorkflowIdConflict
  split_ifs
  · exact .pure (by simp)
  · refine uses_described (fun _ => .pure (by simp)) (.pure (by simp)) fun c row hfound _ => ?_
    dsimp only
    split_ifs
    · exact .pure (by simp)
    · cases policy with
      | useExisting =>
        refine .pure fun p hp => ?_
        obtain rfl := Option.some.inj hp
        exact hfound
      | terminateExisting =>
        exact .bind (uses_terminalTransition _ _ _) fun _ _ => .pure (by simp)
      | fail => exact .throw _
      | unset => exact .pure (by simp)
      | unrecognised => exact .pure (by simp)

theorem uses_startFresh (h : own a.ns a.queue) (wf : String) :
    Uses own (Found own a.ns) (startFresh a wf) := by
  refine .bind (Q := Any) ?_ fun run _ => uses_createRun h wf run
  unfold runIdFor
  cases a.runId with
  | none => exact givenOf_call trivial
  | some run => exact .pure trivial

theorem uses_startWorkflowFull (h : own a.ns a.queue) :
    Uses own (Found own a.ns) (startWorkflowFull a) := by
  refine .bind (uses_namespaceOf a.ns) fun _ _ => ?_
  split_ifs
  · exact .throw _
  refine .bind (Q := Any) ?_ fun wf _ => .bind (uses_priorStart a.ns wf _) fun found hfound => ?_
  · unfold workflowIdFor
    split_ifs
    · exact .bind (givenOf_call trivial) fun id _ => .pure trivial
    · exact .pure trivial
  · cases found with
    | some p => exact .pure (hfound p rfl)
    | none =>
      refine .bind (uses_resolveWorkflowIdConflict a.ns wf _) fun found hfound => ?_
      cases found with
      | some p => exact .pure (hfound p rfl)
      | none => exact uses_startFresh h wf

/-! ## Cancelling, signalling, querying and resetting -/

theorem uses_cancelWorkflowWithReason (t : Target) (reason identity : String) :
    Uses own Any (cancelWorkflowWithReason t reason identity) := by
  refine uses_described (fun _ => .throw _) (.throw _) fun c row _ hqueue => ?_
  dsimp only
  split_ifs
  · exact .pure trivial
  · exact .bind (givenOf_call hqueue) fun _ _ => .pure trivial
  refine .bind (uses_appendHistory t _) fun _ _ =>
    uses_described (fun _ => .throw _) (.throw _) fun c' row' _ hqueue' =>
      .bind (givenOf_call trivial) fun b _ => ?_
  split_ifs
  · exact .bind (givenOf_write hqueue') fun _ _ => .bind (givenOf_call trivial) fun _ _ =>
      .bind (givenOf_call hqueue') fun _ _ => .pure trivial
  · exact (uses_terminalTransition t _ _).mono fun _ _ => trivial

theorem uses_ackCanceled (r : RunRef) (reason identity : String) :
    Uses own Any (ackCanceled r reason identity) :=
  .bind (givenOf_call trivial) fun _ _ =>
    (uses_terminalTransition _ _ _).mono fun _ _ => trivial

theorem uses_signalWorkflow (t : Target) (name : String) (payload : Json) (identity : String) :
    Uses own Any (signalWorkflow t name payload identity) := by
  refine uses_described (fun _ => .throw _) (.throw _) fun c row _ _ => ?_
  dsimp only
  split_ifs
  · exact .throw _
  · exact givenOf_withRun trivial trivial (.bind (uses_appendHistory c _) fun _ _ =>
      uses_described (fun _ => .throw _) (.throw _) fun _ _ _ _ => uses_scheduleWorkflowTask c)

theorem uses_queryWorkflow (t : Target) (queryType : String) :
    Uses own Any (queryWorkflow t queryType) := by
  refine uses_described (fun _ => .throw _) (.throw _) fun c row _ hqueue => ?_
  dsimp only
  split_ifs
  · exact .pure trivial
  · refine .bind (givenOf_call hqueue) fun b _ => ?_
    cases b with
    | true => exact .pure trivial
    | false => exact .throw _

theorem uses_startThenSignal (h : own a.ns a.queue) (name : String) (payload : Json) :
    Uses own Any (startThenSignal a name payload) := by
  exact .bind (uses_startWorkflowFull h) fun p _ => .bind (uses_signalWorkflow _ _ _ _) fun _ _ =>
    uses_described (fun _ => .pure trivial) (.pure trivial) fun _ _ _ _ => .pure trivial

theorem uses_signalWithStartFull (h : own a.ns a.queue) (name : String) (payload : Json) :
    Uses own Any (signalWithStartFull a name payload) := by
  have hstart := uses_startThenSignal h name payload
  refine uses_described (fun _ => hstart) hstart fun c row _ _ => ?_
  dsimp only
  split_ifs
  · exact hstart
  · exact .bind (uses_signalWorkflow _ _ _ _) fun _ _ => .pure trivial

theorem uses_updateWorkflowMetadata (t : Target) (m : WorkflowUserMetadata) :
    Uses own Any (updateWorkflowMetadata t m) :=
  uses_described (fun _ => .throw _) (.throw _) fun _ _ _ hqueue =>
    .bind (givenOf_call trivial) fun _ _ => .bind (givenOf_write hqueue) fun _ _ => .pure trivial

theorem uses_copyEvents (r : RunRef) (n : Nat) (events : List HistoryEvent) :
    Uses own Any (copyEvents r n events) := by
  induction events with
  | nil => exact .pure trivial
  | cons ev events ih =>
    unfold copyEvents
    split_ifs
    · exact .pure trivial
    · exact .bind (givenOf_write trivial) fun _ _ => ih

theorem uses_forkRun {src : RunRef} {row : WorkflowExecution}
    (h : RunQueue own src.ns row.taskQueue) (events : List HistoryEvent) (n : Nat)
    (reason identity : String) :
    Uses own Any (forkRun src row events n reason identity) :=
  .bind (givenOf_call trivial) fun _ _ => .bind (givenOf_call trivial) fun _ _ =>
    .bind (givenOf_write trivial) fun _ _ => .bind (givenOf_write h) fun _ _ =>
      .bind (uses_copyEvents _ n events) fun _ _ => .bind (givenOf_write h) fun _ _ =>
        .bind (uses_appendHistory _ _) fun _ _ => .pure trivial

theorem uses_resetWorkflow (t : Target) (eventID : Int) (reason identity : String) :
    Uses own Any (resetWorkflow t eventID reason identity) := by
  refine uses_described (fun _ => .throw _) (.throw _) fun src row _ hqueue => ?_
  dsimp only
  split_ifs
  · exact .throw _
  · exact .bind (uses_listHistory src) fun all _ => .bind (uses_forkRun hqueue _ _ _ _)
      fun fork _ => .bind (givenOf_call trivial) fun time _ => .bind (givenOf_write trivial)
        fun _ _ => .bind (uses_closeRun hqueue).lift_run fun _ _ =>
          .bind (uses_scheduleWorkflowTask fork) fun _ _ =>
            uses_described (fun _ => .throw _) (.throw _) fun _ _ _ _ => .pure trivial

/-! ## Activities and commands -/

theorem uses_putWorkflowActivity {a : WorkflowActivity} (h : ActivityQueue own r.ns a.taskQueue)
    (seq : Int) : Uses own Any (putWorkflowActivity r seq a) := by
  unfold putWorkflowActivity
  split_ifs
  · exact givenOf_write h
  · exact .throw _

theorem uses_dispatchActivityAttempt {a : WorkflowActivity}
    (h : ActivityQueue own r.ns a.taskQueue) (seq : Int) (appendStarted : Bool) :
    Uses own Any (dispatchActivityAttempt r seq a appendStarted) := by
  refine .bind (uses_putWorkflowActivity (a := { a with status := .started }) h seq) fun _ _ =>
    .bind (Q := Any) ?_ fun _ _ => givenOf_call h
  unfold appendStartedMarker
  split_ifs
  · exact .bind (uses_appendHistory r _) fun _ _ => .pure trivial
  · exact .pure trivial

theorem uses_activityQueue (h : ActivityQueue own r.ns taskQueue) :
    Uses own (ActivityQueue own r.ns) (activityQueue r taskQueue) := by
  unfold activityQueue
  split_ifs
  · exact uses_described (fun _ => .pure (.inl rfl)) (.pure (.inl rfl)) fun _ _ hfound _ =>
      .pure hfound.2.activity
  · exact .pure h

theorem uses_applyScheduleActivity (h : ActivityQueue own r.ns taskQueue) (seq : Int)
    (activityType : String) (input : Raw) (startToCloseMs heartbeatMs : Int)
    (rp : Option Temporal.RetryPolicyJSON) :
    Uses own Any (applyScheduleActivity r seq activityType input taskQueue startToCloseMs
      heartbeatMs rp) := by
  refine .bind (givenOf_get trivial) fun found _ => ?_
  cases found with
  | some a => exact .pure trivial
  | none =>
    exact .bind (uses_activityQueue h) fun queue hqueue =>
      .bind (uses_putWorkflowActivity hqueue seq) fun _ _ =>
        .bind (uses_appendHistory r _) fun _ _ => uses_dispatchActivityAttempt hqueue seq true

theorem uses_recordOutcome {a : WorkflowActivity} (h : ActivityQueue own r.ns a.taskQueue)
    (seq : Int) (attrs : EventAttrs) (id : FailureIdentity) :
    Uses own Any (recordOutcome r seq a attrs id) :=
  .bind (uses_putWorkflowActivity h seq) fun _ _ => .bind (uses_appendHistory r attrs) fun _ _ =>
    .bind (givenOf_reportOutcome trivial fun _ => trivial) fun _ _ => uses_scheduleWorkflowTask r

theorem uses_completeWorkflowActivity (r : RunRef) (seq : Int) (result failure : Raw) :
    Uses own Any (completeWorkflowActivity r seq result failure) := by
  refine givenOf_withRun trivial trivial (.bind (givenOf_get trivial) fun found hfound => ?_)
  cases found with
  | none => exact .throw _
  | some a =>
    have hqueue : ActivityQueue own r.ns a.taskQueue := hfound
    have hadvance : ∀ wfe, Uses own Any
        (completeWorkflowActivity.advance r seq result failure wfe a) := by
      intro wfe
      unfold completeWorkflowActivity.advance
      split_ifs
      · exact uses_recordOutcome (by exact hqueue) seq _ _
      · exact .bind (givenOf_call trivial) fun _ _ =>
          .bind (uses_putWorkflowActivity (by exact hqueue) seq) fun _ _ => givenOf_call trivial
      · exact uses_recordOutcome (by exact hqueue) seq _ _
    dsimp only
    split_ifs
    · exact .pure trivial
    refine uses_described (fun _ => hadvance _) (hadvance _) fun _ row _ _ => ?_
    dsimp only
    split_ifs
    · exact .pure trivial
    · exact hadvance _

theorem uses_retryTimer (r : RunRef) (seq : Int) : Uses own Any (retryTimer r seq) := by
  refine .bind (givenOf_call trivial) fun fired _ => ?_
  split_ifs
  · refine givenOf_withRun trivial trivial (.bind (givenOf_get trivial).lift_run fun res hres => ?_)
    rcases res with e | _ | a
    · exact .pure trivial
    · exact .pure trivial
    · have hqueue : ActivityQueue own r.ns a.taskQueue := hres _ rfl
      dsimp only
      split_ifs
      · exact .pure trivial
      · exact uses_dispatchActivityAttempt hqueue seq true
  · exact .pure trivial

theorem uses_decodeInput (what : String) (input : Raw) :
    Uses own Any (decodeInput what input) := by
  unfold decodeInput
  split_ifs
  · exact .pure trivial
  · cases input.json.bind Json.throughAny with
    | some j => exact .pure trivial
    | none => exact .throw _

theorem uses_applyContinueAsNew (h : ActivityQueue own r.ns taskQueue) (input : Raw)
    (workflowType : String) : Uses own Any (applyContinueAsNew r input workflowType taskQueue) := by
  refine .bind (uses_describeWorkflow r) fun found hfound => ?_
  rcases found with _ | ⟨c, cur⟩
  · exact .pure trivial
  · obtain ⟨-, hcur⟩ : Found own r.ns (c, cur) := hfound _ rfl
    dsimp only
    split_ifs
    · exact .pure trivial
    refine .bind (uses_decodeInput _ input) fun args _ => .bind (givenOf_call trivial)
      fun newRun _ => .bind (uses_terminalTransition _ _ _) fun _ _ =>
        .bind (uses_startWorkflowFull ?_) fun _ _ => .pure trivial
    by_cases hnone : taskQueue = ""
    · simpa [StartRequest.queue, successorOf, hnone, hcur.1] using hcur.2
    · simpa [StartRequest.queue, successorOf, hnone] using h.resolve_left hnone

theorem uses_applyStartChild (h : own r.ns (if taskQueue = "" then "default" else taskQueue))
    (seq : Int) (childWfId childType : String) (input : Raw) (searchAttrs : List (String × Json)) :
    Uses own Any
      (applyStartChild r seq childWfId childType taskQueue input searchAttrs) := by
  unfold applyStartChild
  by_cases htype : childType = ""
  · rw [if_pos htype]
    exact .throw _
  rw [if_neg htype]
  refine .bind (Q := Any) ?_ fun recorded _ => ?_
  · refine .bind (uses_listHistory r).lift_run fun res _ => ?_
    cases res with
    | ok evs => exact .pure trivial
    | error e => exact .pure trivial
  · cases recorded with
    | true => exact .pure trivial
    | false =>
      refine .bind (uses_decodeInput _ input) fun args _ => .bind (Q := Any) ?_ fun wf _ =>
        .bind (uses_startWorkflowFull h) fun p _ => .bind (uses_appendHistory r _) fun _ _ =>
          uses_scheduleWorkflowTask r
      unfold childWorkflowIdFor
      split_ifs
      · exact .bind (givenOf_call trivial) fun id _ => .pure trivial
      · exact .pure trivial

theorem uses_applyCommand {c : Command} (h : c.Names own r.ns) :
    Uses own Any (applyCommand r c) := by
  cases c with
  | complete result => exact .bind (uses_terminalTransition _ _ _) fun _ _ => .pure trivial
  | fail failure => exact .bind (uses_terminalTransition _ _ _) fun _ _ => .pure trivial
  | scheduleActivity seq activityType input taskQueue startToCloseMs heartbeatMs rp =>
    exact uses_applyScheduleActivity h seq activityType input startToCloseMs heartbeatMs rp
  | canceled failure => exact .bind (uses_ackCanceled r _ _) fun _ _ => .pure trivial
  | continueAsNew input workflowType taskQueue => exact uses_applyContinueAsNew h input workflowType
  | startChild seq childWfId childType taskQueue input searchAttrs =>
    exact uses_applyStartChild h seq childWfId childType input searchAttrs

theorem uses_applyCommands {cmds : List Command} (h : ∀ c ∈ cmds, c.Names own r.ns) :
    Uses own Any (withRun r (applyCommands r cmds)) := by
  refine givenOf_withRun trivial trivial (.forM fun c hc => ?_)
  exact .bind (uses_applyCommand (h c hc)).lift_run fun _ _ => .pure trivial

theorem uses_purgeWorkflowRun (r : RunRef) (cutoff : Nat) :
    Uses own Any (purgeWorkflowRun r cutoff) :=
  givenOf_purgeWorkflowRun trivial trivial trivial (fun _ _ _ => trivial) fun _ => trivial

end Functions

/-- An operation uses no queue but those it names and those it finds stored. What
the answer to a workflow task names depends on the task. -/
theorem uses_program {own : String → String → Prop} {fuel : Nat} {o : Operation}
    {task : Option String} (h : o.Names own task)
    (ho : ∀ token cmds, o ≠ .respondWorkflow token cmds) :
    (program fuel o).Given (Effect.Tells own) (Effect.Uses own) Any := by
  have hdrop : ∀ {α : Type} {Q : α → Prop} {x : Go α}, Uses own Q x →
      (drop x).Given (Effect.Tells own) (Effect.Uses own) Any := fun hx =>
    Program.Given.bind hx fun _ _ => trivial
  cases o with
  | registerNamespace name n => exact hdrop (uses_registerNamespace name n)
  | start a => exact hdrop (uses_startWorkflowFull h)
  | signalWithStart a name payload => exact hdrop (uses_signalWithStartFull h name payload)
  | signal t name payload identity => exact hdrop (uses_signalWorkflow t name payload identity)
  | cancel t reason identity => exact hdrop (uses_cancelWorkflowWithReason t reason identity)
  | terminate t reason identity => exact hdrop (uses_terminalTransition t _ _)
  | updateMetadata t m => exact hdrop (uses_updateWorkflowMetadata t m)
  | reset t eventID reason identity => exact hdrop (uses_resetWorkflow t eventID reason identity)
  | respondWorkflow token cmds => exact absurd rfl (ho token cmds)
  | respondActivityCompleted token result =>
    refine hdrop (Q := Any) (.bind (givenOf_call trivial) fun found _ => ?_)
    cases found with
    | none => exact .throw _
    | some t => exact uses_completeWorkflowActivity t.ref t.seq result .empty
  | respondActivityFailed token failure =>
    refine hdrop (Q := Any) (.bind (givenOf_call trivial) fun found _ => ?_)
    cases found with
    | none => exact .throw _
    | some t => exact uses_completeWorkflowActivity t.ref t.seq .empty failure
  | retryTimer r seq => exact hdrop (uses_retryTimer r seq)
  | sweepCanceling expired =>
    refine hdrop (Q := Any) (.forM fun r _ => ?_)
    exact .bind (uses_ackCanceled r _ _).lift_run fun _ _ => .pure trivial
  | purge r cutoff => exact hdrop (uses_purgeWorkflowRun r cutoff)
  | subscribe ns queue => exact hdrop (givenOf_call trivial)
  | unsubscribe ns queue => exact hdrop (givenOf_call trivial)
  | recover => exact h.elim

end DurableTasks
