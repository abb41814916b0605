import DurableTasks.Engine.Workflow

/-!
The durable activity core, the command batch of a workflow task, crash
recovery and the retention purge of one run.

The backoff before a retry and the time a cancel mark takes to expire are left
open: a timer may fire and a mark expire at any later point.
-/

namespace DurableTasks.Engine

open Temporal (RetryPolicyJSON effectiveRetryPolicy decode)

/-! ## Activities -/

/-- `putWorkflowActivity`: a record whose raw fields are not JSON does not
marshal and is not written. -/
def putWorkflowActivity (r : RunRef) (seq : Int) (a : WorkflowActivity) : Go Unit :=
  if a.storable then put (.wfact r seq) a
  else throw "store.put: marshal: invalid json.RawMessage"

def appendStartedMarker (r : RunRef) (seq : Int) (a : WorkflowActivity) (appendStarted : Bool) :
    Go Unit :=
  if appendStarted then do
    let _ ← appendHistory r (.activityStarted seq a.activityID a.attempt)
  else return ()

/-- `dispatchActivityAttempt`: the record is marked started, the attempt noted,
and the task handed to the dispatcher. -/
def dispatchActivityAttempt (r : RunRef) (seq : Int) (a : WorkflowActivity)
    (appendStarted : Bool) : Go Unit := do
  let a := { a with status := .started }
  putWorkflowActivity r seq a
  appendStartedMarker r seq a appendStarted
  dispatchActivity
    { ref := r, seq := seq, queue := a.taskQueue, activityID := a.activityID
      activityType := a.activityType, input := a.input
      startToCloseMs := a.startToCloseMs, heartbeatMs := a.heartbeatMs } a.attempt

def activityQueue (r : RunRef) (taskQueue : String) : Go String :=
  if taskQueue = "" then do
    match ← attempt (describeWorkflow r) with
    | .ok (some (_, row)) => return row.taskQueue
    | _ => return ""
  else return taskQueue

def scheduledActivity (r : RunRef) (seq : Int) (activityType : String) (input : Raw)
    (queue : String) (startToCloseMs heartbeatMs : Int) (rp : Option RetryPolicyJSON) :
    WorkflowActivity :=
  { activityID := wfActivityID r.run seq, activityType := activityType, input := input
    taskQueue := queue, status := .scheduled, attempt := 1
    startToCloseMs := startToCloseMs, heartbeatMs := heartbeatMs, retryPolicy := rp }

/-- `applyScheduleActivity`: idempotent per `(run, seq)`. The run's status is
not looked at. -/
def applyScheduleActivity (r : RunRef) (seq : Int) (activityType : String) (input : Raw)
    (taskQueue : String) (startToCloseMs heartbeatMs : Int) (rp : Option RetryPolicyJSON) :
    Go Unit := do
  match ← getWorkflowActivity r seq with
  | some _ => return ()
  | none => do
      let queue ← activityQueue r taskQueue
      let a := scheduledActivity r seq activityType input queue startToCloseMs heartbeatMs rp
      putWorkflowActivity r seq a
      let _ ← appendHistory r
        (.activityScheduled seq a.activityID activityType input.value queue rp 1)
      dispatchActivityAttempt r seq a true

def activityFailureIdentity (wfe : Option WorkflowExecution) (r : RunRef) (a : WorkflowActivity) :
    FailureIdentity :=
  { ns := r.ns, activityType := a.activityType
    workflowType := (wfe.map WorkflowExecution.type).getD ""
    taskQueue := if a.taskQueue = "" then (wfe.map WorkflowExecution.taskQueue).getD ""
      else a.taskQueue
    scheduleId := (wfe.map scheduleOf).getD "", workflowId := r.wf, runId := r.run
    attempt := a.attempt }

def reportOutcome (id : FailureIdentity) (status : ActivityStatus) : Go Unit :=
  if status = .completed then clearFailure id else recordFailure id false

/-- The terminal outcome of an activity: record, event, report, and a workflow
task. -/
def recordOutcome (r : RunRef) (seq : Int) (a : WorkflowActivity) (attrs : EventAttrs)
    (id : FailureIdentity) : Go Unit := do
  putWorkflowActivity r seq a
  let _ ← appendHistory r attrs
  reportOutcome id a.status
  scheduleWorkflowTask r

/-- `completeWorkflowActivity`: the outcome of the activity dispatched for
`(run, seq)`. Empty `failure` bytes mean it succeeded; a failure is retried as
the policy allows. -/
def completeWorkflowActivity (r : RunRef) (seq : Int) (result failure : Raw) : Go Unit :=
  withRun r do
    match ← getWorkflowActivity r seq with
    | none => throw s!"activity (run={r.run} seq={seq}) not found"
    | some a =>
      if a.isTerminal then return ()
      else do
        match ← attempt (describeWorkflow r) with
        | .ok (some (_, row)) =>
          if row.status.isTerminal then return () else advance (some row) a
        | _ => advance none a
where
  advance (wfe : Option WorkflowExecution) (a : WorkflowActivity) : Go Unit :=
    if failure.isEmpty then
      recordOutcome r seq { a with status := .completed, result := result }
        (.activityCompleted seq a.activityID result.value) (activityFailureIdentity wfe r a)
    else if (effectiveRetryPolicy a.retryPolicy).shouldRetry (decode failure) a.attempt then do
      recordFailure (activityFailureIdentity wfe r a) true
      putWorkflowActivity r seq
        { a with attempt := a.attempt + 1, status := .scheduled, failure := failure }
      afterFunc r seq
    else
      recordOutcome r seq { a with status := .failed, failure := failure }
        (.activityFailed seq a.activityID failure.value) (activityFailureIdentity wfe r a)

/-- The retry timer of `(run, seq)`, as `scheduleActivityRetry` arms it. It
fires only once armed; the run's status is not looked at. -/
def retryTimer (r : RunRef) (seq : Int) : Go Unit := do
  if ← fire r seq then
    withRun r do
      match ← attempt (getWorkflowActivity r seq) with
      | .ok (some a) =>
        if a.isTerminal then return ()
        else dispatchActivityAttempt r seq a true
      | _ => return ()
  else return ()

/-! ## The command batch -/

/-- Input bytes decoded into `any`: nothing at all reads as nil. -/
def decodeInput (what : String) (input : Raw) : Go Json :=
  if input.isEmpty then return .null
  else
    match input.json.bind Json.throughAny with
    | some j => return j
    | none => throw s!"{what}: decode input"

def successorOf (r : RunRef) (cur : WorkflowExecution) (args : Json)
    (workflowType taskQueue newRun : String) : StartRequest :=
  { ns := r.ns, workflowId := r.wf, runId := some newRun
    type := if workflowType = "" then cur.type else workflowType
    taskQueue := if taskQueue = "" then cur.taskQueue else taskQueue
    input := args, searchAttrs := cur.searchAttrs, memo := cur.memo }

/-- `applyContinueAsNew`: close the run, then start its successor under the
same workflow id. -/
def applyContinueAsNew (r : RunRef) (input : Raw) (workflowType taskQueue : String) :
    Go Unit := do
  match ← describeWorkflow r with
  | none => return ()
  | some (_, cur) =>
    if cur.status.isTerminal then return ()
    else do
      let args ← decodeInput "continueAsNew" input
      let newRun ← newRunId
      let _ ← terminalTransition r .continuedAsNew (.continuedAsNew newRun)
      let _ ← startWorkflowFull (successorOf r cur args workflowType taskQueue newRun)

def HistoryEvent.startsChild (seq : Int) (ev : HistoryEvent) : Bool :=
  match ev.attrs with
  | .childStarted s _ _ => s = seq
  | _ => false

/-- `childStartRecorded`: a history that does not decode reads as no. -/
def childStartRecorded (r : RunRef) (seq : Int) : Go Bool := do
  match ← attempt (listHistory r) with
  | .ok evs => return evs.any fun p => HistoryEvent.startsChild seq p.2
  | .error _ => return false

def childWorkflowIdFor (childWfId childType : String) : Go String :=
  if childWfId = "" then do
    let id ← newRunId
    return childType ++ "-child-" ++ String.ofList (id.toList.take 12)
  else return childWfId

/-- `applyStartChild`: a detached child, at most one per `(run, seq)`. The
parent's status is not looked at. -/
def applyStartChild (r : RunRef) (seq : Int) (childWfId childType taskQueue : String)
    (input : Raw) (searchAttrs : List (String × Json)) : Go Unit :=
  if childType = "" then throw "startChild: child workflow type required"
  else do
    if ← childStartRecorded r seq then return ()
    else do
      let args ← decodeInput "startChild" input
      let wf ← childWorkflowIdFor childWfId childType
      let (child, _) ← startWorkflowFull
        { ns := r.ns, workflowId := wf, type := childType, taskQueue := taskQueue
          input := args, searchAttrs := searchAttrs, conflictPolicy := .useExisting }
      let _ ← appendHistory r (.childStarted seq child.wf child.run)
      scheduleWorkflowTask r

def applyCommand (r : RunRef) : Command → Go Unit
  | .complete result => do
      let _ ← terminalTransition r .completed (.workflowCompleted result.text)
  | .fail failure => do
      let _ ← terminalTransition r .failed (.workflowFailed failure.text)
  | .scheduleActivity seq activityType input taskQueue startToCloseMs heartbeatMs rp =>
    applyScheduleActivity r seq activityType input taskQueue startToCloseMs heartbeatMs rp
  | .canceled failure => do
      let _ ← ackCanceled r failure.text ""
  | .continueAsNew input workflowType taskQueue =>
    applyContinueAsNew r input workflowType taskQueue
  | .startChild seq childWfId childType taskQueue input searchAttrs =>
    applyStartChild r seq childWfId childType taskQueue input searchAttrs

/-- The whole batch, in order. An error of one command is dropped and the next
one is applied. -/
def applyCommands (r : RunRef) (cmds : List Command) : Go Unit :=
  cmds.forM fun c => do
    let _ ← attempt (applyCommand r c)

theorem run_applyCommands_cons {W : Type} (h : Effects.Handler Effect Effect.Answer W) (r : RunRef)
    (c : Command) (cmds : List Command) (w : W) :
    (applyCommands r (c :: cmds)).run.run h w =
      (applyCommands r cmds).run.run h ((applyCommand r c).run.run h w).2 := by
  change (((attempt (applyCommand r c) >>= fun _ => pure ()) >>= fun _ =>
    applyCommands r cmds : Go Unit).run).run h w = _
  simp only [bind_assoc, pure_bind, attempt, ExceptT.run_bind, ExceptT.run_lift,
    map_eq_pure_bind, Effects.Program.run_bind, Effects.Program.pure_eq, Effects.Program.run_done]

/-- `respondWorkflowHandler`: a response to a workflow task. -/
def respondWorkflow (token : Nat) (cmds : List Command) : Go Unit := do
  match ← completeWorkflowTask token with
  | none => throw "task token not found"
  | some t => withRun t.ref (applyCommands t.ref cmds)

def respondActivityCompleted (token : Nat) (result : Raw) : Go Unit := do
  match ← resolveActivityToken token with
  | none => throw "task token not found"
  | some t => completeWorkflowActivity t.ref t.seq result .empty

def respondActivityFailed (token : Nat) (failure : Raw) : Go Unit := do
  match ← resolveActivityToken token with
  | none => throw "task token not found"
  | some t => completeWorkflowActivity t.ref t.seq .empty failure

/-! ## Recovery -/

def indexPage : Nat := 1024

def indexRows (rows : List (RunRef × WorkflowExecution)) : Go Unit :=
  rows.forM fun p => if p.2.status.isTerminal then return () else openRun p.1

/-- The walk of `indexOpenRuns`, a page at a time, for at most `fuel` pages. -/
def indexPages (ns : String) : Nat → Option RunRef → Go Unit
  | 0, _ => throw "index walk cut short"
  | fuel + 1, after => do
      let rows ← page ns after indexPage
      indexRows rows
      if rows.length < indexPage then return ()
      else indexPages ns fuel ((rows.getLast?.map Prod.fst).or after)

/-- `indexOpenRuns`: build the open-run index of a namespace, once. -/
def indexOpenRuns (fuel : Nat) (ns : String) : Go Unit := do
  match ← getIndexed ns with
  | some _ => return ()
  | none => do
      indexPages ns fuel none
      let t ← now
      put (.wfidx ns) t

def redispatch (r : RunRef) (acts : List (Int × WorkflowActivity)) : Go Unit :=
  acts.forM fun p =>
    if p.2.isTerminal then return () else dispatchActivityAttempt r p.1 p.2 false

def recoverRun (r : RunRef) : Go Unit :=
  withRun r do
    match ← describeWorkflow r with
    | none => del (.wfopen r)
    | some (_, row) =>
      if row.status.isTerminal then del (.wfopen r)
      else do
        let acts ← listWorkflowActivities r
        redispatch r acts
        scheduleWorkflowTask r

/-- The body of `Recover`'s loop: index the namespace, then drive its open
runs. -/
def recoverNamespace (fuel : Nat) (ns : String) : Go Unit := do
  indexOpenRuns fuel ns
  let refs ← listOpen ns
  refs.forM recoverRun

/-- `Recover`: the first namespace or run that fails ends it. -/
def recover (fuel : Nat) : Go Unit := do
  let names ← listNamespaces
  names.forM (recoverNamespace fuel)

/-! ## Retention -/

def closedAt (row : WorkflowExecution) : Nat := row.closeTime.getD row.startTime

def delAll (keys : List Key) : Go Unit := keys.forM del

def triggerKeys (r : RunRef) (sid : String) : Go (List Key) :=
  if sid = "" then return []
  else do
    let trigs ← listTriggers r.ns sid
    return (trigs.filter fun p => p.2.1 = r.wf ∧ p.2.2 = r.run).map
      fun p => .sctrig r.ns sid p.1

/-- `purgeWorkflowRun`: remove a closed run and every key of it, its row
last. -/
def purgeWorkflowRun (r : RunRef) (cutoff : Nat) : Go Bool :=
  withRun r do
    match ← describeWorkflow r with
    | none => return false
    | some (_, row) =>
      if row.isOpen ∨ cutoff < closedAt row then return false
      else do
        let evs ← listEvents r
        let acts ← listWorkflowActivities r
        let reqs ← listRequests r.ns r.wf
        let trigs ← triggerKeys r (scheduleOf row)
        delAll
          (evs.map (fun p => .wfh r p.1) ++ acts.map (fun p => .wfact r p.1) ++
            (reqs.filter fun p => p.2 = r.run).map (fun p => .idem r.ns r.wf p.1) ++
            trigs ++ [.wfopen r, .wf r])
        return true

end DurableTasks.Engine
