import DurableTasks.Engine.Basic

/-!
The workflow engine: describing, starting, cancelling, terminating, signalling
and resetting a run, and the history every one of them appends to.

Live updates to subscribers are not modelled: they read and write no key of a
run.
-/

namespace DurableTasks.Engine

/-! ## Namespaces -/

/-- `ValidName`: the name is a legal shard segment exactly as written. -/
def validName (name : String) : Go Unit :=
  if name = "" then throw "store: name required"
  else if name = "_" then
    throw s!"store: {name} is the unset-leg sentinel and cannot name a tenant"
  else if '\x00' ∈ name.toList then throw s!"store: name {name} contains a NUL"
  else do
    if ← isOrg name then return ()
    else throw s!"store: {name} cannot name a shard"

def defaultRetention : String := "720h"

/-- The row `RegisterNamespace` writes at the time `t`: a field left empty takes
its default. -/
def registeredRow (n : Namespace) (t : Nat) : Namespace :=
  let state := if n.state = "" then "NAMESPACE_STATE_REGISTERED" else n.state
  { n with
    state := state
    createTime := some (n.createTime.getD t)
    retention := if n.retention = "" then defaultRetention else n.retention
    apsLimit := if n.apsLimit = 0 then 400 else n.apsLimit
    region := if n.region = "" then "embedded" else n.region
    isActive := state = "NAMESPACE_STATE_REGISTERED" }

def registerNamespace (name : String) (n : Namespace) : Go Unit :=
  if name = "" then throw "namespace name required"
  else do
    let t ← now
    put (.ns name) (registeredRow n t)

/-- `namespace`: the registry row of a namespace, registered on first use. -/
def namespaceOf (name : String) : Go Namespace := do
  validName name
  match ← describeNamespace name with
  | some n => return n
  | none => do
      registerNamespace name {}
      match ← describeNamespace name with
      | some n => return n
      | none => throw s!"namespace {name} vanished after registration"

/-! ## Rows and history -/

/-- Whether run `a` is a more current execution than `b` of the same workflow
id: an open run outranks a closed one, a continued-as-new run comes last, then
the later start wins, and the run id breaks a tie. -/
def moreCurrentRun (a b : RunRef × WorkflowExecution) : Bool :=
  let aTerm := a.2.status.isTerminal
  let bTerm := b.2.status.isTerminal
  if aTerm ≠ bTerm then !aTerm
  else
    let aCAN := decide (a.2.status = .continuedAsNew)
    let bCAN := decide (b.2.status = .continuedAsNew)
    if aCAN ≠ bCAN then !aCAN
    else if a.2.startTime ≠ b.2.startTime then b.2.startTime < a.2.startTime
    else b.1.run < a.1.run

def currentRun : List (RunRef × WorkflowExecution) → Option (RunRef × WorkflowExecution)
  | [] => none
  | first :: rest =>
    some (rest.foldl (fun best p => if moreCurrentRun p best then p else best) first)

/-- `DescribeWorkflow`: the run the target names, with its row. -/
def describeWorkflow (t : Target) : Go (Option (RunRef × WorkflowExecution)) :=
  match t.run with
  | some run => do
      let row ← getRow ⟨t.ns, t.wf, run⟩
      return row.map (Prod.mk ⟨t.ns, t.wf, run⟩)
  | none => do
      let rows ← listRows t.ns t.wf
      return currentRun rows

def notFound (t : Target) : String :=
  let run := t.run.getD ""
  s!"workflow {t.ns}/{t.wf}/{run} not found"

/-- `appendHistory`: the event first, then the row that counts it. -/
def appendHistory (target : Target) (attrs : EventAttrs) : Go HistoryEvent := do
  match ← attempt (describeWorkflow target) with
  | .ok (some (c, row)) => do
      let t ← now
      let ev : HistoryEvent :=
        { eventId := row.historyLen + 1, eventTime := t, attrs := attrs }
      put (.wfh c ev.eventId) ev
      put (.wf c) { row with historyLen := row.historyLen + 1 }
      return ev
  | _ => throw (notFound target)

/-- `openRun`: the index entry, written ahead of the run's first row. -/
def openRun (r : RunRef) : Go Unit := put (.wfopen r) ()

/-- `closeRun`: the closing row, then the run is dropped from the index. -/
def closeRun (r : RunRef) (row : WorkflowExecution) : Go Unit := do
  put (.wf r) row
  del (.wfopen r)

/-- Events as a reader decodes them; one that does not decode fails the read. -/
def decodeEvents : List (Nat × HistoryEvent) → Option (List (Nat × HistoryEvent))
  | [] => some []
  | (id, ev) :: rest => do return (id, ← ev.throughAny) :: (← decodeEvents rest)

def listHistory (r : RunRef) : Go (List (Nat × HistoryEvent)) := do
  let evs ← listEvents r
  match decodeEvents evs with
  | some evs => return evs
  | none => throw "json: cannot unmarshal number into Go value of type float64"

/-- `scheduleWorkflowTask`: enqueue a task carrying the run's full history,
unless the run is closed. -/
def scheduleWorkflowTask (r : RunRef) : Go Unit := do
  match ← describeWorkflow r with
  | none => throw (notFound r)
  | some (_, row) =>
    if row.status.isTerminal then return ()
    else do
      let hist ← listHistory r
      enqueueWorkflowTask
        { ref := r, queue := row.taskQueue, workflowType := row.type
          history := hist.map Prod.snd }

def closedRow (row : WorkflowExecution) (status : WorkflowStatus) (t : Nat) : WorkflowExecution :=
  { row with status := status, closeTime := some t }

/-- `scheduleIDOf`: the schedule a run was triggered by, if it was. -/
def scheduleOf (row : WorkflowExecution) : String :=
  match (Json.obj row.searchAttrs).field "ScheduleId" with
  | some (.str sid) => sid
  | _ => ""

def workflowFailureIdentity (r : RunRef) (row : WorkflowExecution) : FailureIdentity :=
  { ns := r.ns, workflowType := row.type, taskQueue := row.taskQueue, scheduleId := scheduleOf row
    workflowId := r.wf, runId := r.run }

/-- The report of a close. A run that was cancelled or terminated neither failed
nor succeeded. -/
def reportClose (r : RunRef) (row : WorkflowExecution) (status : WorkflowStatus) : Go Unit :=
  match status with
  | .failed => recordFailure (workflowFailureIdentity r row) false
  | .completed => clearFailure (workflowFailureIdentity r row)
  | _ => return ()

/-- `terminalTransition`: close an open run, then append its terminal event. A
run already closed is left as it is. -/
def terminalTransition (target : Target) (status : WorkflowStatus) (attrs : EventAttrs) :
    Go (RunRef × WorkflowExecution) := do
  match ← attempt (describeWorkflow target) with
  | .ok (some (c, row)) =>
    if row.status.isTerminal then return (c, row)
    else do
      let t ← now
      write (.close c (.event status attrs))
      closeRun c (closedRow row status t)
      let _ ← appendHistory c attrs
      match ← attempt (describeWorkflow c) with
      | .ok (some p) => do
          reportClose p.1 p.2 status
          return p
      | _ => throw nilDereference
  | _ => throw (notFound target)

/-! ## Starting -/

inductive ConflictPolicy where
  | unset
  | useExisting
  | terminateExisting
  | fail
  | unrecognised
deriving DecidableEq

structure StartRequest where
  ns : String
  workflowId : String := ""
  runId : Option String := none
  type : String
  taskQueue : String := ""
  input : Json := .null
  requestID : String := ""
  searchAttrs : List (String × Json) := []
  memo : Json := .null
  conflictPolicy : ConflictPolicy := .unset

def terminateWorkflowWithReason (target : Target) (reason identity : String) :
    Go (RunRef × WorkflowExecution) :=
  terminalTransition target .terminated (.workflowTerminated reason identity)

/-- The run an earlier start under the same request id made. -/
def priorStart (ns wf requestID : String) : Go (Option (RunRef × WorkflowExecution)) :=
  if requestID = "" then return none
  else do
    match ← attempt (lookupIdempotency ns wf requestID) with
    | .ok (some run) =>
      match ← attempt (describeWorkflow ⟨ns, wf, if run = "" then none else some run⟩) with
      | .ok found => return found
      | .error _ => return none
    | _ => return none

/-- `resolveWorkflowIdConflict`: `some` is the live run to answer with, `none`
to go on with a fresh run. -/
def resolveWorkflowIdConflict (ns wf : String) (policy : ConflictPolicy) :
    Go (Option (RunRef × WorkflowExecution)) :=
  if policy = .unset then return none
  else do
    match ← attempt (describeWorkflow ⟨ns, wf, none⟩) with
    | .ok (some (c, row)) =>
      if row.status.isTerminal then return none
      else
        match policy with
        | .useExisting => return some (c, row)
        | .terminateExisting => do
            let _ ← terminateWorkflowWithReason c
              "superseded by workflow-id conflict policy" "engine"
            return none
        | .fail => throw s!"workflow {wf} already running (conflict policy FAIL)"
        | _ => return none
    | _ => return none

/-- `idem/` remembers which run a request started; a failed write is ignored. -/
def recordRequest (ns wf requestID run : String) : Go Unit :=
  if requestID = "" then return ()
  else do
    let _ ← attempt (put (.idem ns wf requestID) run)

def StartRequest.queue (a : StartRequest) : String :=
  if a.taskQueue = "" then "default" else a.taskQueue

def StartRequest.row (a : StartRequest) (t : Nat) : WorkflowExecution :=
  { type := a.type, startTime := t, taskQueue := a.queue, memo := a.memo
    searchAttrs := a.searchAttrs, input := a.input }

/-- The part of a start that writes: index entry, row, request id, first event
and first workflow task, in this order. -/
def createRun (a : StartRequest) (wf run : String) : Go (RunRef × WorkflowExecution) := do
  let r : RunRef := ⟨a.ns, wf, run⟩
  let t ← now
  let row := a.row t
  openRun r
  put (.wf r) row
  recordRequest a.ns wf a.requestID run
  let _ ← appendHistory r (.workflowStarted a.type a.queue a.input)
  let reloaded ← attempt (describeWorkflow r)
  scheduleWorkflowTask r
  match reloaded with
  | .ok (some p) => return p
  | _ => return (r, row)

def workflowIdFor (a : StartRequest) : Go String :=
  if a.workflowId = "" then do
    let id ← newRunId
    return a.type.toLower ++ "-" ++ String.ofList (id.toList.take 8)
  else return a.workflowId

def runIdFor (a : StartRequest) : Go String :=
  match a.runId with
  | none => newRunId
  | some run => return run

def startFresh (a : StartRequest) (wf : String) : Go (RunRef × WorkflowExecution) := do
  let run ← runIdFor a
  createRun a wf run

/-- A start under a workflow id: answered by an earlier request or a live run,
or else by a fresh run. -/
def startUnder (a : StartRequest) (wf : String) : Go (RunRef × WorkflowExecution) := do
  match ← priorStart a.ns wf a.requestID with
  | some p => return p
  | none =>
    match ← resolveWorkflowIdConflict a.ns wf a.conflictPolicy with
    | some p => return p
    | none => startFresh a wf

def startWorkflowFull (a : StartRequest) : Go (RunRef × WorkflowExecution) := do
  let _ ← namespaceOf a.ns
  if a.type = "" then throw "workflow type required"
  else do
    let wf ← workflowIdFor a
    startUnder a wf

/-! ## Cancelling and signalling -/

/-- `CancelWorkflowWithReason`. No lock is taken, and the row is not looked at
for a terminal status again after the request is recorded. -/
def cancelWorkflowWithReason (target : Target) (reason identity : String) :
    Go (RunRef × WorkflowExecution) := do
  match ← attempt (describeWorkflow target) with
  | .ok (some (c, row)) =>
    if row.status.isTerminal then return (c, row)
    else if row.status = .canceling then do
      pushCancelRequest c row.taskQueue
      return (c, row)
    else do
      let _ ← appendHistory target (.cancelRequested reason identity)
      match ← attempt (describeWorkflow target) with
      | .ok (some (c, row)) => do
          if ← hasSubscribers target.ns row.taskQueue then do
            put (.wf c) { row with status := .canceling }
            mark c
            pushCancelRequest c row.taskQueue
            return (c, { row with status := .canceling })
          else terminalTransition target .canceled (.workflowCanceled reason identity)
      | _ => throw nilDereference
  | _ => throw (notFound target)

def ackCanceled (r : RunRef) (reason identity : String) : Go (RunRef × WorkflowExecution) := do
  clear r
  terminalTransition r .canceled (.workflowCanceled reason identity)

/-- `sweepCanceling`, over the marks that have expired. -/
def sweepCanceling (expired : List RunRef) : Go Unit :=
  expired.forM fun r => do
    let _ ← attempt (ackCanceled r "sweep:cancel-timeout" "engine")

def signalWorkflow (target : Target) (name : String) (payload : Json) (identity : String) :
    Go Unit := do
  match ← attempt (describeWorkflow target) with
  | .ok (some (c, row)) =>
    if row.status.isTerminal then throw s!"workflow not running: status={row.status.name}"
    else
      withRun c do
        let _ ← appendHistory c (.signaled name payload identity)
        match ← attempt (describeWorkflow c) with
        | .ok (some _) => scheduleWorkflowTask c
        | _ => throw nilDereference
  | _ => throw "workflow not found"

/-- `QueryWorkflowCtx` up to the answer of the worker. Two queries are answered
from the row. -/
def queryWorkflow (target : Target) (queryType : String) : Go Unit := do
  match ← attempt (describeWorkflow target) with
  | .ok (some (c, row)) =>
    if queryType = "__stack_trace" ∨ queryType = "__workflow_metadata" then return ()
    else if ← pushQuery c row.taskQueue queryType then return ()
    else throw "no workers subscribed to task queue"
  | _ => throw "workflow not found"

/-- The fresh-start branch of `signalWithStartFull`. -/
def startThenSignal (a : StartRequest) (name : String) (payload : Json) :
    Go (Option (RunRef × WorkflowExecution)) := do
  let (c, _) ← startWorkflowFull { a with conflictPolicy := .unset }
  signalWorkflow c name payload ""
  match ← attempt (describeWorkflow c) with
  | .ok found => return found
  | .error _ => return none

/-- `signalWithStartFull`: signal the live run, or start one and signal that. -/
def signalWithStartFull (a : StartRequest) (name : String) (payload : Json) :
    Go (Option (RunRef × WorkflowExecution)) := do
  match ← attempt (describeWorkflow ⟨a.ns, a.workflowId, none⟩) with
  | .ok (some (c, row)) =>
    if row.status.isTerminal then startThenSignal a name payload
    else do
      signalWorkflow c name payload ""
      return some (c, row)
  | _ => startThenSignal a name payload

/-! ## Metadata and reset -/

def updateWorkflowMetadata (target : Target) (m : WorkflowUserMetadata) :
    Go (RunRef × WorkflowExecution) := do
  match ← attempt (describeWorkflow target) with
  | .ok (some (c, row)) => do
      let cur := row.userMetadata.getD {}
      let t ← now
      let cur : WorkflowUserMetadata :=
        { summary := if m.summary = "" then cur.summary else m.summary
          details := if m.details = "" then cur.details else m.details
          updatedBy := m.updatedBy
          updatedAt := t }
      put (.wf c) { row with userMetadata := some cur }
      return (c, { row with userMetadata := some cur })
  | _ => throw "workflow not found"

/-- The events up to `n` are stored again under the run `r`. -/
def copyEvents (r : RunRef) (n : Nat) : List HistoryEvent → Go Unit
  | [] => return ()
  | ev :: rest =>
    if n < ev.eventId then return ()
    else do
      put (.wfh r ev.eventId) ev
      copyEvents r n rest

def resetMemo (src : RunRef) (eventID : Nat) (reason identity : String) : Json :=
  .obj [("resetFromEventId", .num eventID), ("resetFromRunId", .str src.run),
    ("resetIdentity", .str identity), ("resetReason", .str reason)]

def forkRow (src : RunRef) (row : WorkflowExecution) (n : Nat) (reason identity : String)
    (t : Nat) : WorkflowExecution :=
  { type := row.type, startTime := t, taskQueue := row.taskQueue, input := row.input
    memo := resetMemo src n reason identity }

/-- The part of a reset that writes the new run: index entry, row, the copied
events, the row that counts them, and the reset event. -/
def forkRun (src : RunRef) (row : WorkflowExecution) (events : List HistoryEvent)
    (n : Nat) (reason identity : String) : Go RunRef := do
  let newRun ← newRunId
  let r : RunRef := ⟨src.ns, src.wf, newRun⟩
  let t ← now
  let fork := forkRow src row n reason identity t
  openRun r
  put (.wf r) fork
  copyEvents r n events
  put (.wf r) { fork with historyLen := n }
  let _ ← appendHistory r (.reset src.run n reason identity)
  return r

/-- `ResetWorkflow`. The source is closed as terminated whatever its status,
and no event of it says so. -/
def resetWorkflow (target : Target) (eventID : Int) (reason identity : String) :
    Go (RunRef × WorkflowExecution) := do
  match ← attempt (describeWorkflow target) with
  | .ok (some (src, row)) =>
    if eventID < 1 ∨ row.historyLen < eventID then
      throw s!"invalid eventId {eventID} (history has {row.historyLen} events)"
    else do
      let all ← listHistory src
      let fork ← forkRun src row (all.map Prod.snd) eventID.toNat reason identity
      let t ← now
      write (.close src .reset)
      let _ ← attempt (closeRun src (closedRow row .terminated t))
      scheduleWorkflowTask fork
      match ← attempt (describeWorkflow fork) with
      | .ok (some p) => return p
      | _ => throw nilDereference
  | _ => throw "workflow not found"

end DurableTasks.Engine
