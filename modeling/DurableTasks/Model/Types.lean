import DurableTasks.Sdk.Temporal

/-!
The records of the engine: run rows, history events, seq-keyed activity
records, the commands a decider answers with and the tasks handed to workers.

A field that repeats the key its record is stored under (`Execution` of a row,
`Seq` of an activity record) is left to the key: every write of the source
computes its key from exactly these fields. Times are the
second an RFC 3339 text names, and an absent `CloseTime` is `none`.
-/

namespace DurableTasks

open Temporal (RetryPolicyJSON)

/-- A run of a workflow: `(namespace, workflowId, runId)`. -/
structure RunRef where
  ns : String
  wf : String
  run : String
deriving DecidableEq

/-- A run as a caller names it. An empty run id, here `none`, names the current
run of the workflow id. -/
structure Target where
  ns : String
  wf : String
  run : Option String := none
deriving DecidableEq

def RunRef.target (r : RunRef) : Target := ⟨r.ns, r.wf, some r.run⟩

instance : Coe RunRef Target := ⟨RunRef.target⟩

inductive WorkflowStatus where
  | running
  | canceling
  | completed
  | failed
  | canceled
  | terminated
  | timedOut
  | continuedAsNew
deriving DecidableEq

namespace WorkflowStatus

def name : WorkflowStatus → String
  | running => "WORKFLOW_EXECUTION_STATUS_RUNNING"
  | canceling => "WORKFLOW_EXECUTION_STATUS_CANCELING"
  | completed => "WORKFLOW_EXECUTION_STATUS_COMPLETED"
  | failed => "WORKFLOW_EXECUTION_STATUS_FAILED"
  | canceled => "WORKFLOW_EXECUTION_STATUS_CANCELED"
  | terminated => "WORKFLOW_EXECUTION_STATUS_TERMINATED"
  | timedOut => "WORKFLOW_EXECUTION_STATUS_TIMED_OUT"
  | continuedAsNew => "WORKFLOW_EXECUTION_STATUS_CONTINUED_AS_NEW"

def isTerminal : WorkflowStatus → Bool
  | running | canceling => false
  | _ => true

end WorkflowStatus

structure WorkflowUserMetadata where
  summary : String := ""
  details : String := ""
  updatedBy : String := ""
  updatedAt : Nat := 0
deriving DecidableEq

structure WorkflowExecution where
  type : String
  startTime : Nat
  closeTime : Option Nat := none
  status : WorkflowStatus := .running
  taskQueue : String
  historyLen : Nat := 0
  memo : Json := .null
  searchAttrs : List (String × Json) := []
  input : Json := .null
  userMetadata : Option WorkflowUserMetadata := none

def WorkflowExecution.isOpen (row : WorkflowExecution) : Bool :=
  !row.status.isTerminal

/-- What a history event records. The constructors are the event types. -/
inductive EventAttrs where
  | workflowStarted (workflowType taskQueue : String) (input : Json)
  | workflowCompleted (result : String)
  | workflowFailed (failure : String)
  | workflowCanceled (reason identity : String)
  | workflowTerminated (reason identity : String)
  | continuedAsNew (newExecutionRunId : String)
  | cancelRequested (reason identity : String)
  | signaled (signalName : String) (input : Json) (identity : String)
  | reset (baseRunId : String) (eventId : Nat) (reason identity : String)
  | activityScheduled (seq : Int) (activityId activityType : String) (input : Json)
      (taskQueue : String) (retryPolicy : Option RetryPolicyJSON) (attempt : Nat)
  | activityStarted (seq : Int) (activityId : String) (attempt : Nat)
  | activityCompleted (seq : Int) (activityId : String) (result : Json)
  | activityFailed (seq : Int) (activityId : String) (failure : Json)
  | childStarted (seq : Int) (childWorkflowId childRunId : String)

def EventAttrs.isActivityCompleted : EventAttrs → Bool
  | activityCompleted _ _ _ => true
  | _ => false

structure HistoryEvent where
  eventId : Nat
  eventTime : Nat
  attrs : EventAttrs

/-- An integer attribute read back through `any`: exact up to 53 bits. -/
def intThroughAny (n : Int) : Int :=
  match (Json.num n).throughAny with
  | some (.num q) => q.num
  | _ => n

/-- The attributes as a reader of the stored event decodes them, into a map of
`any`. The JSON the worker sent goes through `float64` on the way. -/
def EventAttrs.throughAny : EventAttrs → Option EventAttrs
  | workflowStarted t q input => input.throughAny.map (workflowStarted t q)
  | signaled n input i => input.throughAny.map fun j => signaled n j i
  | activityScheduled seq id t input q rp a =>
    input.throughAny.map fun j => activityScheduled (intThroughAny seq) id t j q rp a
  | activityStarted seq id a => some (activityStarted (intThroughAny seq) id a)
  | activityCompleted seq id result =>
    result.throughAny.map (activityCompleted (intThroughAny seq) id)
  | activityFailed seq id failure =>
    failure.throughAny.map (activityFailed (intThroughAny seq) id)
  | childStarted seq wf run => some (childStarted (intThroughAny seq) wf run)
  | attrs => some attrs

def HistoryEvent.throughAny (ev : HistoryEvent) : Option HistoryEvent :=
  ev.attrs.throughAny.map fun attrs => { ev with attrs }

inductive ActivityStatus where
  | scheduled
  | started
  | completed
  | failed
deriving DecidableEq

def ActivityStatus.isTerminal : ActivityStatus → Bool
  | completed | failed => true
  | scheduled | started => false

structure WorkflowActivity where
  activityID : String
  activityType : String
  input : Raw
  taskQueue : String
  status : ActivityStatus
  attempt : Nat
  result : Raw := .empty
  failure : Raw := .empty
  startToCloseMs : Int
  heartbeatMs : Int
  retryPolicy : Option RetryPolicyJSON

namespace WorkflowActivity

def isTerminal (a : WorkflowActivity) : Bool := a.status.isTerminal

/-- `json.Marshal` of the record succeeds: its raw fields hold JSON. -/
def storable (a : WorkflowActivity) : Bool :=
  a.input.storable && a.result.storable && a.failure.storable

end WorkflowActivity

/-- The deterministic activity id of `(run, seq)`. -/
def wfActivityID (run : String) (seq : Int) : String :=
  run ++ "-act-" ++ toString seq

/-- A namespace's registry row: `NamespaceInfo` without the name, which is its
key, and `NamespaceCfg`. `createTime` is `none` where its text is empty. -/
structure Namespace where
  state : String := ""
  description : String := ""
  ownerEmail : String := ""
  region : String := ""
  createTime : Option Nat := none
  retention : String := ""
  apsLimit : Int := 0
  historyArchivalState : String := ""
  historyArchivalUri : String := ""
  visibilityArchivalState : String := ""
  visibilityArchivalUri : String := ""
  customData : Option (List (String × String)) := none
  isActive : Bool := false
deriving DecidableEq

/-- One command of a workflow-task response, by its `kind`. A response that
names any other kind carries no command for it. -/
inductive Command where
  | complete (result : Raw)
  | fail (failure : Raw)
  | scheduleActivity (seq : Int) (activityType : String) (input : Raw) (taskQueue : String)
      (startToCloseMs heartbeatMs : Int) (retryPolicy : Option RetryPolicyJSON)
  | canceled (failure : Raw)
  | continueAsNew (input : Raw) (workflowType taskQueue : String)
  | startChild (seq : Int) (childWorkflowId workflowType taskQueue : String) (input : Raw)
      (searchAttrs : List (String × Json))

structure WorkflowTask where
  ref : RunRef
  queue : String
  workflowType : String
  history : List HistoryEvent

structure ActivityTask where
  ref : RunRef
  seq : Int
  queue : String
  activityID : String
  activityType : String
  input : Raw
  startToCloseMs : Int
  heartbeatMs : Int

structure FailureIdentity where
  ns : String
  workflowType : String := ""
  activityType : String := ""
  taskQueue : String := ""
  scheduleId : String := ""
  workflowId : String
  runId : String
  attempt : Nat := 0

/-- How a run was closed: by a transition that records an event, or by a reset
of it. -/
inductive Closing where
  | event (status : WorkflowStatus) (attrs : EventAttrs)
  | reset

def Closing.status : Closing → WorkflowStatus
  | .event status _ => status
  | .reset => .terminated

end DurableTasks
