import DurableTasks.Standalone.Store

/-!
The life of a standalone activity: start, claim under a lease, heartbeat, the
reaping of lost leases, the terminal transitions and the retention purge.
-/

namespace DurableTasks.Standalone

open Effects

abbrev Act (α : Type) := ExceptT String (Program ActivityEffect ActivityEffect.Answer) α

section Accesses

def describeNamespace (name : String) : Act (Option Namespace) :=
  ExceptT.mk (Program.perform (ActivityEffect.describeNamespace name))

def get (k : ActivityKey) : Act (Option k.Val) :=
  ExceptT.mk (Program.perform (ActivityEffect.get k))

def put (k : ActivityKey) (v : k.Val) : Act Unit :=
  ExceptT.mk (Program.perform (ActivityEffect.put k v))

def del (k : ActivityKey) : Act Unit := ExceptT.mk (Program.perform (ActivityEffect.del k))

def listRows (ns : String) : Act (List (RunRef × StandaloneActivity)) :=
  ExceptT.mk (Program.perform (ActivityEffect.rows ns))

def listEvents (r : RunRef) : Act (List (Nat × ActivityEvent)) :=
  ExceptT.mk (Program.perform (ActivityEffect.events r))

def listRequests (ns activityID : String) : Act (List (String × String)) :=
  ExceptT.mk (Program.perform (ActivityEffect.requests ns activityID))

def call (e : ActivityEffect) : Act e.Answer := ExceptT.lift (Program.perform e)

def now : Act Nat := call .now

def newRunId : Act String := call .newRunId

def attempt {α : Type} (x : Act α) : Act (Except String α) := ExceptT.lift x.run

def withClaim {α : Type} (ns : String) (body : Act α) : Act α := do
  call (.lock ns)
  let res ← attempt body
  call (.unlock ns)
  ExceptT.mk (pure res)

end Accesses

def second : Nat := 1000000000

def rfc3339 (t : Nat) : Nat := t / second

def nowRFC3339 : Act Nat := do return rfc3339 (← now)

def describeActivity (r : RunRef) : Act (Option StandaloneActivity) := get (.act r)

/-- `appendActivityHistory`: the next event, then the row that counts it. -/
def appendActivityHistory (r : RunRef) (attrs : ActivityEventAttrs) : Act ActivityEvent := do
  match ← attempt (describeActivity r) with
  | .ok (some a) => do
      let t ← nowRFC3339
      let ev : ActivityEvent :=
        { eventId := a.historyLength + 1, eventTime := t, attrs := attrs }
      put (.ahist r ev.eventId) ev
      put (.act r) { a with historyLength := a.historyLength + 1 }
      return ev
  | _ => throw "activity not found"

/-! ## Start -/

/-- The arguments of `StartActivity`. An empty run id is `none`. -/
structure StartActivityRequest where
  ns : String
  activityID : String
  runID : Option String := none
  type : String
  taskQueue : String := ""
  input : Json := .null
  retry : Option ActivityRetryPolicy := none
  timeouts : ActivityTimeouts := {}
  heartbeatTimeout : Option Nat := none
  identity : String := ""
  requestID : String := ""

def StartActivityRequest.queue (a : StartActivityRequest) : String :=
  if a.taskQueue = "" then "default" else a.taskQueue

def StartActivityRequest.row (a : StartActivityRequest) (t : Nat) : StandaloneActivity :=
  { type := a.type, taskQueue := a.queue, status := .scheduled, startTime := t
    retryPolicy := a.retry, input := a.input, identity := a.identity, attempt := 1
    maximumAttempts := (a.retry.map fun p => p.maximumAttempts).getD 0, timeouts := a.timeouts
    heartbeatTimeout := a.heartbeatTimeout }

def StartActivityRequest.event (a : StartActivityRequest) : ActivityEventAttrs :=
  .scheduled a.type a.queue a.input a.identity

/-- What an earlier call with the same request id started, if it is still
there. A failed read counts as nothing found. -/
def priorActivity (a : StartActivityRequest) : Act (Option StandaloneActivity) :=
  if a.requestID = "" then return none
  else do
    match ← attempt (get (.aidem a.ns a.activityID a.requestID)) with
    | .ok (some run) =>
      if run = "" then return none
      else do
        match ← attempt (describeActivity ⟨a.ns, a.activityID, run⟩) with
        | .ok found => return found
        | .error _ => return none
    | _ => return none

def runIDFor (a : StartActivityRequest) : Act String :=
  match a.runID with
  | some run => return run
  | none => newRunId

def createActivity (a : StartActivityRequest) (run : String) : Act (Option StandaloneActivity) := do
  let r : RunRef := ⟨a.ns, a.activityID, run⟩
  let t ← nowRFC3339
  put (.act r) (a.row t)
  if a.requestID = "" then pure ()
  else do
    let _ ← attempt (put (.aidem a.ns a.activityID a.requestID) run)
  let _ ← appendActivityHistory r a.event
  match ← attempt (describeActivity r) with
  | .ok found => return found
  | .error _ => return none

def startActivity (a : StartActivityRequest) : Act (Option StandaloneActivity) := do
  match ← attempt (describeNamespace a.ns) with
  | .ok (some _) =>
    if a.type = "" then throw "activity type required"
    else if a.activityID = "" then throw "activityId required"
    else do
      match ← priorActivity a with
      | some found => return some found
      | none => do
          let run ← runIDFor a
          createActivity a run
  | _ => throw s!"namespace {a.ns.quote} not registered"

/-! ## Terminal transitions -/

/-- `activityTerminal`: close an activity that is not closed. `result` and
`cause` are what the transition keeps in the row, where it keeps anything. -/
def activityTerminal (r : RunRef) (status : ActivityState) (attrs : ActivityEventAttrs)
    (result : Option Json) (cause : String) : Act Unit := do
  match ← attempt (describeActivity r) with
  | .ok (some a) =>
    if a.status.isTerminal then throw s!"activity terminal: status={a.status.name}"
    else do
      let t ← nowRFC3339
      put (.act r)
        { a with
          status := status, closeTime := some t, result := result.getD a.result
          failureCause := if cause = "" then a.failureCause else cause }
      let _ ← appendActivityHistory r attrs
  | _ => throw "activity not found"

def cancelActivity (r : RunRef) (reason identity : String) : Act Unit :=
  activityTerminal r .canceled (.canceled reason identity) none ""

def completeActivity (r : RunRef) (result : Json) (identity : String) : Act Unit :=
  activityTerminal r .completed (.completed result identity) (some result) ""

def failActivity (r : RunRef) (cause identity : String) : Act Unit :=
  activityTerminal r .failed (.failed cause identity) none cause

/-! ## Leases -/

def defaultLeaseTTL : Nat := 60 * second

/-- `activityLeaseTTL`: the activity's heartbeat timeout, else the lease the
claim asks for, else the default. -/
def activityLeaseTTL (a : StandaloneActivity) (fallback : Int) : Nat :=
  match a.heartbeatTimeout with
  | some d => d
  | none => if 0 < fallback then fallback.toNat else defaultLeaseTTL

def heartbeatActivity (r : RunRef) (details : Json) : Act Unit := do
  match ← attempt (describeActivity r) with
  | .ok (some a) =>
    if a.status.isTerminal then throw s!"activity terminal: status={a.status.name}"
    else do
      let beat ← nowRFC3339
      let lease ← renewedLease a
      put (.act r)
        { a with
          lastHeartbeatTime := some beat
          status := if a.status = .scheduled then .started else a.status
          leaseExpiry := lease }
      let _ ← appendActivityHistory r (.heartbeat details)
  | _ => throw "activity not found"
where
  /-- A lease that is held is extended; none is given where none is held. -/
  renewedLease (a : StandaloneActivity) : Act (Option Nat) :=
    match a.leaseExpiry with
    | some _ => do return some (rfc3339 ((← now) + activityLeaseTTL a 0))
    | none => return none

def leaseExpired (t : Nat) (a : StandaloneActivity) : Bool :=
  a.status = .started &&
    match a.leaseExpiry with
    | some exp => exp * second < t
    | none => false

def reapedRow (a : StandaloneActivity) : StandaloneActivity :=
  { a with status := .scheduled, attempt := a.attempt + 1, identity := "", leaseExpiry := none }

def reapOne (t : Nat) (r : RunRef) (a : StandaloneActivity) : Act Unit :=
  if leaseExpired t a then
    if 0 < a.maximumAttempts ∧ a.maximumAttempts ≤ a.attempt then do
      let _ ← attempt (failActivity r "lease expired: worker unresponsive" "reaper")
    else do
      put (.act r) (reapedRow a)
      let _ ← appendActivityHistory r (.timedOut "lease expired" (a.attempt + 1))
  else return ()

def reapExpiredLeases (ns : String) : Act Unit := do
  let rows ← listRows ns
  let t ← now
  rows.forM fun p => reapOne t p.1 p.2

/-- One turn of the loop of `sweepLeases`: the leases of a namespace, under its
claim lock. -/
def sweepLease (ns : String) : Act Unit := withClaim ns (reapExpiredLeases ns)

/-- The order `ClaimNextActivity` looks at activities in. -/
def claimOrder (p q : RunRef × StandaloneActivity) : Bool :=
  p.2.startTime < q.2.startTime ||
    (p.2.startTime = q.2.startTime && compare p.1.wf q.1.wf != .gt)

/-- Whether an activity can be claimed from a queue. An empty queue is any. -/
def claimable (taskQueue : String) (a : StandaloneActivity) : Bool :=
  a.status = .scheduled && (taskQueue = "" || a.taskQueue = taskQueue)

/-- `ClaimNextActivity`: the first claimable activity, under a lease. -/
def claimNextActivity (ns taskQueue identity : String) (lease : Int) :
    Act (Option (RunRef × Option StandaloneActivity)) := do
  match ← attempt (describeNamespace ns) with
  | .ok (some _) => withClaim ns do
      reapExpiredLeases ns
      let rows ← listRows ns
      match (rows.mergeSort claimOrder).find? fun p => claimable taskQueue p.2 with
      | none => return none
      | some (r, a) => do
          let t ← now
          let exp := rfc3339 (t + activityLeaseTTL a lease)
          put (.act r)
            { a with
              status := .started, identity := identity, lastHeartbeatTime := some (rfc3339 t)
              leaseExpiry := some exp }
          let _ ← appendActivityHistory r (.started identity a.attempt exp)
          match ← attempt (describeActivity r) with
          | .ok found => return some (r, found)
          | .error _ => return some (r, none)
  | _ => throw s!"namespace {ns.quote} not registered"

/-! ## Retention -/

def closedAt (a : StandaloneActivity) : Nat := a.closeTime.getD a.startTime

def delAll (keys : List ActivityKey) : Act Unit := keys.forM del

/-- `purgeActivityRun`: remove a closed activity and every key of it, its row
last. -/
def purgeActivityRun (r : RunRef) (cutoff : Nat) : Act Bool := do
  match ← describeActivity r with
  | none => return false
  | some a =>
    if !a.status.isTerminal ∨ cutoff < closedAt a * second then return false
    else do
      let evs ← listEvents r
      let reqs ← listRequests r.ns r.wf
      delAll
        (evs.map (fun p => .ahist r p.1) ++
          (reqs.filter fun p => p.2 = r.run).map (fun p => .aidem r.ns r.wf p.1) ++ [.act r])
      return true

/-! ## Operations -/

inductive ActivityOperation where
  | start (a : StartActivityRequest)
  | claim (ns taskQueue identity : String) (lease : Int)
  | reap (ns : String)
  | heartbeat (r : RunRef) (details : Json)
  | complete (r : RunRef) (result : Json) (identity : String)
  | fail (r : RunRef) (cause identity : String)
  | cancel (r : RunRef) (reason identity : String)
  | purge (r : RunRef) (cutoff : Nat)

def drop {α : Type} (x : Act α) : Program ActivityEffect ActivityEffect.Answer Unit :=
  x.run >>= fun _ => pure ()

def program : ActivityOperation → Program ActivityEffect ActivityEffect.Answer Unit
  | .start a => drop (startActivity a)
  | .claim ns taskQueue identity lease => drop (claimNextActivity ns taskQueue identity lease)
  | .reap ns => drop (sweepLease ns)
  | .heartbeat r details => drop (heartbeatActivity r details)
  | .complete r result identity => drop (completeActivity r result identity)
  | .fail r cause identity => drop (failActivity r cause identity)
  | .cancel r reason identity => drop (cancelActivity r reason identity)
  | .purge r cutoff => drop (purgeActivityRun r cutoff)

end DurableTasks.Standalone
