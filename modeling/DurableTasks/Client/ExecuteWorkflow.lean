import DurableTasks.Client.Requests
import DurableTasks.Engine.Conduct
import DurableTasks.Engine.Process
import DurableTasks.Engine.Starts

/-!
`ExecuteWorkflow` of the SDK's client, from the options of a caller over the
body of the request to the start of a run by the server.
-/

namespace DurableTasks.Client

open Effects Engine

/-! ## The client -/

/-- The options of a start. Durations are in milliseconds, and the retry policy
is given as it is sent. -/
structure StartWorkflowOptions where
  id : String := ""
  taskQueue : String
  workflowExecutionTimeout : Int := 0
  workflowRunTimeout : Int := 0
  workflowTaskTimeout : Int := 0
  retryPolicy : Option Json := none
  cronSchedule : String := ""
  memo : List (String × Json) := []
  searchAttributes : List (String × Json) := []

def StartWorkflowOptions.timeouts (o : StartWorkflowOptions) : Json :=
  .obj (omitEmpty "workflow_execution_ms" (o.workflowExecutionTimeout = 0)
      (.num o.workflowExecutionTimeout) ++
    omitEmpty "workflow_run_ms" (o.workflowRunTimeout = 0) (.num o.workflowRunTimeout) ++
    omitEmpty "workflow_task_ms" (o.workflowTaskTimeout = 0) (.num o.workflowTaskTimeout))

/-- `startWorkflowRequest`, as it is marshalled. Search attributes are not
sent, nor is a request id or a conflict policy. -/
def ClientImpl.startWorkflowRequest (c : ClientImpl) (o : StartWorkflowOptions) (wfType : String)
    (args : List Json) : List (String × Json) :=
  [("namespace", .str c.ns), ("workflow_id", .str o.id), ("workflow_type", .str wfType),
      ("task_queue", .str o.taskQueue)] ++
    omitEmpty "input" args.isEmpty (.arr args) ++
    omitEmpty "retry_policy" o.retryPolicy.isNone (o.retryPolicy.getD .null) ++
    [("timeouts", o.timeouts)] ++
    omitEmpty "memo" o.memo.isEmpty (.obj o.memo) ++
    omitEmpty "cron_schedule" (o.cronSchedule = "") (.str o.cronSchedule) ++
    omitEmpty "identity" (c.identity = "") (.str c.identity)

/-! ## The server -/

def normalizeConflictPolicy (p : String) : String :=
  let long := "WORKFLOW_ID_CONFLICT_POLICY_"
  if long.toList.isPrefixOf p.toUpper.toList then
    String.ofList (p.toUpper.toList.drop long.length)
  else p.toUpper

def conflictPolicyOf (p : String) : ConflictPolicy :=
  if p = "" then .unset
  else if normalizeConflictPolicy p = "USE_EXISTING" then .useExisting
  else if normalizeConflictPolicy p = "TERMINATE_EXISTING" then .terminateExisting
  else if normalizeConflictPolicy p = "FAIL" then .fail
  else .unrecognised

/-- The handler of `opStartWorkflow`: the start a request asks for. -/
def opStartWorkflow (defaultNS : String) (req : List (String × Json)) : StartRequest :=
  { ns := strOr req "namespace" defaultNS
    workflowId := strOr req "workflow_id" (str req "workflowId")
    runId :=
      let runID := strOr req "run_id" (str req "runId")
      if runID = "" then none else some runID
    type := if strOr req "workflow_type" "" = "" then nameIn req "workflowType"
      else strOr req "workflow_type" ""
    taskQueue := if strOr req "task_queue" "" = "" then nameIn req "taskQueue"
      else strOr req "task_queue" ""
    input := ((Json.obj req).field "input").getD .null
    requestID := strOr req "request_id" ""
    searchAttrs := fieldsIn req "search_attributes"
    memo := ((Json.obj req).field "memo").getD .null
    conflictPolicy := conflictPolicyOf
      (strOr req "workflow_id_conflict_policy" (str req "workflowIdConflictPolicy")) }

/-! ## The call -/

structure WorkflowRun where
  id : String
  runID : String

def ClientImpl.sent (c : ClientImpl) (o : StartWorkflowOptions) (wfType : String)
    (args : List Json) : List (String × Json) :=
  readAnyFields (c.startWorkflowRequest o wfType args)

/-- `ExecuteWorkflow`, with the server's part of it. -/
def executeWorkflow (defaultNS : String) (c : ClientImpl) (o : StartWorkflowOptions)
    (wfType : String) (args : List Json) : Go WorkflowRun :=
  if o.taskQueue = "" then
    throw "hanzo/tasks/client: StartWorkflowOptions.TaskQueue is required"
  else if wfType = "" then throw "hanzo/tasks/client: empty workflow type"
  else do
    match ← attempt (startWorkflowFull (opStartWorkflow defaultNS (c.sent o wfType args))) with
    | .ok (r, _) => return { id := if o.id = "" then r.run else o.id, runID := r.run }
    | .error e => throw s!"hanzo/tasks: server status 400: {e}"

/-! ## What is on the wire -/

section Request

variable (c : ClientImpl) (o : StartWorkflowOptions) (wfType : String) (args : List Json)

theorem field_sent (k : String) :
    (Json.obj (c.sent o wfType args)).field k =
      ((Json.obj (c.startWorkflowRequest o wfType args)).field k).map readAny :=
  field_readAny

def sentNames : List String :=
  ["namespace", "workflow_id", "workflow_type", "task_queue", "input", "retry_policy", "timeouts",
    "memo", "cron_schedule", "identity"]

theorem str_absent {k : String} (hk : k ∉ sentNames) : str (c.sent o wfType args) k = "" := by
  simp only [sentNames, List.mem_cons, List.not_mem_nil, or_false, not_or] at hk
  obtain ⟨h₁, h₂, h₃, h₄, h₅, h₆, h₇, h₈, h₉, h₁₀⟩ := hk
  have hfield : (Json.obj (c.startWorkflowRequest o wfType args)).field k = none := by
    simp only [ClientImpl.startWorkflowRequest, field_append, field_cons, field_nil, Ne.symm h₁,
      Ne.symm h₂, Ne.symm h₃, Ne.symm h₄, Ne.symm h₇, field_omitEmpty_of_ne (Ne.symm h₅),
      field_omitEmpty_of_ne (Ne.symm h₆), field_omitEmpty_of_ne (Ne.symm h₈),
      field_omitEmpty_of_ne (Ne.symm h₉), field_omitEmpty_of_ne (Ne.symm h₁₀), if_false,
      Option.or_none]
  rw [str, field_sent, hfield]
  rfl

/-- The start a client's request asks for names the workflow id, and neither a
run, nor a request, nor what to do about a live run. -/
structure Plain (ns id : String) (a : StartRequest) : Prop where
  ns : a.ns = ns
  id : a.workflowId = id
  run : a.runId = none
  request : a.requestID = ""
  policy : a.conflictPolicy = .unset

theorem opStartWorkflow_plain (defaultNS : String) :
    Plain (c.served defaultNS) o.id (opStartWorkflow defaultNS (c.sent o wfType args)) := by
  have hns : str (c.sent o wfType args) "namespace" = c.ns := by
    rw [str, field_sent]
    rfl
  have hid : str (c.sent o wfType args) "workflow_id" = o.id := by
    rw [str, field_sent]
    rfl
  have habsent : ∀ k ∈ ["workflowId", "run_id", "runId", "request_id",
      "workflow_id_conflict_policy", "workflowIdConflictPolicy"],
      str (c.sent o wfType args) k = "" := by
    intro k hk
    refine str_absent c o wfType args ?_
    revert k
    decide
  simp only [List.forall_mem_cons, List.not_mem_nil, false_implies, implies_true, and_true]
    at habsent
  obtain ⟨hwf', hrun, hrun', hreq, hpolicy, hpolicy'⟩ := habsent
  refine ⟨?_, ?_, ?_, ?_, ?_⟩
  · simp only [opStartWorkflow, strOr, hns, ClientImpl.served]
  · simp only [opStartWorkflow, strOr, hid, hwf']
    split_ifs with h
    · exact h.symm
    · rfl
  · simp only [opStartWorkflow, strOr, hrun, hrun', if_true]
  · simp only [opStartWorkflow, strOr, hreq, if_true]
  · simp only [opStartWorkflow, strOr, hpolicy, hpolicy', if_true, conflictPolicyOf]

end Request

/-! ## A start that names nothing but its workflow -/

/-- The run `r` of a start is open in `w'`, under an id drawn since `w`. -/
structure Fresh (w : World) (a : StartRequest) (r : RunRef) (w' : World) : Prop where
  drawn : ∃ n, w.minted ≤ n ∧ r.run = w.ids n
  ns : r.ns = a.ns
  named : a.workflowId ≠ "" → r.wf = a.workflowId
  opened : ∃ row, w'.store.get (.wf r) = some row ∧ row.isOpen = true

section Start

variable {A : World → Prop} {G : World → Write → Prop} {a : StartRequest}

theorem createRun_opens (hG : ∀ w x, G w x) (wf run : String) (w : World) :
    (createRun a wf run).spec A G (fun res w' => ∀ p, res = .ok p → p.1 = ⟨a.ns, wf, run⟩ ∧
      ∃ row, w'.store.get (.wf p.1) = some row ∧ row.isOpen = true) w := by
  rw [spec_createRun]
  refine ⟨along_of_forall hG _ _, along_of_forall hG _ _, ?_⟩
  cases decodeEvents ((createdWorld w a wf run).store.events ⟨a.ns, wf, run⟩) with
  | none => exact fun p hp => by cases hp
  | some evs =>
    intro p hp
    obtain rfl := Except.ok.inj hp
    exact ⟨rfl, StartRequest.counted a w.time, get_createdWorld w a wf run, rfl⟩

/-- A start that names no run, no request and no conflict policy answers with a
run of its own, whatever is stored. -/
theorem startWorkflowFull_fresh (hG : ∀ w x, G w x) (hrun : a.runId = none)
    (hreq : a.requestID = "") (hpolicy : a.conflictPolicy = .unset) (w : World) :
    (startWorkflowFull a).spec A G (fun res w' => ∀ p, res = .ok p → Fresh w a p.1 w') w := by
  have hunder : ∀ (wf : String) (w₁ : World), (a.workflowId ≠ "" → wf = a.workflowId) →
      w.minted ≤ w₁.minted → w₁.ids = w.ids →
      (startUnder a wf).spec A G (fun res w' => ∀ p, res = .ok p → Fresh w a p.1 w') w₁ := by
    intro wf w₁ hwf hminted hids
    rw [spec_startUnder, Store.startDecision_fresh _ _ hreq hpolicy]
    dsimp only
    rw [spec_startFresh, hrun]
    intro _
    refine Go.spec_mono ?_ _ (createRun_opens hG wf w₁.nextId w₁.mint)
    intro res w' hres p hp
    obtain ⟨hp, hopened⟩ := hres p hp
    refine ⟨⟨w₁.minted, hminted, ?_⟩, ?_, fun hne => ?_, hopened⟩
    · rw [hp, ← hids]
      rfl
    · rw [hp]
    · rw [hp]
      exact hwf hne
  have hminted : (w.inUse a.ns).minted = w.minted ∧ (w.inUse a.ns).ids = w.ids := by
    unfold World.inUse
    split_ifs <;> exact ⟨rfl, rfl⟩
  rw [spec_startWorkflowFull]
  cases nameError w.orgs a.ns with
  | some e => exact fun p hp => by cases hp
  | none =>
    refine ⟨along_of_forall hG _ _, ?_⟩
    split_ifs with htype hid
    · exact fun p hp => by cases hp
    · exact fun _ => hunder _ _ (fun hne => absurd hid hne)
        (Nat.le_succ_of_le hminted.1.ge) hminted.2
    · exact hunder _ _ (fun _ => rfl) hminted.1.ge hminted.2

end Start

/-! ## The contract -/

/-- The call answered with a handle to a run that was open already, and no run
was created. -/
def Reuses (w : World) (ns id : String) (out : Except String WorkflowRun × World) : Prop :=
  ∃ h row, out.1 = .ok h ∧ h.id = id ∧ w.store.get (.wf ⟨ns, id, h.runID⟩) = some row ∧
    row.isOpen = true ∧ ∀ r, w.store.get (.wf r) = none → out.2.store.get (.wf r) = none

def submit (defaultNS : String) (c : ClientImpl) (o : StartWorkflowOptions) (wfType : String)
    (args : List Json) (w : World) : Except String WorkflowRun × World :=
  (executeWorkflow defaultNS c o wfType args).run.run handler w

structure Opened (w : World) (ns id : String) (h : WorkflowRun) (r : RunRef) (w' : World) :
    Prop where
  run : h.runID = r.run
  ns : r.ns = ns
  named : id ≠ "" → r.wf = id
  drawn : ∃ n, w.minted ≤ n ∧ r.run = w.ids n
  opened : ∃ row, w'.store.get (.wf r) = some row ∧ row.isOpen = true

theorem startWorkflowFull_plain {a : StartRequest} {ns id : String} (ha : Plain ns id a)
    (w : World) :
    (startWorkflowFull a).spec (fun _ => True) (fun _ _ => True)
      (fun res w' => ∀ p, res = .ok p →
        Opened w ns id ⟨if id = "" then p.1.run else id, p.1.run⟩ p.1 w') w := by
  refine Go.spec_mono ?_ _
    (startWorkflowFull_fresh (fun _ _ => trivial) ha.run ha.request ha.policy w)
  intro res w' hres p hp
  obtain ⟨hdrawn, hns, hnamed, hopened⟩ := hres p hp
  exact ⟨rfl, hns.trans ha.ns, fun hne => (hnamed (ha.id ▸ hne)).trans ha.id, hdrawn, hopened⟩

/-- A call that succeeds has opened a run of its own. -/
theorem submit_opened (defaultNS : String) (c : ClientImpl) (o : StartWorkflowOptions)
    (wfType : String) (args : List Json) (w : World) (h : WorkflowRun)
    (hok : (submit defaultNS c o wfType args w).1 = .ok h) :
    ∃ r, Opened w (c.served defaultNS) o.id h r (submit defaultNS c o wfType args w).2 := by
  have hspec : (executeWorkflow defaultNS c o wfType args).spec (fun _ => True)
      (fun _ _ => True) (fun res w' => ∀ h, res = .ok h →
        ∃ r, Opened w (c.served defaultNS) o.id h r w') w := by
    unfold executeWorkflow
    split
    · exact fun h hh => by cases hh
    split
    · exact fun h hh => by cases hh
    rw [Go.spec_bind, Go.spec_attempt]
    refine Go.spec_mono ?_ _
      (startWorkflowFull_plain (opStartWorkflow_plain c o wfType args defaultNS) w)
    rintro (e | p) w' hres
    · exact fun h hh => by cases hh
    · intro h hh
      obtain rfl := Except.ok.inj hh
      exact ⟨p.1, hres p rfl⟩
  exact Go.run_of_spec hspec h hok

/-- No call is answered with a run that was there: the request of the client
has no field for it. Every call that succeeds opens a run under an id drawn for
it, beside whatever is open under the workflow id already. -/
theorem executeWorkflow_never_reuses (defaultNS : String) (c : ClientImpl)
    (o : StartWorkflowOptions) (wfType : String) (args : List Json) (w : World)
    (hfresh : ∀ n r, w.minted ≤ n → r.run = w.ids n → w.store.get (.wf r) = none) :
    let out := submit defaultNS c o wfType args w
    ¬ Reuses w (c.served defaultNS) o.id out ∧
      ∀ h, out.1 = .ok h → ∃ r row, r.run = h.runID ∧ r.ns = c.served defaultNS ∧
        (o.id ≠ "" → r.wf = o.id) ∧ w.store.get (.wf r) = none ∧
        out.2.store.get (.wf r) = some row ∧ row.isOpen = true := by
  refine ⟨?_, fun h hok => ?_⟩
  · rintro ⟨h, row, hok, -, hrow, -, -⟩
    obtain ⟨r, hrun, -, -, ⟨n, hn, hdrawn⟩, -⟩ := submit_opened defaultNS c o wfType args w h hok
    have hnone : w.store.get (.wf ⟨c.served defaultNS, o.id, h.runID⟩) = none :=
      hfresh n _ hn (hrun.trans hdrawn)
    rw [hnone] at hrow
    cases hrow
  · obtain ⟨r, hrun, hns, hwf, ⟨n, hn, hdrawn⟩, row, hrow, hopen⟩ :=
      submit_opened defaultNS c o wfType args w h hok
    exact ⟨r, row, hrun.symm, hns, hwf, hfresh n r hn hdrawn, hrow, hopen⟩

def openShard : World := (system 1).turns [.whole startRun] emptyShard

def caller : ClientImpl := { ns := "n" }

def resubmission : StartWorkflowOptions := { id := "wf", taskQueue := "default" }

theorem openShard_fresh (n : Nat) (r : RunRef) (_hn : openShard.minted ≤ n)
    (hr : r.run = openShard.ids n) : openShard.store.get (.wf r) = none := by
  have hrun : r.run ≠ "r" := by
    rw [hr, show openShard.ids n = "id" ++ toString n from rfl]
    intro h
    simpa using congrArg String.toList h
  have hkeys : ∀ r ∈ openShard.store.runs.keys, r.run = "r" := by decide +kernel
  have habsent : openShard.store.runs[r]? = none :=
    Std.TreeMap.getElem?_eq_none fun hmem => hrun (hkeys r (Std.TreeMap.mem_keys.mpr hmem))
  rw [Store.get, Store.run, Std.TreeMap.getD_eq_getD_getElem?, habsent]
  rfl

theorem executeWorkflow_never_reuses_resubmission :
    (∀ n r, openShard.minted ≤ n → r.run = openShard.ids n →
      openShard.store.get (.wf r) = none) ∧
    ¬ Reuses openShard "n" "wf" (submit "default" caller resubmission "T" [] openShard) :=
  ⟨openShard_fresh, (executeWorkflow_never_reuses "default" caller resubmission "T" [] openShard
    openShard_fresh).1⟩

/-- The run `r` of `wf` is open, the same id is submitted again, and the handle
is to a second open run. -/
theorem executeWorkflow_opens_second :
    ((openShard.store.get (.wf ⟨"n", "wf", "r"⟩)).map fun row => row.isOpen) = some true ∧
      ((submit "default" caller resubmission "T" [] openShard).1.toOption.map fun h =>
        (h.id, h.runID)) = some ("wf", "id0") ∧
      ((submit "default" caller resubmission "T" [] openShard).2.store.rows "n" "wf").map
        (fun p => (p.1.run, p.2.isOpen)) = [("id0", true), ("r", true)] := by
  decide +kernel

end DurableTasks.Client
