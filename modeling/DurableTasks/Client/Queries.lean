import DurableTasks.Client.ScheduleWire
import DurableTasks.Engine.Specs
import DurableTasks.Visibility.Query

/-!
`QueryWorkflow` and `ListWorkflows` of the SDK's client, with the handlers of the
server, and the HTTP listing. The client sends `query_args` and waits for `result`;
the server reads `args` and answers with `query_result`. The listing of the client
never looks at its query.
-/

namespace DurableTasks.Client

open Engine Visibility

/-! ## Queries -/

def ClientImpl.queryWorkflowRequest (c : ClientImpl) (id run queryType : String)
    (args : List Json) : List (String × Json) :=
  [("namespace", .str c.ns), ("workflow_id", .str id)] ++
    omitEmpty "run_id" (run = "") (.str run) ++ [("query_type", .str queryType)] ++
    omitEmpty "query_args" args.isEmpty (.arr args)

structure Handed where
  queryType : String
  args : Option Json

inductive WorkerAnswer where
  | result (r : Raw)
  | failure (msg : String)
  | silent

/-- The result of a query as the server hands it on: decoded, or as text where it
does not decode. -/
def decodeResult (r : Raw) : Json :=
  if r.isEmpty then .null
  else
    match r.json.bind Json.throughAny with
    | some j => j
    | none => .str r.text

/-- `QueryWorkflowCtx`, with what the worker is handed. A worker is `reached` if one
is subscribed and the query could be sent to it. -/
def queryWorkflowCtx (s : Store) (reached : Bool) (target : Target) (queryType : String)
    (args : Option Json) (answer : WorkerAnswer) : Option Handed × Except String Json :=
  match s.resolve target with
  | none => (none, .error "workflow not found")
  | some (_, row) =>
    if queryType = "__stack_trace" then (none, .ok (.obj [("stack", .str "")]))
    else if queryType = "__workflow_metadata" then
      (none, .ok (.obj [("historyLen", .num row.historyLen), ("status", .str row.status.name),
        ("workflowType", .str row.type)]))
    else if !reached then (none, .error "no workers subscribed to task queue")
    else
      (some ⟨queryType, args⟩,
        match answer with
        | .result r => .ok (decodeResult r)
        | .failure msg => .error s!"query failed: {msg}"
        | .silent => .error "query timeout after 5s")

def targetIn (defaultNS : String) (req : List (String × Json)) : Target :=
  { ns := strOr req "namespace" defaultNS
    wf := strOr req "workflow_id" (str req "workflowId")
    run :=
      let runID := strOr req "run_id" (str req "runId")
      if runID = "" then none else some runID }

def opQueryWorkflow (defaultNS : String) (s : Store) (reached : Bool)
    (req : List (String × Json)) (answer : WorkerAnswer) :
    Option Handed × Except (Nat × String) Json :=
  let queryType := strOr req "query_type" (str req "queryType")
  let args :=
    match (Json.obj req).field "args" with
    | none | some .null => none
    | some j => some j
  match queryWorkflowCtx s reached (targetIn defaultNS req) queryType args answer with
  | (handed, .error e) => (handed, .error (404, e))
  | (handed, .ok out) => (handed, .ok (.obj [("query_result", out)]))

/-- `queryWorkflowResponse`: a text in base 64, and nothing where there is no
field. -/
def resultIn (base64 : String → Option String) (body : Json) : Except String String :=
  match body.field "result" with
  | none | some .null => .ok ""
  | some (.str s) =>
    match base64 s with
    | some t => .ok t
    | none => .error "decode response body 0x0067: illegal base64 data"
  | some _ => .error "decode response body 0x0067: cannot unmarshal"

/-- `QueryWorkflow`: what the worker is handed, and the bytes of the value the
caller gets. -/
def ClientImpl.queryWorkflow (c : ClientImpl) (base64 : String → Option String)
    (defaultNS : String) (s : Store) (reached : Bool) (id run queryType : String)
    (args : List Json) (answer : WorkerAnswer) : Option Handed × Except String String :=
  if id = "" then (none, .error "hanzo/tasks/client: workflowID is required")
  else if queryType = "" then (none, .error "hanzo/tasks/client: queryType is required")
  else
    match opQueryWorkflow defaultNS s reached
      (readAnyFields (c.queryWorkflowRequest id run queryType args)) answer with
    | (handed, .error (status, detail)) =>
      (handed, .error s!"hanzo/tasks: server status {status}: {detail}")
    | (handed, .ok body) => (handed, resultIn base64 body)

/-! ## Listings -/

def ClientImpl.listWorkflowsRequest (c : ClientImpl) (query : String) (pageSize : Int)
    (token : String) : List (String × Json) :=
  ("namespace", .str c.ns) :: (omitEmpty "query" (query = "") (.str query) ++
    omitZero "page_size" pageSize ++ omitEmpty "next_page_token" (token = "") (.str token))

def statusInt : WorkflowStatus → Int
  | .running => 1
  | .completed => 2
  | .failed => 3
  | .canceled => 4
  | .terminated => 5
  | .continuedAsNew => 6
  | .canceling | .timedOut => 0

def wfInfoSDK (P : Printing) (p : RunRef × WorkflowExecution) : Json :=
  .obj ((p.2.closeTime.map fun t => ("close_time", Json.str (P.time t))).toList ++
    [("history_length", .num p.2.historyLen), ("run_id", .str p.1.run),
      ("start_time", .str (P.time p.2.startTime)), ("status", .num (statusInt p.2.status)),
      ("task_queue", .str p.2.taskQueue), ("workflow_id", .str p.1.wf),
      ("workflow_type", .str p.2.type)])

def opListWorkflows (P : Printing) (defaultNS : String) (s : Store)
    (req : List (String × Json)) : Json :=
  .obj [("executions", .arr ((s.nsRows (strOr req "namespace" defaultNS)).map (wfInfoSDK P)))]

def executionOf (entry : Json) : String × String :=
  match entry with
  | .obj fields => (str fields "workflow_id", str fields "run_id")
  | _ => ("", "")

def executionsIn (body : Json) : List (String × String) :=
  match body.field "executions" with
  | some (.arr entries) => entries.map executionOf
  | _ => []

def ClientImpl.listWorkflows (c : ClientImpl) (P : Printing) (defaultNS : String) (s : Store)
    (query : String) (pageSize : Int) (token : String) : Except String (List (String × String)) :=
  .ok (executionsIn (opListWorkflows P defaultNS s
    (readAnyFields (c.listWorkflowsRequest query pageSize token))))

def listWorkflowExecutions (P : Printing) (s : Store) (ns query : String) :
    Except String (List (RunRef × WorkflowExecution)) := do
  let expr ← parseVisibilityQuery query
  return (s.nsRows ns).filter (selects P expr)

/-- The executions `GET /v1/tasks/namespaces/{ns}/workflows` lists. -/
def httpListing (P : Printing) (s : Store) (ns query : String) :
    Except String (List (String × String)) :=
  (listWorkflowExecutions P s ns query).map fun rows => rows.map fun p => (p.1.wf, p.1.run)

/-! ## Agreement -/

structure Passed (queryType : String) (args : List Json) (r : Raw)
  (outcome : Option Handed × Except String String) : Prop where
  handed : outcome.1 = some ⟨queryType, if args.isEmpty then none else some (.arr args)⟩
  returned : outcome.2 = .ok r.text

theorem targetIn_request (defaultNS : String) (c : ClientImpl) (id run queryType : String)
    (args : List Json) :
    targetIn defaultNS (readAnyFields (c.queryWorkflowRequest id run queryType args)) =
      ⟨c.served defaultNS, id, if run = "" then none else some run⟩ := by
  have hns : str (c.queryWorkflowRequest id run queryType args) "namespace" = c.ns := rfl
  have hid : str (c.queryWorkflowRequest id run queryType args) "workflow_id" = id := rfl
  have hid' : str (c.queryWorkflowRequest id run queryType args) "workflowId" = "" := by
    simp [str, ClientImpl.queryWorkflowRequest, field_append, field_cons, field_omitEmpty_of_ne]
  have hrun : str (c.queryWorkflowRequest id run queryType args) "run_id" = run := by
    by_cases hempty : run = ""
    · simp [str, ClientImpl.queryWorkflowRequest, field_append, field_cons,
        field_omitEmpty_of_ne, field_omitEmpty, hempty]
    · simp [str, ClientImpl.queryWorkflowRequest, field_append, field_cons,
        field_omitEmpty, hempty]
  have hrun' : str (c.queryWorkflowRequest id run queryType args) "runId" = "" := by
    simp [str, ClientImpl.queryWorkflowRequest, field_append, field_cons, field_omitEmpty_of_ne]
  rw [targetIn, str_readAny, hid', strOr_empty, str_readAny, hid, str_readAny, hrun', strOr_empty,
    str_readAny, hrun, strOr, str_readAny, hns]
  rfl

/-- A query that reaches a worker is handed over without its arguments, and what the
worker answers is lost. -/
theorem queryWorkflow_eq (c : ClientImpl) (base64 : String → Option String)
    (defaultNS : String) {s : Store} {id run queryType : String} (args : List Json) (r : Raw)
    (hid : id ≠ "") (hquery : queryType ≠ "") (hstack : queryType ≠ "__stack_trace")
    (hmeta : queryType ≠ "__workflow_metadata")
    (hfound : s.resolve ⟨c.served defaultNS, id, if run = "" then none else some run⟩ ≠ none) :
    c.queryWorkflow base64 defaultNS s true id run queryType args (.result r) =
      (some ⟨queryType, none⟩, .ok "") := by
  obtain ⟨p, hp⟩ := Option.ne_none_iff_exists'.mp hfound
  have htype : str (c.queryWorkflowRequest id run queryType args) "query_type" = queryType := by
    simp [str, ClientImpl.queryWorkflowRequest, field_append, field_cons, field_omitEmpty_of_ne]
  have hargs : (Json.obj (c.queryWorkflowRequest id run queryType args)).field "args" = none := by
    simp [ClientImpl.queryWorkflowRequest, field_append, field_cons, field_omitEmpty_of_ne]
  simp only [ClientImpl.queryWorkflow, if_neg hid, if_neg hquery, opQueryWorkflow, strOr,
    str_readAny, htype, field_readAny, hargs, targetIn_request, queryWorkflowCtx, hp,
    if_neg hstack, if_neg hmeta, Option.map_none]
  rfl

theorem passed_iff {queryType : String} {args : List Json} {r : Raw} :
    Passed queryType args r (some ⟨queryType, none⟩, .ok "") ↔ args = [] ∧ r.text = "" := by
  constructor
  · rintro ⟨hhanded, hreturned⟩
    refine ⟨?_, (Except.ok.inj hreturned).symm⟩
    cases args with
    | nil => rfl
    | cons j rest => simp at hhanded
  · rintro ⟨rfl, htext⟩
    exact ⟨rfl, by rw [htext]⟩

theorem executionOf_wfInfoSDK (P : Printing) (p : RunRef × WorkflowExecution) :
    executionOf (wfInfoSDK P p) = (p.1.wf, p.1.run) := by
  rw [wfInfoSDK, executionOf]
  cases p.2.closeTime <;> rfl

/-- The client is handed every execution of its namespace. -/
theorem listWorkflows_eq (c : ClientImpl) (P : Printing) (defaultNS : String) (s : Store)
    (query : String) (pageSize : Int) (token : String) :
    c.listWorkflows P defaultNS s query pageSize token =
      .ok ((s.nsRows (c.served defaultNS)).map fun p => (p.1.wf, p.1.run)) := by
  have hns : strOr (readAnyFields (c.listWorkflowsRequest query pageSize token)) "namespace"
      defaultNS = c.served defaultNS := by
    rw [strOr, str_readAny]
    rfl
  rw [ClientImpl.listWorkflows, opListWorkflows, hns]
  show Except.ok (((s.nsRows _).map (wfInfoSDK P)).map executionOf) = _
  rw [List.map_map]
  refine congrArg Except.ok (List.map_congr_left fun p _ => ?_)
  exact executionOf_wfInfoSDK P p

/-- The query parses, or is blank, and selects every execution of the namespace. -/
def SelectsAll (P : Printing) (s : Store) (ns query : String) : Prop :=
  ∃ expr, parseVisibilityQuery query = .ok expr ∧ ∀ p ∈ s.nsRows ns, selects P expr p = true

theorem httpListing_eq_iff {P : Printing} {s : Store} {ns query : String} :
    httpListing P s ns query = .ok ((s.nsRows ns).map fun p => (p.1.wf, p.1.run)) ↔
      SelectsAll P s ns query := by
  rw [httpListing, listWorkflowExecutions, SelectsAll]
  cases hparse : parseVisibilityQuery query with
  | error e =>
    refine iff_of_false ?_ ?_
    · intro h
      cases h
    · rintro ⟨expr, hexpr, -⟩
      cases hexpr
  | ok expr =>
    constructor
    · intro h
      have hmap : ((s.nsRows ns).filter (selects P expr)).map (fun p => (p.1.wf, p.1.run)) =
          (s.nsRows ns).map fun p => (p.1.wf, p.1.run) := Except.ok.inj h
      have hlength := congrArg List.length hmap
      rw [List.length_map, List.length_map] at hlength
      exact ⟨expr, rfl, List.length_filter_eq_length_iff.mp hlength⟩
    · rintro ⟨expr', hexpr, hall⟩
      obtain rfl := Except.ok.inj hexpr
      show Except.ok (((s.nsRows ns).filter (selects P expr)).map _) = _
      rw [List.filter_eq_self.mpr hall]

/-- Queries and listings agree on the two sides exactly where the query has no
arguments and an empty answer, and the listing asks for everything. -/
theorem queries_and_listings_agree_iff (c : ClientImpl) (P : Printing)
    (base64 : String → Option String) (defaultNS : String) (s : Store)
    (id run queryType query : String) (args : List Json) (r : Raw) (pageSize : Int)
    (token : String) (hid : id ≠ "") (hquery : queryType ≠ "")
    (hstack : queryType ≠ "__stack_trace") (hmeta : queryType ≠ "__workflow_metadata")
    (hfound : s.resolve ⟨c.served defaultNS, id, if run = "" then none else some run⟩ ≠ none) :
    Passed queryType args r
        (c.queryWorkflow base64 defaultNS s true id run queryType args (.result r)) ∧
      c.listWorkflows P defaultNS s query pageSize token =
        httpListing P s (c.served defaultNS) query ↔
    (args = [] ∧ r.text = "") ∧ SelectsAll P s (c.served defaultNS) query := by
  rw [queryWorkflow_eq c base64 defaultNS args r hid hquery hstack hmeta hfound, passed_iff,
    listWorkflows_eq, eq_comm (b := httpListing _ _ _ _), httpListing_eq_iff]

def oneRun : Store where
  runs := Std.TreeMap.empty.insert ⟨"n", "wf", "r"⟩
    { row := some { type := "Poll", startTime := 0, taskQueue := "q" } }

def plainPrinting : Printing where
  time := toString
  sprint _ := ""

theorem queries_and_listings_agree_blank :
    Passed "state" [] .empty
        (ClientImpl.queryWorkflow ⟨"n", ""⟩ (fun _ => none) "default" oneRun true "wf" "r" "state"
          [] (.result .empty)) ∧
      ClientImpl.listWorkflows ⟨"n", ""⟩ plainPrinting "default" oneRun "" 0 "" =
        httpListing plainPrinting oneRun "n" "" := by
  refine (queries_and_listings_agree_iff ⟨"n", ""⟩ plainPrinting (fun _ => none) "default" oneRun
    "wf" "r" "state" "" [] .empty 0 "" (by decide) (by decide) (by decide) (by decide) ?_).mpr
    ⟨⟨rfl, rfl⟩, none, rfl, fun _ _ => rfl⟩
  intro hnone
  exact absurd (congrArg Option.isSome hnone) (by decide +kernel)

/-- The worker is handed no arguments and its answer is lost; and the client lists
a run that the HTTP listing leaves out. -/
theorem queries_and_listings_differ :
    (ClientImpl.queryWorkflow ⟨"n", ""⟩ (fun _ => none) "default" oneRun true "wf" "r" "state"
        [.num 1] (.result (.ofJson "42" (.num 42))) = (some ⟨"state", none⟩, .ok "")) ∧
      (ClientImpl.listWorkflows ⟨"n", ""⟩ plainPrinting "default" oneRun "RunId != 'r'" 0
        "").toOption = some [("wf", "r")] ∧
      (httpListing plainPrinting oneRun "n" "RunId != 'r'").toOption = some [] := by
  refine ⟨?_, by decide +kernel, by decide +kernel⟩
  refine queryWorkflow_eq ⟨"n", ""⟩ _ _ _ _ (by decide) (by decide) (by decide) (by decide) ?_
  intro hnone
  exact absurd (congrArg Option.isSome hnone) (by decide +kernel)

end DurableTasks.Client
