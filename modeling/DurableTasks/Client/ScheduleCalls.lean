import DurableTasks.Client.ScheduleWire
import DurableTasks.Schedules.Specs

/-!
The schedule calls of the SDK's client, and the handlers of the server they reach.
The two sides number their operations differently: a list is served as a delete, a
delete as a list, an update as an unpause, and a trigger not at all.
-/

namespace DurableTasks.Client

open Effects Engine Schedules

variable {id : String} {h : Host} {o : CreateScheduleOptions}

/-! ## The server -/

inductive Served where
  | createSchedule
  | deleteSchedule
  | listSchedules
  | pauseSchedule
  | unpauseSchedule
  | describeSchedule

def served (opcode : Nat) : Option Served :=
  match opcode with
  | 0x0070 => some .createSchedule
  | 0x0071 => some .deleteSchedule
  | 0x0072 => some .listSchedules
  | 0x0073 => some .pauseSchedule
  | 0x0074 => some .unpauseSchedule
  | 0x0076 => some .describeSchedule
  | _ => none

def scheduleSDK (id : String) (s : DurableTasks.Schedule) : Json :=
  .obj
    [("action", .obj [("task_queue", .str s.action.taskQueue),
        ("workflow_type", .str s.action.workflowType)]),
      ("id", .str id), ("paused", .bool s.state.paused),
      ("spec", .obj [("cron",
        if s.spec.cronString.isEmpty then .null else .arr (s.spec.cronString.map .str))])]

abbrev Reply := Except (Nat × String) Json

abbrev Serving (α : Type) := Program HostEffect HostEffect.Answer α

structure Frontend where
  cal : Calendar
  tenant : String
  defaultNS : String
  now : Int

def Frontend.createSchedule (f : Frontend) (req : List (String × Json)) : Serving Reply := do
  let s := scheduleFromSDK req f.defaultNS
  if s.id = "" then return .error (400, "schedule_id required")
  else
    match ← (Schedules.createSchedule f.cal f.now ⟨f.tenant, s.ns, s.id⟩ s.row).run with
    | .error e => return .error (400, e)
    | .ok () => return .ok (scheduleSDK s.id s.row)

def Frontend.named (f : Frontend) (req : List (String × Json)) : ScheduleRef :=
  ⟨f.tenant, strOr req "namespace" f.defaultNS, strOr req "schedule_id" (str req "scheduleId")⟩

def Frontend.listSchedules (f : Frontend) (req : List (String × Json)) : Serving Reply := do
  match ← (rowsOf f.tenant).run with
  | .error e => return .error (500, e)
  | .ok rows => return .ok (.obj [("schedules", .arr
      ((rows.filter fun p => p.1.ns = strOr req "namespace" f.defaultNS).map fun p =>
        scheduleSDK p.1.id p.2))])

def Frontend.describeSchedule (f : Frontend) (req : List (String × Json)) : Serving Reply := do
  match ← (Schedules.describeSchedule (f.named req)).run with
  | .error e => return .error (500, e)
  | .ok none => return .error (404, "schedule not found")
  | .ok (some s) => return .ok (scheduleSDK (f.named req).id s)

def Frontend.deleteSchedule (f : Frontend) (req : List (String × Json)) : Serving Reply := do
  match ← (Schedules.deleteSchedule (f.named req)).run with
  | .error e => return .error (400, e)
  | .ok () => return .ok (.obj [("status", .str "deleted")])

def Frontend.setPaused (f : Frontend) (req : List (String × Json)) (paused : Bool)
    (note : String) : Serving Reply := do
  match ← (Schedules.pauseSchedule f.now (f.named req) paused note).run with
  | .error e => return .error (400, e)
  | .ok () => return .ok (.obj [("status", .str (if paused then "paused" else "running"))])

def pausedIn (req : List (String × Json)) : Bool :=
  match (Json.obj req).field "paused" with
  | some (.bool p) => p
  | _ => true

def Frontend.serve (f : Frontend) (req : List (String × Json)) : Served → Serving Reply
  | .createSchedule => f.createSchedule req
  | .deleteSchedule => f.deleteSchedule req
  | .listSchedules => f.listSchedules req
  | .pauseSchedule => f.setPaused req (pausedIn req) (str req "note")
  | .unpauseSchedule => f.setPaused req false ""
  | .describeSchedule => f.describeSchedule req

/-! ## The client -/

inductive ScheduleCall where
  | create (o : CreateScheduleOptions)
  | list (pageSize : Int) (nextPageToken : String)
  | describe (id : String)
  | delete (id : String)
  | pause (id : String) (paused : Bool)
  | update (id : String) (s : Schedule)
  | trigger (id : String) (overlapPolicy : String)

def ScheduleCall.opcode : ScheduleCall → Nat
  | .create _ => 0x0070
  | .list _ _ => 0x0071
  | .delete _ => 0x0072
  | .pause _ _ => 0x0073
  | .update _ _ => 0x0074
  | .trigger _ _ => 0x0075
  | .describe _ => 0x0076

def requireID (id : String) : Except String Unit :=
  if id = "" then throw "hanzo/tasks/client: schedule ID is required" else pure ()

def ScheduleCall.check : ScheduleCall → Except String Unit
  | .create o => o.check
  | .list _ _ => pure ()
  | .describe id | .delete id | .pause id _ | .update id _ | .trigger id _ => requireID id

def ScheduleCall.request (c : ClientImpl) : ScheduleCall → List (String × Json)
  | .create o => c.scheduleRequest o.id o.schedule
  | .list pageSize token =>
    ("namespace", .str c.ns) :: (omitZero "page_size" pageSize ++
      omitEmpty "next_page_token" (token = "") (.str token))
  | .describe id | .delete id => [("namespace", .str c.ns), ("schedule_id", .str id)]
  | .pause id paused =>
    [("namespace", .str c.ns), ("schedule_id", .str id), ("paused", .bool paused)]
  | .update id s => c.scheduleRequest id s
  | .trigger id policy =>
    [("namespace", .str c.ns), ("schedule_id", .str id)] ++
      omitEmpty "overlap_policy" (policy = "") (.str policy)

def schedulesIn (body : Json) : List Json :=
  match body.field "schedules" with
  | some (.arr schedules) => schedules
  | _ => []

def ScheduleCall.answer (call : ScheduleCall) (body : Json) : List Json :=
  match call with
  | .list _ _ => schedulesIn body
  | _ => []

def ScheduleCall.returns (call : ScheduleCall) : Reply → Except String (List Json)
  | .error (status, detail) => .error s!"hanzo/tasks: server status {status}: {detail}"
  | .ok body => .ok (call.answer body)

/-- `roundTrip`. Nothing answers an opcode without a handler. -/
def ScheduleCall.perform (f : Frontend) (c : ClientImpl) (call : ScheduleCall) :
    Serving (Except String (List Json)) :=
  match call.check with
  | .error e => return .error e
  | .ok () =>
    match Client.served call.opcode with
    | none => return .error s!"zap call {call.opcode}: no answer"
    | some handler => do
        return call.returns (← f.serve (readAnyFields (call.request c)) handler)

/-! ## The map the calls describe -/

/-- What a schedule is, of all that a call sends. The server has no place for a start
and end time, a jitter, a timezone and a workflow id. -/
structure Definition where
  cron : List String
  intervals : List Int
  workflowType : String
  taskQueue : String
  input : Json
  paused : Bool

def Schedule.definition (s : Schedule) : Definition :=
  { cron := s.spec.cron
    intervals := if s.spec.interval = 0 then [] else [s.spec.interval]
    workflowType := s.action.workflowType
    taskQueue := s.action.taskQueue
    input := if s.action.input.isEmpty then .null else .arr s.action.input
    paused := s.paused }

abbrev Plan := String → Option Definition

def ScheduleCall.plan (A : Plan) : ScheduleCall → Plan
  | .create o => Function.update A o.id (some o.schedule.definition)
  | .delete id => Function.update A id none
  | .pause id paused => Function.update A id ((A id).map fun d => { d with paused })
  | .update id s => Function.update A id (some s.definition)
  | .list _ _ | .describe _ | .trigger _ _ => A

/-- What a call should return: a list names the schedules there are. -/
def ScheduleCall.Answered (A : Plan) (answer : List Json) : ScheduleCall → Prop
  | .list _ _ => ∀ id, (∃ j ∈ answer, j.field "id" = some (.str id)) ↔ A id ≠ none
  | _ => True

structure Definition.Held (cal : Calendar) (d : Definition) (s : DurableTasks.Schedule) :
    Prop where
  cron : s.spec.cronString = d.cron
  intervals : s.spec.interval.map cal.parseDuration = d.intervals.map some
  workflowType : s.action.workflowType = d.workflowType
  taskQueue : s.action.taskQueue = d.taskQueue
  input : s.action.input = d.input
  paused : s.state.paused = d.paused

def Frontend.ref (f : Frontend) (c : ClientImpl) (id : String) : ScheduleRef :=
  ⟨f.tenant, c.served f.defaultNS, id⟩

/-- The server's schedules are those of the map. Ids are not empty. -/
structure Plan.At (f : Frontend) (c : ClientImpl) (A : Plan) (h : Host) : Prop where
  rows : ∀ id, Option.Rel (Definition.Held f.cal) (A id) (h.row (f.ref c id))
  named : A "" = none

/-- Nothing changes but the schedules of the client's namespace. -/
def Elsewhere (f : Frontend) (c : ClientImpl) (h h' : Host) : Prop :=
  ∀ r, (∀ id, r ≠ f.ref c id) → h'.row r = h.row r

structure Session where
  host : Host
  plan : Plan

def Session.step (f : Frontend) (c : ClientImpl) (x : Session) (e : Int × ScheduleCall) :
    Except String (List Json) × Session :=
  let (res, host) := (e.2.perform { f with now := e.1 } c).run hostHandler x.host
  (res, { host, plan := match res with
    | .ok _ => e.2.plan x.plan
    | .error _ => x.plan })

structure Session.Driven (f : Frontend) (c : ClientImpl) (x : Session) (e : Int × ScheduleCall) :
    Prop where
  plan : ∀ answer, (x.step f c e).1 = .ok answer →
    (x.step f c e).2.plan.At f c (x.step f c e).2.host
  answer : ∀ answer, (x.step f c e).1 = .ok answer → e.2.Answered x.plan answer
  elsewhere : Elsewhere f c x.host (x.step f c e).2.host

def Session.DrivenAll (f : Frontend) (c : ClientImpl) (x : Session) :
    List (Int × ScheduleCall) → Prop
  | [] => True
  | e :: es => x.Driven f c e ∧ (x.step f c e).2.DrivenAll f c es

/-- The calls that do what they say. A schedule that is created has no interval and
an input that survives `float64`; schedules are listed when there are none, and
deleted or updated when there is nothing to do but to resume one. -/
def ScheduleCall.Apt (A : Plan) : ScheduleCall → Prop
  | .create o => o.check = .ok () → o.interval = 0 ∧ readAny (.arr o.input) = .arr o.input
  | .list _ _ => ∀ id, A id = none
  | .delete id => A id = none
  | .update id s => ∀ d, A id = some d → { d with paused := false } = s.definition
  | .describe _ | .pause _ _ | .trigger _ _ => True

def Session.AptAll (f : Frontend) (c : ClientImpl) (x : Session) :
    List (Int × ScheduleCall) → Prop
  | [] => True
  | e :: es => e.2.Apt x.plan ∧ (x.step f c e).2.AptAll f c es

/-! ## What the handlers do -/

section Handlers

variable {f : Frontend} {c : ClientImpl} {h : Host}

theorem run_createSchedule (cal : Calendar) (now : Int) (r : ScheduleRef)
    (s : DurableTasks.Schedule) (hid : r.id ≠ "") (h : Host) :
    (Schedules.createSchedule cal now r s).run.run hostHandler h =
      if r.ns = "" then (.error "namespace required", h)
      else (.ok (), { h with schedules := h.schedules.insert r (createdRow cal now s) }) := by
  unfold Schedules.createSchedule
  rw [if_neg hid]
  split_ifs <;> rfl

theorem run_pauseSchedule (now : Int) (r : ScheduleRef) (paused : Bool) (note : String) (h : Host) :
    (Schedules.pauseSchedule now r paused note).run.run hostHandler h =
      match h.row r with
      | some s =>
        (.ok (), { h with schedules := h.schedules.insert r (pausedRow now paused note s) })
      | none => (.error "schedule not found", h) := by
  have hget : (attempt (Schedules.describeSchedule r)).run.run hostHandler h =
      (.ok (.ok (h.row r)), h) := rfl
  rw [Schedules.pauseSchedule, ExceptT.run_bind, Program.run_bind, hget]
  cases h.row r <;> rfl

/-- A request that names a schedule by its id. -/
theorem named_request {req : List (String × Json)} (hns : str req "namespace" = c.ns)
    (hid : str req "schedule_id" = id) (hid' : str req "scheduleId" = "") :
    f.named (readAnyFields req) = f.ref c id := by
  rw [Frontend.named, str_readAny, hid', strOr_empty, str_readAny, hid, strOr, str_readAny, hns]
  rfl

theorem run_perform {call : ScheduleCall} {handler : Served} (hcheck : call.check = .ok ())
    (hserved : Client.served call.opcode = some handler) {reply : Reply} {h' : Host}
    (hserve : (f.serve (readAnyFields (call.request c)) handler).run hostHandler h = (reply, h')) :
    (call.perform f c).run hostHandler h = (call.returns reply, h') := by
  simp only [ScheduleCall.perform, hcheck, hserved, Program.run_bind, hserve]
  rfl

theorem run_perform_of_refused {call : ScheduleCall} {e : String} (hcheck : call.check = .error e) :
    (call.perform f c).run hostHandler h = (.error e, h) := by
  simp only [ScheduleCall.perform, hcheck]
  rfl

end Handlers

/-! ## What the calls do -/

variable {f : Frontend} {c : ClientImpl} {x : Session}

theorem Frontend.ref_inj {id' : String} : f.ref c id = f.ref c id' ↔ id = id' := by
  simp [Frontend.ref]

theorem Plan.At.insert {A : Plan} (hA : A.At f c h) (hid : id ≠ "") {d : Definition}
    {s : DurableTasks.Schedule} (hs : d.Held f.cal s) :
    Plan.At f c (Function.update A id (some d))
      { h with schedules := h.schedules.insert (f.ref c id) s } := by
  refine ⟨fun id' => ?_, ?_⟩
  · by_cases heq : id' = id
    · subst heq
      rw [Function.update_self, Host.row_insert_self]
      exact .some hs
    · rw [Function.update_of_ne heq, Host.row_insert_of_ne (by rwa [ne_eq, Frontend.ref_inj])]
      exact hA.rows id'
  · rw [Function.update_of_ne (Ne.symm hid)]
    exact hA.named

theorem elsewhere_insert {s : DurableTasks.Schedule} :
    Elsewhere f c h { h with schedules := h.schedules.insert (f.ref c id) s } :=
  fun _ hr => Host.row_insert_of_ne (hr id)

theorem elsewhere_self : Elsewhere f c h h := fun _ _ => rfl

structure Session.Follows (f : Frontend) (c : ClientImpl) (x : Session)
  (e : Int × ScheduleCall) : Prop where
  driven : x.Driven f c e
  plan : (x.step f c e).2.plan.At f c (x.step f c e).2.host

theorem Session.follows_of_error {e : Int × ScheduleCall} {err : String} (hA : x.plan.At f c x.host)
    (hrun : (e.2.perform { f with now := e.1 } c).run hostHandler x.host = (.error err, x.host)) :
    x.Follows f c e := by
  have hstep : x.step f c e = (.error err, x) := by
    simp only [Session.step, hrun]
  refine ⟨⟨fun answer hres => ?_, fun answer hres => ?_, ?_⟩, ?_⟩
  · rw [hstep] at hres
    cases hres
  · rw [hstep] at hres
    cases hres
  · rw [hstep]
    exact elsewhere_self
  · rw [hstep]
    exact hA

theorem Session.follows_of_ok {e : Int × ScheduleCall} {answer : List Json} {h' : Host}
    (hrun : (e.2.perform { f with now := e.1 } c).run hostHandler x.host = (.ok answer, h'))
    (hA : (e.2.plan x.plan).At f c h') (hanswer : e.2.Answered x.plan answer)
    (helse : Elsewhere f c x.host h') : x.Follows f c e := by
  have hstep : x.step f c e = (.ok answer, { host := h', plan := e.2.plan x.plan }) := by
    simp only [Session.step, hrun]
  refine ⟨⟨fun _ _ => ?_, fun answer' hres => ?_, ?_⟩, ?_⟩
  · rw [hstep]
    exact hA
  · rw [hstep] at hres
    obtain rfl := Except.ok.inj hres
    exact hanswer
  · rw [hstep]
    exact helse
  · rw [hstep]
    exact hA

theorem id_ne_of_check (h : o.check = .ok ()) : o.id ≠ "" := by
  intro hid
  rw [CreateScheduleOptions.check, if_pos hid] at h
  cases h

theorem id_ne_of_requireID (h : requireID id = .ok ()) : id ≠ "" := by
  intro hid
  rw [requireID, if_pos hid] at h
  cases h

theorem createdRow_keeps (cal : Calendar) (now : Int) (s : DurableTasks.Schedule) :
    (createdRow cal now s).spec = s.spec ∧ (createdRow cal now s).action = s.action ∧
      (createdRow cal now s).state = s.state := by
  unfold createdRow withNext
  split <;> exact ⟨rfl, rfl, rfl⟩

/-- Without an interval, and where its input survives, a schedule arrives as it was
asked for. -/
theorem held_arrived {cal : Calendar} (hinterval : o.interval = 0)
    (hinput : readAny (.arr o.input) = .arr o.input) (now : Int) :
    o.schedule.definition.Held cal (createdRow cal now o.schedule.arrived) := by
  obtain ⟨hspec, haction, hstate⟩ := createdRow_keeps cal now o.schedule.arrived
  refine ⟨by rw [hspec]; rfl, ?_, by rw [haction]; rfl, by rw [haction]; rfl, ?_,
    by rw [hstate]; rfl⟩
  · rw [hspec, Schedule.definition, show o.schedule.spec.interval = 0 from hinterval, if_pos rfl]
    rfl
  · rw [haction]
    exact (input_arrived_iff o).mpr hinput

theorem Session.follows_create (hA : x.plan.At f c x.host) (now : Int)
    (hapt : (ScheduleCall.create o).Apt x.plan) : x.Follows f c (now, .create o) := by
  cases hcheck : o.check with
  | error e => exact follows_of_error hA (run_perform_of_refused hcheck)
  | ok u =>
    have hid := id_ne_of_check hcheck
    have hserve : ∀ g : Frontend, (g.serve (readAnyFields ((ScheduleCall.create o).request c))
        .createSchedule).run hostHandler x.host =
        if c.served g.defaultNS = "" then (.error (400, "namespace required"), x.host)
        else (.ok (scheduleSDK o.id o.schedule.arrived), { x.host with
          schedules := x.host.schedules.insert (g.ref c o.id)
            (createdRow g.cal g.now o.schedule.arrived) }) := by
      intro g
      simp only [Frontend.serve, ScheduleCall.request, Frontend.createSchedule,
        scheduleFromSDK_request, if_neg hid, Program.run_bind,
        run_createSchedule _ _ ⟨g.tenant, c.served g.defaultNS, o.id⟩ _ hid]
      split_ifs <;> rfl
    have hchecked : (ScheduleCall.create o).check = .ok () := hcheck
    have hreply := hserve { f with now }
    split_ifs at hreply with hns
    · exact follows_of_error hA (run_perform hchecked rfl hreply)
    · exact follows_of_ok (run_perform hchecked rfl hreply)
        (hA.insert hid (held_arrived (hapt hcheck).1 (hapt hcheck).2 now)) trivial elsewhere_insert

theorem Session.follows_setPaused (hA : x.plan.At f c x.host) {now : Int} {call : ScheduleCall}
    {handler : Served} (paused : Bool) (note : String)
    (hserved : Client.served call.opcode = some handler) (hcheck : call.check = requireID id)
    (hserve : ∀ g : Frontend, g.serve (readAnyFields (call.request c)) handler =
      g.setPaused (readAnyFields (call.request c)) paused note)
    (hname : ∀ g : Frontend, g.named (readAnyFields (call.request c)) = g.ref c id)
    (hplan : ∀ d, x.plan id = some d →
      call.plan x.plan = Function.update x.plan id (some { d with paused }))
    (hanswer : ∀ answer, call.Answered x.plan answer) : x.Follows f c (now, call) := by
  cases hid : requireID id with
  | error e => exact follows_of_error hA (run_perform_of_refused (hcheck.trans hid))
  | ok u =>
    have hset : ∀ g : Frontend, (g.serve (readAnyFields (call.request c)) handler).run
        hostHandler x.host =
        match x.host.row (g.ref c id) with
        | some s => (.ok (.obj [("status", .str (if paused then "paused" else "running"))]),
            { x.host with schedules :=
                x.host.schedules.insert (g.ref c id) (pausedRow g.now paused note s) })
        | none => (.error (400, "schedule not found"), x.host) := by
      intro g
      rw [hserve, Frontend.setPaused, Program.run_bind, hname, run_pauseSchedule]
      cases x.host.row (g.ref c id) <;> rfl
    have hreply := hset { f with now }
    rw [show Frontend.ref { f with now } c id = f.ref c id from rfl] at hreply
    have hrel := hA.rows id
    cases hrow : x.host.row (f.ref c id) with
    | none =>
      rw [hrow] at hreply
      exact follows_of_error hA (run_perform (hcheck.trans hid) hserved hreply)
    | some s =>
      rw [hrow] at hreply hrel
      cases hd : x.plan id with
      | none =>
        rw [hd] at hrel
        cases hrel
      | some d =>
        rw [hd] at hrel
        obtain ⟨hheld⟩ := hrel
        refine follows_of_ok (run_perform (hcheck.trans hid) hserved hreply) ?_ (hanswer _)
          elsewhere_insert
        rw [hplan d hd]
        exact hA.insert (id_ne_of_requireID hid) ⟨hheld.cron, hheld.intervals,
          hheld.workflowType, hheld.taskQueue, hheld.input, rfl⟩

/-- A list is served as a delete of the empty id: nothing is deleted, and nothing is
listed. -/
theorem Session.follows_list (hA : x.plan.At f c x.host) (now : Int) {pageSize : Int}
    {token : String} (hapt : (ScheduleCall.list pageSize token).Apt x.plan) :
    x.Follows f c (now, .list pageSize token) := by
  have hname : ∀ g : Frontend,
      g.named (readAnyFields ((ScheduleCall.list pageSize token).request c)) = g.ref c "" := by
    intro g
    refine named_request rfl ?_ ?_ <;>
      simp [str, ScheduleCall.request, field_cons, field_append, field_omitZero_of_ne,
        field_omitEmpty_of_ne]
  have hreply : ∀ g : Frontend, (g.serve
      (readAnyFields ((ScheduleCall.list pageSize token).request c)) .deleteSchedule).run
      hostHandler x.host = (.ok (.obj [("status", .str "deleted")]),
        { x.host with schedules := x.host.schedules.erase (g.ref c "") }) := by
    intro g
    rw [Frontend.serve, Frontend.deleteSchedule, Program.run_bind, hname]
    rfl
  refine follows_of_ok (run_perform rfl rfl (hreply { f with now })) ⟨fun id => ?_, hA.named⟩
    (fun id => ?_) fun r hr => Host.row_erase_of_ne (hr "")
  · by_cases hid : id = ""
    · subst hid
      have hrow : Host.row { x.host with schedules := x.host.schedules.erase (f.ref c "") }
          (f.ref c "") = none := Host.row_erase_self
      show Option.Rel _ (x.plan "") _
      rw [hA.named]
      exact hrow ▸ .none
    · have hrow : Host.row { x.host with schedules := x.host.schedules.erase (f.ref c "") }
          (f.ref c id) = x.host.row (f.ref c id) :=
        Host.row_erase_of_ne (by rwa [ne_eq, Frontend.ref_inj])
      exact hrow ▸ hA.rows id
  · simp [ScheduleCall.answer, schedulesIn, Json.field, hapt id]

/-- A delete is served as a list. -/
theorem Session.follows_delete (hA : x.plan.At f c x.host) (now : Int)
    (hapt : (ScheduleCall.delete id).Apt x.plan) : x.Follows f c (now, .delete id) := by
  cases hid : requireID id with
  | error e => exact follows_of_error hA (run_perform_of_refused hid)
  | ok u =>
    have hchecked : (ScheduleCall.delete id).check = .ok () := hid
    refine follows_of_ok (run_perform hchecked rfl rfl) ?_ trivial elsewhere_self
    have hplan : (ScheduleCall.delete id).plan x.plan = x.plan := by
      rw [ScheduleCall.plan, ← show x.plan id = none from hapt, Function.update_eq_self]
    rw [hplan]
    exact hA

theorem Session.follows_describe (hA : x.plan.At f c x.host) (now : Int) :
    x.Follows f c (now, .describe id) := by
  cases hid : requireID id with
  | error e => exact follows_of_error hA (run_perform_of_refused hid)
  | ok u =>
    have hchecked : (ScheduleCall.describe id).check = .ok () := hid
    have hserve : ∀ g : Frontend, ∃ reply, (g.serve
        (readAnyFields ((ScheduleCall.describe id).request c)) .describeSchedule).run
        hostHandler x.host = (reply, x.host) := by
      intro g
      have hget : ∀ r, (Schedules.describeSchedule r).run.run hostHandler x.host =
          (.ok (x.host.row r), x.host) := fun _ => rfl
      rw [Frontend.serve, Frontend.describeSchedule, Program.run_bind, hget]
      cases x.host.row (g.named _) <;> exact ⟨_, rfl⟩
    obtain ⟨reply, hreply⟩ := hserve { f with now }
    have hrun := run_perform hchecked rfl hreply
    cases reply with
    | error e => exact follows_of_error hA hrun
    | ok body => exact follows_of_ok hrun hA trivial elsewhere_self

theorem Session.follows (hA : x.plan.At f c x.host) {e : Int × ScheduleCall}
    (hapt : e.2.Apt x.plan) : x.Follows f c e := by
  obtain ⟨now, call⟩ := e
  cases call with
  | create o => exact follows_create hA now hapt
  | list pageSize token => exact follows_list hA now hapt
  | describe id => exact follows_describe hA now
  | delete id => exact follows_delete hA now hapt
  | pause id paused =>
    have hread : pausedIn (readAnyFields ((ScheduleCall.pause id paused).request c)) = paused ∧
        str (readAnyFields ((ScheduleCall.pause id paused).request c)) "note" = "" := by
      simp [pausedIn, str, field_readAny, ScheduleCall.request, field_cons, field_nil, readAny]
    refine follows_setPaused hA paused "" rfl rfl (fun g => ?_)
      (fun g => named_request rfl rfl rfl) (fun d hd => ?_) fun _ => trivial
    · rw [Frontend.serve, hread.1, hread.2]
    · rw [ScheduleCall.plan, hd, Option.map_some]
  | update id s =>
    refine follows_setPaused hA false "" rfl rfl (fun g => rfl)
      (fun g => named_request rfl rfl rfl) (fun d hd => ?_) fun _ => trivial
    rw [ScheduleCall.plan, ← hapt d hd]
  | trigger id policy =>
    cases hid : requireID id with
    | error e => exact follows_of_error hA (run_perform_of_refused hid)
    | ok u =>
      have hchecked : (ScheduleCall.trigger id policy).check = .ok () := hid
      have hrun : ((ScheduleCall.trigger id policy).perform { f with now } c).run hostHandler
          x.host = (.error s!"zap call {0x0075}: no answer", x.host) := by
        simp only [ScheduleCall.perform, hchecked]
        rfl
      exact follows_of_error hA hrun

/-- The calls of a client drive the server as they say, where each of them is apt
when it is made. -/
theorem schedule_calls_driven (f : Frontend) (c : ClientImpl) (es : List (Int × ScheduleCall))
    (x : Session) (hA : x.plan.At f c x.host) (hapt : x.AptAll f c es) : x.DrivenAll f c es := by
  induction es generalizing x with
  | nil => trivial
  | cons e es ih =>
    have hfollows := Session.follows hA hapt.1
    exact ⟨hfollows.driven, ih _ hfollows.plan hapt.2⟩

def emptySession : Session where
  host.worlds _ := { clock := fun _ => 0, ids := fun i => toString i, orgs := fun _ => true }
  plan _ := none

def plainFrontend : Frontend where
  cal := minuteCalendar
  tenant := ""
  defaultNS := "default"
  now := 0

def plainClient : ClientImpl where
  ns := "n"

theorem emptySession_at : emptySession.plan.At plainFrontend plainClient emptySession.host where
  rows _ := .none
  named := rfl

theorem schedule_calls_driven_pause :
    emptySession.DrivenAll plainFrontend plainClient
      [(0, .list 0 ""), (1, .create nightlyOptions), (2, .pause "nightly" true),
        (3, .describe "nightly")] := by
  refine schedule_calls_driven plainFrontend plainClient _ _ emptySession_at
    ⟨fun _ => rfl, fun _ => ⟨rfl, ?_⟩, trivial, trivial, trivial⟩
  simp [nightlyOptions, readAny, readAnyElems]

/-- A schedule that is deleted is still there, one that is listed is not named, and
one that is updated is as it was. -/
theorem schedule_calls_misdirected :
    ¬emptySession.DrivenAll plainFrontend plainClient
        [(0, .create nightlyOptions), (1, .delete "nightly")] ∧
      ¬emptySession.DrivenAll plainFrontend plainClient
        [(0, .create nightlyOptions), (1, .list 0 "")] ∧
      ¬emptySession.DrivenAll plainFrontend plainClient
        [(0, .create nightlyOptions), (1, .update "nightly" frequentOptions.schedule)] := by
  refine ⟨fun h => ?_, fun h => ?_, fun h => ?_⟩
  · have hrel := (h.2.1.plan [] rfl).rows "nightly"
    generalize hrow : Host.row _ _ = row at hrel
    obtain rfl : row = none := by
      cases hrel
      rfl
    exact absurd (congrArg Option.isSome hrow) (by decide +kernel)
  · obtain ⟨j, hj, -⟩ := (h.2.1.answer [] rfl "nightly").mpr fun hnone =>
      absurd (congrArg Option.isSome hnone) (by decide +kernel)
    cases hj
  · have hrel := (h.2.1.plan [] rfl).rows "nightly"
    generalize hrow : Host.row _ _ = row at hrel
    obtain ⟨s, rfl, hcron⟩ : ∃ s, row = some s ∧ s.spec.cronString = [] := by
      cases hrel with
      | some hheld => exact ⟨_, rfl, hheld.cron⟩
    refine absurd (congrArg (Option.map fun s => s.spec.cronString) hrow) ?_
    rw [Option.map_some, hcron]
    decide +kernel

end DurableTasks.Client
