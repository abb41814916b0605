import DurableTasks.Client.Requests
import DurableTasks.Schedules.Basic

/-!
The schedule of `CreateSchedule`, from the options of a caller over the body of
the request to the row the server stores. The client sends the interval as
`interval_ms` and the server looks for `interval`.
-/

namespace DurableTasks.Client

open Schedules

/-! ## The client -/

/-- `ScheduleSpec` of the client. Durations are in nanoseconds; times are in
milliseconds, and `none` where they are zero. -/
structure ScheduleSpec where
  cron : List String := []
  interval : Int := 0
  startTime : Option Int := none
  endTime : Option Int := none
  jitter : Int := 0
  timezone : String := ""

structure ScheduleAction where
  workflowID : String := ""
  workflowType : String
  taskQueue : String
  input : List Json := []

structure Schedule where
  id : String
  spec : ScheduleSpec
  action : ScheduleAction
  paused : Bool := false

structure CreateScheduleOptions where
  id : String
  cronExpressions : List String := []
  interval : Int := 0
  startTime : Option Int := none
  endTime : Option Int := none
  jitter : Int := 0
  timezone : String := ""
  workflowID : String := ""
  workflowType : String
  taskQueue : String
  input : List Json := []
  paused : Bool := false

def milliseconds (d : Int) : Int := d.tdiv 1000000

def omitZero (k : String) (n : Int) : List (String × Json) := omitEmpty k (n = 0) (.num n)

/-- `MarshalJSON` of a spec, by way of `scheduleSpecWire`. -/
def ScheduleSpec.wire (s : ScheduleSpec) : List (String × Json) :=
  omitEmpty "cron" s.cron.isEmpty (.arr (s.cron.map .str)) ++
    omitZero "interval_ms" (milliseconds s.interval) ++
    omitZero "start_time_ms" (s.startTime.getD 0) ++
    omitZero "end_time_ms" (s.endTime.getD 0) ++
    omitZero "jitter_ms" (milliseconds s.jitter) ++
    omitEmpty "timezone" (s.timezone = "") (.str s.timezone)

def ScheduleAction.wire (a : ScheduleAction) : List (String × Json) :=
  omitEmpty "workflow_id" (a.workflowID = "") (.str a.workflowID) ++
    [("workflow_type", .str a.workflowType), ("task_queue", .str a.taskQueue)] ++
    omitEmpty "input" a.input.isEmpty (.arr a.input)

def Schedule.wire (s : Schedule) : List (String × Json) :=
  [("id", .str s.id), ("spec", .obj s.spec.wire), ("action", .obj s.action.wire)] ++
    omitEmpty "paused" (!s.paused) (.bool s.paused)

/-- `createScheduleRequest` and `updateScheduleRequest`. -/
def ClientImpl.scheduleRequest (c : ClientImpl) (id : String) (s : Schedule) :
    List (String × Json) :=
  [("namespace", .str c.ns), ("schedule_id", .str id), ("schedule", .obj s.wire)]

def CreateScheduleOptions.check (o : CreateScheduleOptions) : Except String Unit :=
  if o.id = "" then throw "hanzo/tasks/client: schedule ID is required"
  else if o.workflowType = "" then
    throw "hanzo/tasks/client: schedule action WorkflowType is required"
  else if o.taskQueue = "" then throw "hanzo/tasks/client: schedule action TaskQueue is required"
  else if o.cronExpressions.isEmpty ∧ o.interval = 0 then
    throw "hanzo/tasks/client: schedule spec needs CronExpressions or Interval"
  else pure ()

def CreateScheduleOptions.schedule (o : CreateScheduleOptions) : Schedule :=
  { id := o.id
    spec :=
      { cron := o.cronExpressions, interval := o.interval, startTime := o.startTime
        endTime := o.endTime, jitter := o.jitter, timezone := o.timezone }
    action :=
      { workflowID := o.workflowID, workflowType := o.workflowType, taskQueue := o.taskQueue
        input := o.input }
    paused := o.paused }

/-! ## The server -/

def cronOf : Option Json → List String
  | some (.arr elems) => elems.filterMap fun
    | .str s => some s
    | _ => none
  | _ => []

def intervalOf (entry : Json) : String :=
  match entry.field "interval" with
  | some (.str s) => s
  | _ => ""

def intervalsOf : Option Json → List String
  | some (.arr elems) => elems.map intervalOf
  | _ => []

def specOf (spec : List (String × Json)) : DurableTasks.ScheduleSpec :=
  { cronString := cronOf ((Json.obj spec).field "cron")
    interval := intervalsOf ((Json.obj spec).field "interval") }

def actionOf (action : List (String × Json)) : DurableTasks.ScheduleAction :=
  { workflowType := str action "workflow_type"
    taskQueue := str action "task_queue"
    input := ((Json.obj action).field "input").getD .null }

def rowOf (sched : List (String × Json)) : DurableTasks.Schedule :=
  { spec := specOf (fieldsIn sched "spec")
    action := actionOf (fieldsIn sched "action")
    state := { paused := (Json.obj sched).field "paused" matches some (.bool true) } }

structure ScheduleRequest where
  ns : String
  id : String
  row : DurableTasks.Schedule

def scheduleFromSDK (req : List (String × Json)) (defaultNS : String) : ScheduleRequest :=
  { ns := strOr req "namespace" defaultNS
    id := strOr req "schedule_id" (str req "scheduleId")
    row := rowOf (fieldsIn req "schedule") }

/-! ## What arrives -/

section Arrival

variable {l : List (String × Json)} {k k' : String} {v : Json}

theorem field_omitEmpty {empty : Bool} :
    (Json.obj (omitEmpty k empty v)).field k = if empty then none else some v := by
  unfold omitEmpty
  split_ifs
  · rfl
  · rw [field_cons, if_pos rfl]

theorem field_omitZero_of_ne {n : Int} (h : k' ≠ k) :
    (Json.obj (omitZero k' n)).field k = none :=
  field_omitEmpty_of_ne h

theorem str_readAny : str (readAnyFields l) k = str l k := by
  rw [str, field_readAny, str]
  cases (Json.obj l).field k with
  | none => rfl
  | some j =>
    cases j with
    | num q | real q => cases h : Float64.ofRat q <;> simp [readAny, h]
    | _ => simp [readAny]

theorem fieldsIn_readAny : fieldsIn (readAnyFields l) k = readAnyFields (fieldsIn l k) := by
  rw [fieldsIn, field_readAny, fieldsIn]
  cases (Json.obj l).field k with
  | none => rfl
  | some j =>
    cases j with
    | num q | real q => cases h : Float64.ofRat q <;> simp [readAny, readAnyFields, h]
    | _ => simp [readAny, readAnyFields]

theorem readAnyElems_str (cron : List String) :
    readAnyElems (cron.map .str) = cron.map .str := by
  induction cron with
  | nil => rfl
  | cons cs cron ih => rw [List.map_cons, readAnyElems, ih, readAny]

theorem cronOf_str (cron : List String) : cronOf (some (.arr (cron.map .str))) = cron := by
  rw [cronOf, List.filterMap_map]
  exact List.filterMap_some

end Arrival

/-- The spec that is read of a client's: no field is named `interval`. -/
theorem specOf_wire (s : ScheduleSpec) :
    specOf (readAnyFields s.wire) = { cronString := s.cron, interval := [] } := by
  have hcron : (Json.obj s.wire).field "cron" =
      if s.cron.isEmpty then none else some (.arr (s.cron.map .str)) := by
    simp [ScheduleSpec.wire, field_append, field_omitEmpty, field_omitEmpty_of_ne,
      field_omitZero_of_ne]
  have hinterval : (Json.obj s.wire).field "interval" = none := by
    simp [ScheduleSpec.wire, field_append, field_omitEmpty_of_ne, field_omitZero_of_ne]
  rw [specOf, field_readAny, field_readAny, hcron, hinterval]
  congr 1
  cases hempty : s.cron.isEmpty with
  | true =>
    rw [List.isEmpty_iff.mp hempty]
    rfl
  | false =>
    rw [if_neg (by simp), Option.map_some, readAny, readAnyElems_str, cronOf_str]

theorem actionOf_wire (a : ScheduleAction) :
    actionOf (readAnyFields a.wire) =
      { workflowType := a.workflowType
        taskQueue := a.taskQueue
        input := if a.input.isEmpty then .null else readAny (.arr a.input) } := by
  have htype : str a.wire "workflow_type" = a.workflowType := by
    simp [str, ScheduleAction.wire, field_append, field_cons, field_omitEmpty_of_ne]
  have hqueue : str a.wire "task_queue" = a.taskQueue := by
    simp [str, ScheduleAction.wire, field_append, field_cons, field_omitEmpty_of_ne]
  have hinput : (Json.obj a.wire).field "input" =
      if a.input.isEmpty then none else some (.arr a.input) := by
    simp [ScheduleAction.wire, field_append, field_cons, field_omitEmpty, field_omitEmpty_of_ne]
  rw [actionOf, str_readAny, str_readAny, htype, hqueue, field_readAny, hinput]
  congr 1
  split_ifs <;> rfl

/-- The row that is made of a client's schedule. -/
def Schedule.arrived (s : Schedule) : DurableTasks.Schedule :=
  { spec := { cronString := s.spec.cron }
    action :=
      { workflowType := s.action.workflowType
        taskQueue := s.action.taskQueue
        input := if s.action.input.isEmpty then .null else readAny (.arr s.action.input) }
    state := { paused := s.paused } }

theorem rowOf_wire (s : Schedule) : rowOf (readAnyFields s.wire) = s.arrived := by
  have hpaused : (Json.obj s.wire).field "paused" =
      if s.paused then some (.bool true) else none := by
    cases hp : s.paused <;>
      simp [Schedule.wire, field_cons, field_omitEmpty, hp]
  rw [rowOf, fieldsIn_readAny, fieldsIn_readAny, field_readAny, hpaused]
  rw [show fieldsIn s.wire "spec" = s.spec.wire from rfl,
    show fieldsIn s.wire "action" = s.action.wire from rfl, specOf_wire, actionOf_wire]
  cases hp : s.paused <;> simp [Schedule.arrived, readAny, hp]

/-- What the server makes of a request for a schedule. -/
theorem scheduleFromSDK_request (c : ClientImpl) (id : String) (s : Schedule) (defaultNS : String) :
    scheduleFromSDK (readAnyFields (c.scheduleRequest id s)) defaultNS =
      { ns := c.served defaultNS, id, row := s.arrived } := by
  have habsent : str (readAnyFields (c.scheduleRequest id s)) "scheduleId" = "" := by
    rw [str_readAny]
    rfl
  have hid : strOr (readAnyFields (c.scheduleRequest id s)) "schedule_id" "" = id := by
    rw [strOr_empty, str_readAny]
    rfl
  rw [scheduleFromSDK, habsent, hid, fieldsIn_readAny,
    show fieldsIn (c.scheduleRequest id s) "schedule" = s.wire from rfl, rowOf_wire, strOr,
    str_readAny]
  rfl

/-! ## What was asked for -/

def CreateScheduleOptions.intervals (o : CreateScheduleOptions) : List Int :=
  if o.interval = 0 then [] else [o.interval]

def CreateScheduleOptions.inputValue (o : CreateScheduleOptions) : Json :=
  if o.input.isEmpty then .null else .arr o.input

def CreateScheduleOptions.cronFires (cal : Calendar) (o : CreateScheduleOptions) (after : Int) :
    List (Option Int) :=
  o.cronExpressions.filterMap fun cs => (cal.parseCron cs).map fun next => next after

def CreateScheduleOptions.fires (cal : Calendar) (o : CreateScheduleOptions) (after : Int) :
    List (Option Int) :=
  o.cronFires cal after ++
    o.intervals.filterMap fun d => if d ≤ 0 then none else some (some (after + d))

/-- A row is what was asked for, and fires when it was asked to. -/
structure CreateScheduleOptions.Kept (cal : Calendar) (o : CreateScheduleOptions)
  (s : DurableTasks.Schedule) : Prop where
  cron : s.spec.cronString = o.cronExpressions
  interval : s.spec.interval.map cal.parseDuration = o.intervals.map some
  workflowType : s.action.workflowType = o.workflowType
  taskQueue : s.action.taskQueue = o.taskQueue
  input : s.action.input = o.inputValue
  paused : s.state.paused = o.paused
  fires : ∀ after, Least (o.fires cal after) (nextScheduleFire cal s.spec after)

def CreateScheduleOptions.created (o : CreateScheduleOptions) (c : ClientImpl)
    (defaultNS : String) : ScheduleRequest :=
  scheduleFromSDK (readAnyFields (c.scheduleRequest o.id o.schedule)) defaultNS

/-- What is stored fires with its crontabs only. -/
theorem nextScheduleFire_arrived (cal : Calendar) (o : CreateScheduleOptions) (after : Int) :
    nextScheduleFire cal o.schedule.arrived.spec after =
      (o.cronFires cal after).foldl earlier none := by
  rw [nextScheduleFire, candidates]
  exact congrArg (List.foldl earlier none) (List.append_nil _)

theorem intervals_eq_nil {o : CreateScheduleOptions} : o.intervals = [] ↔ o.interval = 0 := by
  unfold CreateScheduleOptions.intervals
  split_ifs with h <;> simp [h]

theorem input_arrived_iff (o : CreateScheduleOptions) :
    o.schedule.arrived.action.input = o.inputValue ↔ readAny (.arr o.input) = .arr o.input := by
  show (if o.input.isEmpty then .null else readAny (.arr o.input)) =
    (if o.input.isEmpty then .null else .arr o.input) ↔ _
  cases o.input with
  | nil => exact iff_of_true rfl (by rw [readAny, readAnyElems])
  | cons j rest => rfl

/-- A schedule is kept as asked for exactly if it has no interval, the numbers of
its input survive `float64`, and no crontab that has run out of ticks hides an
earlier fire of one before it. -/
theorem createSchedule_kept_iff (cal : Calendar) (c : ClientImpl) (o : CreateScheduleOptions)
    (defaultNS : String) :
    o.Kept cal (o.created c defaultNS).row ↔
      o.interval = 0 ∧ readAny (.arr o.input) = .arr o.input ∧
        ∀ after, Settled (o.cronFires cal after) := by
  rw [CreateScheduleOptions.created, scheduleFromSDK_request]
  dsimp only
  have hfires : o.interval = 0 → ∀ after, o.fires cal after = o.cronFires cal after := by
    intro hinterval after
    rw [CreateScheduleOptions.fires, intervals_eq_nil.mpr hinterval]
    exact List.append_nil _
  constructor
  · intro h
    have hinterval : o.interval = 0 :=
      intervals_eq_nil.mp (List.map_eq_nil_iff.mp h.interval.symm)
    refine ⟨hinterval, (input_arrived_iff o).mp h.input, fun after => ?_⟩
    rw [← least_foldl_iff, ← nextScheduleFire_arrived, ← hfires hinterval]
    exact h.fires after
  · rintro ⟨hinterval, hinput, hsettled⟩
    refine ⟨rfl, ?_, rfl, rfl, (input_arrived_iff o).mpr hinput, rfl, fun after => ?_⟩
    · rw [intervals_eq_nil.mpr hinterval]
      rfl
    · rw [hfires hinterval, nextScheduleFire_arrived, least_foldl_iff]
      exact hsettled after

/-- A calendar with one crontab, which ticks every minute, and no durations. -/
def minuteCalendar : Calendar where
  parseCron cs :=
    if cs = "* * * * *" then some fun t => some ((t / 60000000000 + 1) * 60000000000) else none
  parseDuration _ := none
  format _ := ""

def nightlyOptions : CreateScheduleOptions where
  id := "nightly"
  cronExpressions := ["* * * * *"]
  workflowType := "Backup"
  taskQueue := "q"
  input := [.str "full"]

theorem createSchedule_kept_nightly :
    nightlyOptions.check = .ok () ∧
      nightlyOptions.Kept minuteCalendar (nightlyOptions.created { ns := "n" } "default").row := by
  refine ⟨rfl, (createSchedule_kept_iff minuteCalendar { ns := "n" } nightlyOptions "default").mpr
    ⟨rfl, by simp [nightlyOptions, readAny, readAnyElems], fun after l₁ l₂ hl => ?_⟩⟩
  have hmem : none ∈ nightlyOptions.cronFires minuteCalendar after := by
    rw [hl]
    simp
  simp [CreateScheduleOptions.cronFires, nightlyOptions, minuteCalendar] at hmem

def frequentOptions : CreateScheduleOptions where
  id := "frequent"
  interval := 10000000000
  workflowType := "Poll"
  taskQueue := "q"

/-- The interval is lost, and the stored schedule never fires. -/
theorem createSchedule_drops_interval :
    frequentOptions.check = .ok () ∧
      (frequentOptions.created { ns := "n" } "default").row.spec.interval = [] ∧
      (∀ after, nextScheduleFire minuteCalendar
        (frequentOptions.created { ns := "n" } "default").row.spec after = none) ∧
      ¬frequentOptions.Kept minuteCalendar
        (frequentOptions.created { ns := "n" } "default").row := by
  refine ⟨rfl, ?_, fun after => ?_, fun h => ?_⟩
  · rw [CreateScheduleOptions.created, scheduleFromSDK_request]
    rfl
  · rw [CreateScheduleOptions.created, scheduleFromSDK_request]
    rfl
  · have hinterval := h.interval
    rw [CreateScheduleOptions.created, scheduleFromSDK_request] at hinterval
    simp [CreateScheduleOptions.intervals, frequentOptions, Schedule.arrived] at hinterval

end DurableTasks.Client
