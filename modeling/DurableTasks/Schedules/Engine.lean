import DurableTasks.Effects.Embed
import DurableTasks.Engine.Workflow
import DurableTasks.Schedules.Basic
import Mathlib.Data.List.Dedup

/-!
The schedules of all tenants: what callers do to one, and the sweep that fires
those that are due.
-/

namespace DurableTasks

open Std Effects Engine

structure ScheduleRef where
  tenant : String
  ns : String
  id : String
deriving DecidableEq

namespace ScheduleRef

def path (r : ScheduleRef) : List String := [r.tenant, r.ns, r.id]

def cmp (a b : ScheduleRef) : Ordering := compareOn path a b

instance : TransCmp cmp := inferInstanceAs (TransCmp (compareOn path))

instance : LawfulEqCmp cmp where
  compare_self {a} := by
    simp only [cmp, compareOn]
    exact ReflCmp.compare_self
  eq_of_compare {a b} h := by
    have hpath : a.path = b.path := LawfulEqCmp.eq_of_compare h
    cases a
    cases b
    simpa [path] using hpath

end ScheduleRef

/-- A run that was started for a schedule: for a tick, in seconds, or for a manual
trigger. -/
structure Fire where
  schedule : ScheduleRef
  tick : Option Int
  run : RunRef

structure Host where
  worlds : String → World
  schedules : TreeMap ScheduleRef Schedule ScheduleRef.cmp := {}
  /-- The `workflow.started` events of runs that schedules started. -/
  fires : List Fire := []
  /-- The schedules reported because a sweep could not start their run. -/
  failed : List ScheduleRef := []

namespace Host

def row (h : Host) (r : ScheduleRef) : Option Schedule := h.schedules[r]?

def tenants (h : Host) : List String := (h.schedules.toList.map fun p => p.1.tenant).dedup

def rowsOf (h : Host) (tenant : String) : List (ScheduleRef × Schedule) :=
  h.schedules.toList.filter fun p => p.1.tenant = tenant

def setWorld (h : Host) (tenant : String) (w : World) : Host :=
  { h with worlds := Function.update h.worlds tenant w }

end Host

inductive HostEffect where
  | workflow (tenant : String) (e : Effect)
  | tenants
  | rowsOf (tenant : String)
  | get (r : ScheduleRef)
  | put (r : ScheduleRef) (s : Schedule)
  | del (r : ScheduleRef)
  | started (f : Fire)
  | reportFire (r : ScheduleRef) (failed : Bool)

abbrev HostEffect.Answer : HostEffect → Type
  | workflow _ e => e.Answer
  | tenants => Except String (List String)
  | rowsOf _ => Except String (List (ScheduleRef × Schedule))
  | get _ => Except String (Option Schedule)
  | put _ _ => Except String Unit
  | del _ => Except String Unit
  | started _ => Unit
  | reportFire _ _ => Unit

def hostHandler : Handler HostEffect HostEffect.Answer Host
  | .workflow tenant e, h =>
    ((handler e (h.worlds tenant)).1, h.setWorld tenant (handler e (h.worlds tenant)).2)
  | .tenants, h => (.ok h.tenants, h)
  | .rowsOf tenant, h => (.ok (h.rowsOf tenant), h)
  | .get r, h => (.ok (h.row r), h)
  | .put r s, h => (.ok (), { h with schedules := h.schedules.insert r s })
  | .del r, h => (.ok (), { h with schedules := h.schedules.erase r })
  | .started f, h => ((), { h with fires := h.fires ++ [f] })
  | .reportFire r failed, h => ((), { h with failed := h.failed ++ if failed then [r] else [] })

namespace Schedules

abbrev Scheduling (α : Type) := ExceptT String (Program HostEffect HostEffect.Answer) α

section Accesses

def onTenant {α : Type} (tenant : String) (x : Go α) : Scheduling α :=
  ExceptT.mk (x.run.embed (HostEffect.workflow tenant) fun _ r => r)

def tenants : Scheduling (List String) := ExceptT.mk (Program.perform HostEffect.tenants)

def rowsOf (tenant : String) : Scheduling (List (ScheduleRef × Schedule)) :=
  ExceptT.mk (Program.perform (HostEffect.rowsOf tenant))

def describeSchedule (r : ScheduleRef) : Scheduling (Option Schedule) :=
  ExceptT.mk (Program.perform (HostEffect.get r))

def putSchedule (r : ScheduleRef) (s : Schedule) : Scheduling Unit :=
  ExceptT.mk (Program.perform (HostEffect.put r s))

def delSchedule (r : ScheduleRef) : Scheduling Unit :=
  ExceptT.mk (Program.perform (HostEffect.del r))

def started (f : Fire) : Scheduling Unit :=
  ExceptT.lift (Program.perform (HostEffect.started f))

def reportFire (r : ScheduleRef) (failed : Bool) : Scheduling Unit :=
  ExceptT.lift (Program.perform (HostEffect.reportFire r failed))

def attempt {α : Type} (x : Scheduling α) : Scheduling (Except String α) := ExceptT.lift x.run

end Accesses

variable (cal : Calendar)

def withNext (now : Int) (s : Schedule) : Schedule :=
  match nextScheduleFire cal s.spec now with
  | some next => { s with info := { s.info with nextActionTime := some (seconds next) } }
  | none => s

def createdRow (now : Int) (s : Schedule) : Schedule :=
  withNext cal now { s with info := { s.info with createTime := some (seconds now) } }

def createSchedule (now : Int) (r : ScheduleRef) (s : Schedule) : Scheduling Unit :=
  if r.id = "" then throw "scheduleId required"
  else if r.ns = "" then throw "namespace required"
  else putSchedule r (createdRow cal now s)

def deleteSchedule (r : ScheduleRef) : Scheduling Unit := delSchedule r

def pausedRow (now : Int) (paused : Bool) (note : String) (s : Schedule) : Schedule :=
  { s with
    state := { paused := paused, note := note }
    info := { s.info with updateTime := some (seconds now) } }

def pauseSchedule (now : Int) (r : ScheduleRef) (paused : Bool) (note : String) :
    Scheduling Unit := do
  match ← attempt (describeSchedule r) with
  | .ok (some s) => putSchedule r (pausedRow now paused note s)
  | _ => throw "schedule not found"

def updatedRow (now : Int) (new s : Schedule) : Schedule :=
  withNext cal now { new with info := { s.info with updateTime := some (seconds now) } }

def updateSchedule (now : Int) (r : ScheduleRef) (new : Schedule) : Scheduling Schedule := do
  match ← describeSchedule r with
  | none => throw "schedule not found"
  | some s => do
      putSchedule r (updatedRow cal now new s)
      return updatedRow cal now new s

def stamps (r : ScheduleRef) (tick : Option Int) : List (String × Json) :=
  ("ScheduleId", .str r.id) ::
    (tick.map fun t => ("TemporalScheduledStartTime", Json.str (cal.format t))).toList

def startRun (r : ScheduleRef) (tick : Option Int) (s : Schedule) :
    Scheduling (RunRef × WorkflowExecution) := do
  let p ← onTenant r.tenant (startWorkflowFull
    { ns := r.ns, type := s.action.workflowType, taskQueue := s.action.taskQueue
      input := s.action.input, searchAttrs := stamps cal r tick })
  started ⟨r, tick, p.1⟩
  return p

def priorTrigger (r : ScheduleRef) (requestID : String) :
    Scheduling (Option (RunRef × WorkflowExecution)) :=
  if requestID = "" then return none
  else do
    match ← attempt (onTenant r.tenant (get (.sctrig r.ns r.id requestID))) with
    | .ok (some (wf, run)) =>
      if run = "" then return none
      else
        match ← attempt (onTenant r.tenant (describeWorkflow ⟨r.ns, wf, some run⟩)) with
        | .ok found => return found
        | .error _ => return none
    | _ => return none

def countedRow (now : Int) (s : Schedule) : Schedule :=
  { s with
    info :=
      { s.info with
        actionCount := s.info.actionCount + 1
        updateTime := some (seconds now) } }

def triggerSchedule (now : Int) (r : ScheduleRef) (requestID : String) :
    Scheduling (RunRef × WorkflowExecution) := do
  match ← describeSchedule r with
  | none => throw "schedule not found"
  | some s =>
    match ← priorTrigger r requestID with
    | some p => return p
    | none => do
        let p ← startRun cal r none s
        putSchedule r (countedRow now s)
        if requestID = "" then return p
        else do
          let _ ← attempt
            (onTenant r.tenant (put (.sctrig r.ns r.id requestID) (p.1.wf, p.1.run)))
          return p

/-! ## The sweep -/

structure Due where
  schedule : ScheduleRef
  row : Schedule
  tick : Int

def due (now : Int) (p : ScheduleRef × Schedule) : Option Due :=
  if p.2.state.paused then none
  else
    match nextScheduleFire cal p.2.spec (anchorTime p.2 now) with
    | some tick => if now < tick then none else some ⟨p.1, p.2, tick⟩
    | none => none

def collect : List String → Scheduling (List (ScheduleRef × Schedule))
  | [] => return []
  | tenant :: rest => do
      let rows ← rowsOf tenant
      let later ← collect rest
      return rows ++ later

def anchored (now : Int) (s : Schedule) : Schedule :=
  withNext cal now (countedRow now s)

/-- One turn of the second phase. A schedule whose run does not start is left as
it is. -/
def fire (now : Int) (d : Due) : Scheduling Unit := do
  match ← attempt (startRun cal d.schedule (some (seconds d.tick)) d.row) with
  | .ok _ => do
      reportFire d.schedule false
      putSchedule d.schedule (anchored cal now d.row)
  | .error _ => reportFire d.schedule true

def sweepSchedules (now : Int) : Scheduling Unit := do
  let rows ← collect (← tenants)
  (rows.filterMap (due cal now)).forM (fire cal now)

/-! ## Operations -/

inductive ScheduleOperation where
  | create (r : ScheduleRef) (s : Schedule)
  | delete (r : ScheduleRef)
  | pause (r : ScheduleRef) (paused : Bool) (note : String)
  | update (r : ScheduleRef) (new : Schedule)
  | trigger (r : ScheduleRef) (requestID : String)
  | sweep

def drop {α : Type} (x : Scheduling α) : Program HostEffect HostEffect.Answer Unit :=
  x.run >>= fun _ => pure ()

namespace ScheduleOperation

def program (now : Int) : ScheduleOperation → Program HostEffect HostEffect.Answer Unit
  | create r s => drop (createSchedule cal now r s)
  | delete r => drop (deleteSchedule r)
  | pause r paused note => drop (pauseSchedule now r paused note)
  | update r new => drop (updateSchedule cal now r new)
  | trigger r requestID => drop (triggerSchedule cal now r requestID)
  | sweep => drop (sweepSchedules cal now)

end ScheduleOperation

end Schedules

end DurableTasks
