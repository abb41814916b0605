import DurableTasks.Engine.Operations
import DurableTasks.Listing.Owned

/-!
Standalone activities: their records, the keys they are stored under, and the
accesses the engine makes. They live beside the workflow runs of a shard, share
its namespace registry and its run ids, and have a store of their own.

The clock is read in nanoseconds here. A time that is stored is an RFC 3339
text, which keeps whole seconds only.
-/

namespace DurableTasks

open Std Effects

inductive ActivityState where
  | scheduled
  | started
  | completed
  | failed
  | canceled
deriving DecidableEq

def ActivityState.isTerminal : ActivityState → Bool
  | completed | failed | canceled => true
  | scheduled | started => false

def ActivityState.name : ActivityState → String
  | scheduled => "ACTIVITY_TASK_STATE_SCHEDULED"
  | started => "ACTIVITY_TASK_STATE_STARTED"
  | completed => "ACTIVITY_TASK_STATE_COMPLETED"
  | failed => "ACTIVITY_TASK_STATE_FAILED"
  | canceled => "ACTIVITY_TASK_STATE_CANCELED"

structure ActivityRetryPolicy where
  initialInterval : String := ""
  backoffCoefficient : ℚ := 0
  maximumInterval : String := ""
  maximumAttempts : Int := 0
  nonRetryableErrorTypes : List String := []

structure ActivityTimeouts where
  scheduleToClose : String := ""
  scheduleToStart : String := ""
  startToClose : String := ""
  heartbeat : String := ""

/-- `StandaloneActivity`. Times are in seconds; `heartbeatTimeout` is what its
text parses to, in nanoseconds, if that is a positive duration. -/
structure StandaloneActivity where
  type : String
  taskQueue : String
  status : ActivityState
  startTime : Nat
  closeTime : Option Nat := none
  retryPolicy : Option ActivityRetryPolicy := none
  input : Json
  result : Json := .null
  failureCause : String := ""
  identity : String
  attempt : Nat
  maximumAttempts : Int
  timeouts : ActivityTimeouts := {}
  heartbeatTimeout : Option Nat
  lastHeartbeatTime : Option Nat := none
  leaseExpiry : Option Nat := none
  historyLength : Nat := 0

/-- What an event of an activity's history records. The constructors are the
event types `ACTIVITY_TASK_*`. -/
inductive ActivityEventAttrs where
  | scheduled (activityType taskQueue : String) (input : Json) (identity : String)
  | started (identity : String) (attempt : Nat) (leaseExpiry : Nat)
  | timedOut (reason : String) (attempt : Nat)
  | heartbeat (details : Json)
  | completed (result : Json) (identity : String)
  | failed (cause identity : String)
  | canceled (reason identity : String)

structure ActivityEvent where
  eventId : Nat
  eventTime : Nat
  attrs : ActivityEventAttrs

/-- What is stored under one activity: `act/` and `ahist/`. The activity id
stands where a run has its workflow id. -/
structure ActivityData where
  row : Option StandaloneActivity := none
  hist : TreeMap Nat ActivityEvent := {}

structure ActivityStore where
  runs : TreeMap RunRef ActivityData RunRef.cmp := {}
  idem : TreeMap (List String) String := {}

inductive ActivityKey where
  | act (r : RunRef)
  | ahist (r : RunRef) (id : Nat)
  | aidem (ns activityID request : String)
deriving DecidableEq

abbrev ActivityKey.Val : ActivityKey → Type
  | act _ => StandaloneActivity
  | ahist _ _ => ActivityEvent
  | aidem _ _ _ => String

namespace ActivityStore

def run (s : ActivityStore) (r : RunRef) : ActivityData := s.runs.getD r {}

def setRun (s : ActivityStore) (r : RunRef) (d : ActivityData) : ActivityStore :=
  { s with runs := s.runs.insert r d }

def get (s : ActivityStore) : (k : ActivityKey) → Option k.Val
  | .act r => (s.run r).row
  | .ahist r id => (s.run r).hist[id]?
  | .aidem ns activityID req => s.idem[[ns, activityID, req]]?

def put (s : ActivityStore) : (k : ActivityKey) → k.Val → ActivityStore
  | .act r, v => s.setRun r { s.run r with row := some v }
  | .ahist r id, v => s.setRun r { s.run r with hist := (s.run r).hist.insert id v }
  | .aidem ns activityID req, v => { s with idem := s.idem.insert [ns, activityID, req] v }

def del (s : ActivityStore) : ActivityKey → ActivityStore
  | .act r => s.setRun r { s.run r with row := none }
  | .ahist r id => s.setRun r { s.run r with hist := (s.run r).hist.erase id }
  | .aidem ns activityID req => { s with idem := s.idem.erase [ns, activityID, req] }

def rows (s : ActivityStore) (ns : String) : List (RunRef × StandaloneActivity) :=
  s.runs.toList.filterMap fun p =>
    if p.1.ns = ns then p.2.row.map fun a => (p.1, a) else none

def events (s : ActivityStore) (r : RunRef) : List (Nat × ActivityEvent) := (s.run r).hist.toList

def requests (s : ActivityStore) (ns activityID : String) : List (String × String) :=
  s.idem.toList.filterMap fun p =>
    match p.1 with
    | [ns', id, req] => if ns' = ns ∧ id = activityID then some (req, p.2) else none
    | _ => none

@[simp] theorem get_empty (k : ActivityKey) : ({} : ActivityStore).get k = none := by
  cases k <;> simp [get, run]

theorem run_setRun (s : ActivityStore) (r r' : RunRef) (d : ActivityData) :
    (s.setRun r d).run r' = if r' = r then d else s.run r' := by
  simp only [run, setRun, TreeMap.getD_insert, LawfulEqCmp.compare_eq_iff_eq]
  by_cases hr : r' = r
  · simp [hr]
  · simp [hr, Ne.symm hr]

@[simp] theorem get_put_self (s : ActivityStore) (k : ActivityKey) (v : k.Val) :
    (s.put k v).get k = some v := by
  cases k <;> simp [get, put, run_setRun]

theorem get_put_of_ne (s : ActivityStore) {k k' : ActivityKey} (v : k.Val) (hk : k' ≠ k) :
    (s.put k v).get k' = s.get k' := by
  cases k <;> cases k' <;>
    first
    | rfl
    | (simp only [get, put, run_setRun, TreeMap.getElem?_insert]
       grind)

@[simp] theorem get_del_self (s : ActivityStore) (k : ActivityKey) : (s.del k).get k = none := by
  cases k <;> simp [get, del, run_setRun]

theorem get_del_of_ne (s : ActivityStore) {k k' : ActivityKey} (hk : k' ≠ k) :
    (s.del k).get k' = s.get k' := by
  cases k <;> cases k' <;>
    first
    | rfl
    | (simp only [get, del, run_setRun, TreeMap.getElem?_erase]
       grind)

end ActivityStore

def activityKeyed : Listing.Keyed ActivityStore ActivityKey ActivityKey.Val :=
  ⟨ActivityStore.get, ActivityStore.del, ActivityStore.get_del_self,
    fun s => ActivityStore.get_del_of_ne s⟩

namespace ActivityStore

theorem get_foldl_del (keys : List ActivityKey) (s : ActivityStore) (k : ActivityKey) :
    (keys.foldl del s).get k = if k ∈ keys then none else s.get k :=
  Listing.get_foldl_del (D := activityKeyed) keys s k

theorem mem_rows {s : ActivityStore} {ns : String} {r : RunRef} {a : StandaloneActivity} :
    (r, a) ∈ s.rows ns ↔ r.ns = ns ∧ s.get (.act r) = some a :=
  Listing.mem_filterMap_toList s.runs (RunRef.ns · = ns) ActivityData.row rfl

theorem pairwise_rows (s : ActivityStore) (ns : String) : Listing.Sorted RunRef.cmp (s.rows ns) :=
  Listing.sorted_filterMap_toList s.runs (RunRef.ns · = ns) ActivityData.row

theorem nodup_rows (s : ActivityStore) (ns : String) : ((s.rows ns).map Prod.fst).Nodup :=
  (s.pairwise_rows ns).nodup_keys

theorem mem_events {s : ActivityStore} {r : RunRef} {id : Nat} {ev : ActivityEvent} :
    (id, ev) ∈ s.events r ↔ s.get (.ahist r id) = some ev := by
  simp [events, get, TreeMap.mem_toList_iff_getElem?_eq_some]

end ActivityStore

/-! ## The shard -/

/-- A shard: the world of its workflow runs, and its standalone activities. -/
structure Shard where
  world : World
  acts : ActivityStore := {}
  /-- Successive readings of the clock, in nanoseconds. -/
  clock : Nat → Nat
  ticks : Nat := 0

inductive ActivityEffect where
  | describeNamespace (name : String)
  | get (k : ActivityKey)
  | put (k : ActivityKey) (v : k.Val)
  | del (k : ActivityKey)
  | rows (ns : String)
  | events (r : RunRef)
  | requests (ns activityID : String)
  | now
  | newRunId
  /-- The claim lock of a namespace. -/
  | lock (ns : String)
  | unlock (ns : String)

abbrev ActivityEffect.Answer : ActivityEffect → Type
  | describeNamespace _ => Except String (Option Namespace)
  | get k => Except String (Option k.Val)
  | put _ _ => Except String Unit
  | del _ => Except String Unit
  | rows _ => Except String (List (RunRef × StandaloneActivity))
  | events _ => Except String (List (Nat × ActivityEvent))
  | requests _ _ => Except String (List (String × String))
  | now => Nat
  | newRunId => String
  | _ => Unit

namespace Shard

def tick (s : Shard) : Shard := { s with ticks := s.ticks + 1 }

def time (s : Shard) : Nat := s.clock s.ticks

def mint (s : Shard) : Shard := { s with world := s.world.mint }

def put (s : Shard) (k : ActivityKey) (v : k.Val) : Shard := { s with acts := s.acts.put k v }

def del (s : Shard) (k : ActivityKey) : Shard := { s with acts := s.acts.del k }

end Shard

/-- The meaning of the accesses when nothing fails and nothing runs beside. -/
def activityHandler : Handler ActivityEffect ActivityEffect.Answer Shard
  | .describeNamespace name, s => (.ok (s.world.store.get (.ns name)), s)
  | .get k, s => (.ok (s.acts.get k), s)
  | .put k v, s => (.ok (), s.put k v)
  | .del k, s => (.ok (), s.del k)
  | .rows ns, s => (.ok (s.acts.rows ns), s)
  | .events r, s => (.ok (s.acts.events r), s)
  | .requests ns activityID, s => (.ok (s.acts.requests ns activityID), s)
  | .now, s => (s.time, s.tick)
  | .newRunId, s => (s.world.nextId, s.mint)
  | .lock _, s => ((), s)
  | .unlock _, s => ((), s)

end DurableTasks
