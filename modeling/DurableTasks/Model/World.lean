import DurableTasks.Effects.Fallible
import DurableTasks.Effects.System
import DurableTasks.Model.Store

/-!
The world an engine works in: the store, which survives a crash, and the
dispatcher, retry timers and cancel marks, which do not. Every access is one
effect, so that a crash or another operation can fall between any two.

Three fields are ghosts, written by no code of the engine: `window` says which
group of writes the running operation is in the middle of, `closings` what each
run was closed by, and `dispatched` which attempts were handed out.
-/

namespace DurableTasks

open Effects

/-- A store write. `close` is a ghost: it stores nothing and notes, just before
a run's closing row is written, what the run is closed by. -/
inductive Write where
  | put (k : Key) (v : k.Val)
  | del (k : Key)
  | close (r : RunRef) (c : Closing)

def Store.apply (s : Store) : Write → Store
  | .put k v => s.put k v
  | .del k => s.del k
  | .close _ _ => s

inductive Query where
  | rows (ns wf : String)
  | page (ns : String) (after : Option RunRef) (limit : Nat)
  | events (r : RunRef)
  | acts (r : RunRef)
  | opens (ns : String)
  | namespaces
  | requests (ns wf : String)
  | triggers (ns schedule : String)

abbrev Query.Row : Query → Type
  | rows _ _ => RunRef × WorkflowExecution
  | page _ _ _ => RunRef × WorkflowExecution
  | events _ => Nat × HistoryEvent
  | acts _ => Int × WorkflowActivity
  | opens _ => RunRef
  | namespaces => String
  | requests _ _ => String × String
  | triggers _ _ => String × String × String

def Store.list (s : Store) : (q : Query) → List q.Row
  | .rows ns wf => s.rows ns wf
  | .page ns after limit => s.page ns after limit
  | .events r => s.events r
  | .acts r => s.acts r
  | .opens ns => s.opens ns
  | .namespaces => s.names
  | .requests ns wf => s.requests ns wf
  | .triggers ns sid => s.triggers ns sid

/-- The group of writes the last write of an operation leaves unfinished. -/
inductive Window where
  /-- None. -/
  | settled
  /-- An event is stored and the row does not count it yet. -/
  | event (r : RunRef) (id : Nat) (attrs : EventAttrs)
  /-- A run is about to be closed. -/
  | closing (r : RunRef) (c : Closing)
  /-- The closing row is stored, its index entry still there. -/
  | closed (r : RunRef) (c : Closing)
  /-- The index entry is gone, the terminal event not yet stored. -/
  | unlisted (r : RunRef) (c : Closing)
  /-- A terminal activity record is stored without its event. -/
  | outcome (r : RunRef) (seq : Int) (a : WorkflowActivity)
  /-- Some of a run's keys are deleted, its row not yet. -/
  | purging (r : RunRef)

def Window.next (win : Window) : Write → Window
  | .put (.wfh r id) ev => .event r id ev.attrs
  | .put (.wf r) _ =>
    match win with
    | .closing r' c => if r' = r then .closed r c else .settled
    | _ => .settled
  | .put (.wfact r seq) a => if a.isTerminal then .outcome r seq a else .settled
  | .put _ _ => .settled
  | .del (.wfopen r) =>
    match win with
    | .closed r' (.event st attrs) => if r' = r then .unlisted r (.event st attrs) else .settled
    | .purging r' => .purging r'
    | _ => .settled
  | .del (.wfh r _) | .del (.wfact r _) => .purging r
  | .del (.idem _ _ _) | .del (.sctrig _ _ _) => win
  | .del _ => .settled
  | .close r c => .closing r c

/-- The in-memory dispatcher: the tokens of the tasks handed out and not yet
answered, and the `(namespace, queue)` pairs with a workflow worker. -/
structure Dispatcher where
  nextToken : Nat := 0
  wfByToken : List (Nat × WorkflowTask) := []
  actByToken : List (Nat × ActivityTask) := []
  subs : List (String × String) := []

structure World where
  store : Store := {}
  disp : Dispatcher := {}
  timers : List (RunRef × Int) := []
  cancelling : List RunRef := []
  /-- Successive readings of the clock. -/
  clock : Nat → Nat
  ticks : Nat := 0
  /-- Successive draws of `newRunId`. -/
  ids : Nat → String
  minted : Nat := 0
  /-- The names the shared namespace layout accepts as they are written. -/
  orgs : String → Bool
  window : Window := .settled
  closings : List (RunRef × Closing) := []
  dispatched : List (RunRef × Int × Nat) := []

inductive Effect where
  | get (k : Key)
  | write (x : Write)
  | list (q : Query)
  | enqueueWorkflowTask (t : WorkflowTask)
  | dispatchActivity (t : ActivityTask) (attempt : Nat)
  | completeWorkflowTask (token : Nat)
  | resolveActivityToken (token : Nat)
  | hasSubscribers (ns queue : String)
  | subscribe (ns queue : String)
  | unsubscribe (ns queue : String)
  | pushCancelRequest (r : RunRef) (queue : String)
  | pushQuery (r : RunRef) (queue queryType : String)
  | recordFailure (id : FailureIdentity) (retrying : Bool)
  | clearFailure (id : FailureIdentity)
  | afterFunc (r : RunRef) (seq : Int)
  | fire (r : RunRef) (seq : Int)
  | mark (r : RunRef)
  | clear (r : RunRef)
  | now
  | newRunId
  | isOrg (name : String)
  | lock (r : RunRef)
  | unlock (r : RunRef)

/-- What an access answers. Store accesses can fail. -/
abbrev Effect.Answer : Effect → Type
  | get k => Except String (Option k.Val)
  | write _ => Except String Unit
  | list q => Except String (List q.Row)
  | completeWorkflowTask _ => Option WorkflowTask
  | resolveActivityToken _ => Option ActivityTask
  | hasSubscribers _ _ => Bool
  | pushQuery _ _ _ => Bool
  | fire _ _ => Bool
  | now => Nat
  | newRunId => String
  | isOrg _ => Bool
  | _ => Unit

namespace Dispatcher

/-- `EnqueueWorkflowTask`: mint a token for the task and keep it until it is
answered. Delivery to a subscribed worker and waiting in the queue are the same
here: a worker may answer a token at any later time. -/
def enqueueWorkflowTask (d : Dispatcher) (t : WorkflowTask) : Dispatcher :=
  { d with nextToken := d.nextToken + 1, wfByToken := (d.nextToken, t) :: d.wfByToken }

def dispatchActivity (d : Dispatcher) (t : ActivityTask) : Dispatcher :=
  { d with nextToken := d.nextToken + 1, actByToken := (d.nextToken, t) :: d.actByToken }

def completeWorkflowTask (d : Dispatcher) (token : Nat) : Option WorkflowTask × Dispatcher :=
  ((d.wfByToken.find? fun p => p.1 = token).map Prod.snd,
    { d with wfByToken := d.wfByToken.filter fun p => p.1 ≠ token })

def resolveActivityToken (d : Dispatcher) (token : Nat) : Option ActivityTask × Dispatcher :=
  ((d.actByToken.find? fun p => p.1 = token).map Prod.snd,
    { d with actByToken := d.actByToken.filter fun p => p.1 ≠ token })

end Dispatcher

namespace World

def write (w : World) (x : Write) : World :=
  { w with
    store := w.store.apply x
    window := w.window.next x
    closings := match x with
      | .close r c => (r, c) :: w.closings
      | _ => w.closings }

def enqueue (w : World) (t : WorkflowTask) : World :=
  { w with disp := w.disp.enqueueWorkflowTask t }

def dispatch (w : World) (t : ActivityTask) (attempt : Nat) : World :=
  { w with
    disp := w.disp.dispatchActivity t
    dispatched := (t.ref, t.seq, attempt) :: w.dispatched }

def tick (w : World) : World := { w with ticks := w.ticks + 1 }

def mint (w : World) : World := { w with minted := w.minted + 1 }

def time (w : World) : Nat := w.clock w.ticks

def nextId (w : World) : String := w.ids w.minted

end World

/-- The meaning of the accesses when nothing fails. Locks are free: operations
run one at a time here. -/
def handler : Handler Effect Effect.Answer World
  | .get k, w => (.ok (w.store.get k), w)
  | .write x, w => (.ok (), w.write x)
  | .list q, w => (.ok (w.store.list q), w)
  | .enqueueWorkflowTask t, w => ((), w.enqueue t)
  | .dispatchActivity t attempt, w => ((), w.dispatch t attempt)
  | .completeWorkflowTask token, w =>
    ((w.disp.completeWorkflowTask token).1,
      { w with disp := (w.disp.completeWorkflowTask token).2 })
  | .resolveActivityToken token, w =>
    ((w.disp.resolveActivityToken token).1,
      { w with disp := (w.disp.resolveActivityToken token).2 })
  | .hasSubscribers ns queue, w => (w.disp.subs.contains (ns, queue), w)
  | .subscribe ns queue, w =>
    ((), { w with disp := { w.disp with subs := (ns, queue) :: w.disp.subs } })
  | .unsubscribe ns queue, w =>
    ((), { w with disp := { w.disp with subs := w.disp.subs.erase (ns, queue) } })
  | .pushCancelRequest _ _, w => ((), w)
  | .pushQuery r queue _, w => (w.disp.subs.contains (r.ns, queue), w)
  | .recordFailure _ _, w => ((), w)
  | .clearFailure _, w => ((), w)
  | .afterFunc r seq, w => ((), { w with timers := (r, seq) :: w.timers })
  | .fire r seq, w =>
    (w.timers.contains (r, seq), { w with timers := w.timers.erase (r, seq) })
  | .mark r, w => ((), { w with cancelling := r :: w.cancelling })
  | .clear r, w => ((), { w with cancelling := w.cancelling.filter fun r' => r' ≠ r })
  | .now, w => (w.time, w.tick)
  | .newRunId, w => (w.nextId, w.mint)
  | .isOrg name, w => (w.orgs name, w)
  | .lock _, w => ((), w)
  | .unlock _, w => ((), w)

/-- A crash keeps the store and forgets the rest. Tokens are signed with a
secret drawn at boot, so none of them comes back. -/
def World.crash (w : World) : World :=
  { w with
    disp := { nextToken := w.disp.nextToken }
    timers := []
    cancelling := []
    dispatched := [] }

def World.begin (w : World) : World := { w with window := .settled }

end DurableTasks
