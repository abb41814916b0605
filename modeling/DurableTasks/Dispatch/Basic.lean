import DurableTasks.Engine.Process

/-!
The dispatcher: which worker subscribed to which queue, which tasks wait for
one, and who was handed what. Workflow and activity tasks go the same way, so
what the source writes twice is one function of the kind here.

The slices of a map are kept in one list, the slice of a key being its entries in
order; subscription ids are unique, so one is looked for in the whole list. A
send may fail at any time: `reach i p` says whether the `i`-th send reaches the
peer `p`.
-/

namespace DurableTasks.Dispatch

inductive TaskKind where
  | workflow
  | activity
deriving DecidableEq

structure SubKey where
  ns : String
  queue : String
  kind : TaskKind
deriving DecidableEq

structure Subscription where
  id : Nat
  peerID : String
  key : SubKey
deriving DecidableEq

inductive Work where
  | workflow (t : WorkflowTask)
  | activity (t : ActivityTask)

def Work.kind : Work → TaskKind
  | .workflow _ => .workflow
  | .activity _ => .activity

def Work.key : Work → SubKey
  | .workflow t => ⟨t.ref.ns, t.queue, .workflow⟩
  | .activity t => ⟨t.ref.ns, t.queue, .activity⟩

structure Task where
  token : Nat
  principal : Principal
  work : Work

def Task.key (t : Task) : SubKey := t.work.key

/-- The dispatcher's tables. `enqueued` and `delivered` are ghosts: the tasks it
was ever given, and each send of one that succeeded, in order. -/
structure Dispatcher where
  subs : List Subscription := []
  byPeer : List Subscription := []
  rrIdx : SubKey → Nat := fun _ => 0
  /-- `pendingWF` and `pendingAct`. -/
  pending : SubKey → List Task := fun _ => []
  /-- `wfByToken` and `actByToken`. -/
  byToken : TaskKind → List Task := fun _ => []
  /-- `workerPeer` and `dispatchedToPeer` of a task, by its token. -/
  workerPeer : Nat → Option String := fun _ => none
  nextSub : Nat := 0
  nextToken : Nat := 0
  sends : Nat := 0
  enqueued : List Task := []
  delivered : List (String × Task) := []

def dropSub (id : Nat) (l : List Subscription) : List Subscription :=
  l.eraseP fun s => s.id = id

namespace Dispatcher

variable (reach : Nat → String → Bool)

def subsOf (d : Dispatcher) (key : SubKey) : List Subscription :=
  d.subs.filter fun s => s.key = key

/-- `pickLocked`: the next subscriber of a key in round-robin order. -/
def pick (d : Dispatcher) (key : SubKey) : Option (Subscription × Dispatcher) :=
  let list := d.subsOf key
  let i := d.rrIdx key % list.length
  list[i]?.map fun s =>
    (s, { d with rrIdx := Function.update d.rrIdx key ((i + 1) % list.length) })

def removeSub (d : Dispatcher) (sub : Subscription) : Dispatcher :=
  let subs := dropSub sub.id d.subs
  { d with
    subs := subs
    byPeer := dropSub sub.id d.byPeer
    rrIdx := if subs.any fun s => s.key = sub.key then d.rrIdx
      else Function.update d.rrIdx sub.key 0 }

def offer (d : Dispatcher) (s : Subscription) (t : Task) : Dispatcher :=
  { d with
    workerPeer := Function.update d.workerPeer t.token (some s.peerID)
    sends := d.sends + 1 }

def accept (d : Dispatcher) (s : Subscription) (t : Task) : Dispatcher :=
  { d with delivered := d.delivered ++ [(s.peerID, t)] }

/-- `deliverWFLocked`, `deliverActLocked`: try the subscribers of a key in turn,
pruning each one that cannot be reached. `fuel` bounds the loop. -/
def deliver : Nat → Dispatcher → SubKey → Task → Option (Bool × Dispatcher)
  | 0, _, _, _ => none
  | fuel + 1, d, key, t =>
    match d.pick key with
    | none => some (false, d)
    | some (s, d') =>
      if reach d.sends s.peerID then some (true, (d'.offer s t).accept s t)
      else deliver fuel ((d'.offer s t).removeSub s) key t

def drainTasks (fuel : Nat) (key : SubKey) : List Task → Dispatcher → Option Dispatcher
  | [], d => some d
  | t :: rest, d =>
    match d.deliver reach fuel key t with
    | none => none
    | some (false, d) => some d
    | some (true, d) =>
      drainTasks fuel key rest { d with pending := Function.update d.pending key rest }

def drain (fuel : Nat) (d : Dispatcher) (key : SubKey) : Option Dispatcher :=
  d.drainTasks reach fuel key (d.pending key)

def addSub (d : Dispatcher) (peerID : String) (key : SubKey) : Dispatcher :=
  let sub : Subscription := ⟨d.nextSub, peerID, key⟩
  { d with
    subs := d.subs ++ [sub]
    byPeer := d.byPeer ++ [sub]
    nextSub := d.nextSub + 1 }

/-- `Subscribe`. A call without a peer, namespace or queue is refused. -/
def subscribe (fuel : Nat) (d : Dispatcher) (peerID ns queue : String) (kind : TaskKind) :
    Option Dispatcher :=
  if peerID = "" ∨ ns = "" ∨ queue = "" then some d
  else drain reach fuel (d.addSub peerID ⟨ns, queue, kind⟩) ⟨ns, queue, kind⟩

def unsubscribe (d : Dispatcher) (subID : Nat) : Dispatcher :=
  match d.subs.find? fun s => s.id = subID with
  | none => d
  | some _ => { d with subs := dropSub subID d.subs, byPeer := dropSub subID d.byPeer }

/-- `RemovePeer`: every subscription of a peer that is gone. -/
def removePeer (d : Dispatcher) (peerID : String) : Dispatcher :=
  let held := d.byPeer.filter fun s => s.peerID = peerID
  let subs := held.foldl (fun subs s => dropSub s.id subs) d.subs
  { d with
    subs := subs
    byPeer := d.byPeer.filter fun s => s.peerID ≠ peerID
    rrIdx := fun key =>
      if held.any (fun s => s.key = key) ∧ ¬subs.any (fun s => s.key = key) then 0
      else d.rrIdx key }

def mint (d : Dispatcher) (t : Task) : Dispatcher :=
  { d with
    nextToken := d.nextToken + 1
    byToken := Function.update d.byToken t.work.kind (t :: d.byToken t.work.kind)
    enqueued := d.enqueued ++ [t] }

def queue (d : Dispatcher) (t : Task) : Dispatcher :=
  { d with pending := Function.update d.pending t.key (d.pending t.key ++ [t]) }

/-- `EnqueueWorkflowTask`, `DispatchActivity`: mint a token for the work, and
hand it to a subscriber or keep it until one comes. -/
def enqueue (fuel : Nat) (d : Dispatcher) (principal : Principal) (work : Work) :
    Option Dispatcher :=
  let t : Task := ⟨d.nextToken, principal, work⟩
  match (d.mint t).deliver reach fuel t.key t with
  | none => none
  | some (true, d) => some d
  | some (false, d) => some (d.queue t)

/-- `CompleteWorkflowTask`, `ResolveActivityToken`: consume a token. -/
def consume (d : Dispatcher) (kind : TaskKind) (token : Nat) : Option Task × Dispatcher :=
  let left := (d.byToken kind).filter fun t => t.token ≠ token
  ((d.byToken kind).find? fun t => t.token = token,
    { d with byToken := Function.update d.byToken kind left })

end Dispatcher

inductive Action where
  | subscribe (peerID ns queue : String) (kind : TaskKind)
  | unsubscribe (subID : Nat)
  | removePeer (peerID : String)
  | enqueue (principal : Principal) (work : Work)
  | consume (kind : TaskKind) (token : Nat)

/-- One call, with `reach` the outcomes of its sends. Its loops are given fuel
for each subscription there is, and one round more. -/
def Dispatcher.act (reach : Nat → String → Bool) (d : Dispatcher) : Action → Option Dispatcher
  | .subscribe peerID ns queue kind =>
    d.subscribe reach (d.subs.length + 2) peerID ns queue kind
  | .unsubscribe subID => some (d.unsubscribe subID)
  | .removePeer peerID => some (d.removePeer peerID)
  | .enqueue principal work => d.enqueue reach (d.subs.length + 1) principal work
  | .consume kind token => some (d.consume kind token).2

def Dispatcher.run (d : Dispatcher) : List (Action × (Nat → String → Bool)) → Option Dispatcher
  | [] => some d
  | (a, reach) :: rest => (d.act reach a).bind fun d => d.run rest

end DurableTasks.Dispatch
