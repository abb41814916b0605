import DurableTasks.Dispatch.Basic

/-!
The server: an engine view for every tenant, and one dispatcher for all of
them. The functions of the engine run over the store of a tenant and the shared
dispatcher; what they push goes to whoever is subscribed to the queue.

A query waits for the worker's answer under a token of its own, which is not
modelled: only that it is sent, and to whom.
-/

namespace DurableTasks.Dispatch

open Effects Engine

namespace Dispatcher

/-- `PushCancelRequest`: the peers that are reached among the subscribers of the
run's queue. -/
def pushCancelRequest (reach : Nat → String → Bool) (d : Dispatcher) (r : RunRef)
    (queue : String) : List String × Dispatcher :=
  let subs := d.subsOf ⟨r.ns, queue, .workflow⟩
  ((subs.zipIdx.filter fun p => reach (d.sends + p.2) p.1.peerID).map fun p => p.1.peerID,
    { d with sends := d.sends + subs.length })

/-- `PushQuery`: the peer that is reached, if any. One that cannot be is not
pruned. -/
def pushQuery (reach : Nat → String → Bool) (d : Dispatcher) (r : RunRef) (queue : String) :
    Option String × Dispatcher :=
  match d.pick ⟨r.ns, queue, .workflow⟩ with
  | none => (none, d)
  | some (s, d') =>
    (if reach d.sends s.peerID then some s.peerID else none, { d' with sends := d.sends + 1 })

end Dispatcher

def Work.workflow? : Work → Option WorkflowTask
  | .workflow t => some t
  | .activity _ => none

def Work.activity? : Work → Option ActivityTask
  | .workflow _ => none
  | .activity t => some t

/-- The process. `subscribed` and `pushed` are ghosts: who subscribed as whom,
and which peers were sent a cancel request or a query of whose run. -/
structure Server where
  tenants : Process
  disp : Dispatcher := {}
  subscribed : List (String × Principal) := []
  pushed : List (String × Principal) := []

namespace Server

variable (reach : Nat → String → Bool)

def sent (s : Server) : List (String × Principal) :=
  s.disp.delivered.map (fun x => (x.1, x.2.principal)) ++ s.pushed

def act (s : Server) (a : Action) : Server := { s with disp := (s.disp.act reach a).getD s.disp }

def handle (p : Principal) : Handler Effect Effect.Answer Server
  | .enqueueWorkflowTask t, s => ((), s.act reach (.enqueue p (.workflow t)))
  | .dispatchActivity t _, s => ((), s.act reach (.enqueue p (.activity t)))
  | .completeWorkflowTask token, s =>
    ((s.disp.consume .workflow token).1.bind fun t => t.work.workflow?,
      { s with disp := (s.disp.consume .workflow token).2 })
  | .resolveActivityToken token, s =>
    ((s.disp.consume .activity token).1.bind fun t => t.work.activity?,
      { s with disp := (s.disp.consume .activity token).2 })
  | .hasSubscribers ns queue, s => (!(s.disp.subsOf ⟨ns, queue, .workflow⟩).isEmpty, s)
  | .pushCancelRequest r queue, s =>
    let sent := s.disp.pushCancelRequest reach r queue
    ((), { s with disp := sent.2, pushed := s.pushed ++ sent.1.map fun peer => (peer, p) })
  | .pushQuery r queue _, s =>
    let sent := s.disp.pushQuery reach r queue
    (sent.1.isSome,
      { s with disp := sent.2, pushed := s.pushed ++ sent.1.toList.map fun peer => (peer, p) })
  | .subscribe _ _, s => ((), s)
  | .unsubscribe _ _, s => ((), s)
  | e, s =>
    let done := handler e (s.tenants p)
    (done.1, { s with tenants := Function.update s.tenants p done.2 })

def taskOf (s : Server) : Operation → Option Task
  | .respondWorkflow token _ => (s.disp.byToken .workflow).find? fun t => t.token = token
  | .respondActivityCompleted token _ | .respondActivityFailed token _ =>
    (s.disp.byToken .activity).find? fun t => t.token = token
  | _ => none

/-- The view an operation runs in: an answer goes to the tenant of its task
(`en.As(pt.principal)`), whoever sends it. -/
def viewOf (s : Server) (p : Principal) (o : Operation) : Principal :=
  ((s.taskOf o).map Task.principal).getD p

def orgPrincipal (org : String) : Principal := { org := org }

end Server

/-- What a server that requires identity is asked. `org` is the org of the
caller's token, empty if there is no valid one. -/
inductive Request where
  | subscribe (org peerID ns queue : String) (kind : TaskKind)
  | unsubscribe (org : String) (subID : Nat)
  | disconnect (peerID : String)
  | call (org : String) (o : Operation)
  | query (org : String) (target : Target) (queryType : String)
  /-- An answer of a worker: the token is its authority. -/
  | answer (o : Operation)
  /-- A timer, a sweep or a call of the embedding program, in the view of `p`. -/
  | internal (p : Principal) (o : Operation)

/-- One request. `scope` refuses a caller without a valid token. -/
def Server.serve (reach : Nat → String → Bool) (fuel : Nat) (s : Server) : Request → Server
  | .subscribe org peerID ns queue kind =>
    if org = "" then s
    else
      { s.act reach (.subscribe peerID ns queue kind) with
        subscribed := s.subscribed ++ [(peerID, orgPrincipal org)] }
  | .unsubscribe org subID => if org = "" then s else s.act reach (.unsubscribe subID)
  | .disconnect peerID => s.act reach (.removePeer peerID)
  | .call org o =>
    if org = "" then s
    else ((program fuel o).run (handle reach (s.viewOf (orgPrincipal org) o)) s).2
  | .query org target queryType =>
    if org = "" then s
    else ((drop (queryWorkflow target queryType)).run (handle reach (orgPrincipal org)) s).2
  | .answer o => ((program fuel o).run (handle reach (s.viewOf .root o)) s).2
  | .internal p o => ((program fuel o).run (handle reach (s.viewOf p o)) s).2

def Server.run (reach : Nat → String → Bool) (fuel : Nat) (s : Server) (reqs : List Request) :
    Server :=
  reqs.foldl (Server.serve reach fuel) s

end DurableTasks.Dispatch
