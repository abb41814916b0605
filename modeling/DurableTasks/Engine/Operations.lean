import DurableTasks.Engine.Durable

/-!
The operations of an engine and the process that runs them: one at a time,
with a crash possible between any two accesses and `Recover` run at boot.
-/

namespace DurableTasks

open Effects

inductive Operation where
  | registerNamespace (name : String) (n : Namespace)
  | start (a : Engine.StartRequest)
  | signalWithStart (a : Engine.StartRequest) (name : String) (payload : Json)
  | signal (target : Target) (name : String) (payload : Json) (identity : String)
  | cancel (target : Target) (reason identity : String)
  | terminate (target : Target) (reason identity : String)
  | updateMetadata (target : Target) (m : WorkflowUserMetadata)
  | reset (target : Target) (eventID : Int) (reason identity : String)
  | respondWorkflow (token : Nat) (cmds : List Command)
  | respondActivityCompleted (token : Nat) (result : Raw)
  | respondActivityFailed (token : Nat) (failure : Raw)
  | retryTimer (r : RunRef) (seq : Int)
  | sweepCanceling (expired : List RunRef)
  | purge (r : RunRef) (cutoff : Nat)
  | subscribe (ns queue : String)
  | unsubscribe (ns queue : String)
  | recover

namespace Engine

/-- What an operation runs. `fuel` bounds the index walk of a recovery. -/
def program (fuel : Nat) : Operation → Program Effect Effect.Answer Unit
  | .registerNamespace name n => drop (registerNamespace name n)
  | .start a => drop (startWorkflowFull a)
  | .signalWithStart a name payload => drop (signalWithStartFull a name payload)
  | .signal target name payload identity => drop (signalWorkflow target name payload identity)
  | .cancel target reason identity => drop (cancelWorkflowWithReason target reason identity)
  | .terminate target reason identity => drop (terminateWorkflowWithReason target reason identity)
  | .updateMetadata target m => drop (updateWorkflowMetadata target m)
  | .reset target eventID reason identity => drop (resetWorkflow target eventID reason identity)
  | .respondWorkflow token cmds => drop (respondWorkflow token cmds)
  | .respondActivityCompleted token result => drop (respondActivityCompleted token result)
  | .respondActivityFailed token failure => drop (respondActivityFailed token failure)
  | .retryTimer r seq => drop (retryTimer r seq)
  | .sweepCanceling expired => drop (sweepCanceling expired)
  | .purge r cutoff => drop (purgeWorkflowRun r cutoff)
  | .subscribe ns queue => drop (subscribe ns queue)
  | .unsubscribe ns queue => drop (unsubscribe ns queue)
  | .recover => drop (recover fuel)

/-- The engine as a process. -/
def system (fuel : Nat) : System Effect Effect.Answer World Operation where
  handler := handler
  program := program fuel
  recover := drop (recover fuel)
  begin := World.begin
  crash := World.crash

def emptyShard : World :=
  { clock := fun n => 100 + n, ids := fun n => s!"id{n}", orgs := fun _ => true }

def startRun : Operation :=
  .start { ns := "n", workflowId := "wf", runId := some "r", type := "T" }

def notDraw : Effect → Bool
  | .newRunId => false
  | _ => true

end Engine

end DurableTasks
