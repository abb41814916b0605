import DurableTasks.Engine.Operations
import Mathlib.Logic.Function.Basic

/-!
One process for many tenants. Every tenant has shards of its own and an engine
view over them; the dispatcher is shared. A task carries the principal it was
enqueued under, and an answer to it is applied through that principal's view
(`en.As(pt.principal)`), so the tokens of the dispatcher fall apart by tenant.
-/

namespace DurableTasks

open Effects Engine

structure Principal where
  org : String := ""
  project : String := ""
  user : String := ""
deriving DecidableEq

def Principal.root : Principal := {}

/-- The view of every tenant, with the part of the dispatcher that is about its
tasks. -/
abbrev Process := Principal → World

structure TaskToken where
  principal : Principal
  id : Nat
deriving DecidableEq

namespace Process

/-- `Embed`: the memory of an earlier process is gone, and `Recover` runs on the
embedded engine, which is the view of the root tenant. -/
def boot (fuel : Nat) (P : Process) : Process :=
  Function.update (fun p => (P p).crash) .root
    ((drop (recover fuel)).run handler (P .root).crash.begin).2

def perform (fuel : Nat) (P : Process) (p : Principal) (o : Operation) : Process :=
  Function.update P p ((program fuel o).run handler (P p).begin).2

def resolve (P : Process) (t : TaskToken) : Option ActivityTask :=
  ((P t.principal).disp.resolveActivityToken t.id).1

@[simp] theorem perform_self (fuel : Nat) (P : Process) (p : Principal) (o : Operation) :
    P.perform fuel p o p = ((program fuel o).run handler (P p).begin).2 := by
  simp [perform]

theorem perform_of_ne {fuel : Nat} {P : Process} {p q : Principal} {o : Operation} (h : q ≠ p) :
    P.perform fuel p o q = P q := by
  simp [perform, h]

end Process

/-- An activity answered: its token, the task that was out for it, whether a
failure was reported, and the process before and after. -/
structure Answer where
  token : TaskToken
  task : ActivityTask
  failed : Bool
  before : Process
  after : Process

/-- The activity an operation answers, if it holds a token. -/
def Process.answer (fuel : Nat) (P : Process) (p : Principal) (o : Operation) : Option Answer :=
  match o with
  | .respondActivityCompleted token _ =>
    (P.resolve ⟨p, token⟩).map fun task => ⟨⟨p, token⟩, task, false, P, P.perform fuel p o⟩
  | .respondActivityFailed token failure =>
    (P.resolve ⟨p, token⟩).map fun task =>
      ⟨⟨p, token⟩, task, !failure.isEmpty, P, P.perform fuel p o⟩
  | _ => none

def failures (log : List Answer) (p : Principal) (r : RunRef) (seq : Int) : Nat :=
  log.countP fun x => x.failed = true ∧ x.token.principal = p ∧ (x.task.ref, x.task.seq) = (r, seq)

structure Moment where
  process : Process
  log : List Answer := []

end DurableTasks
