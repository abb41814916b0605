import DurableTasks.Model.World

/-!
The monad the engine's functions are written in, its primitive accesses, and
how each of them is reasoned about. `Go α` is a function that returns
`(α, error)`; an error ends the function unless its caller looks at it.
-/

namespace DurableTasks

open Effects

variable {Q : Post Unit World} {queue ns : String} {r : RunRef} {seq : Int}

abbrev Go (α : Type) := ExceptT String (Program Effect Effect.Answer) α

namespace Engine

def get (k : Key) : Go (Option k.Val) := ExceptT.mk (Program.perform (Effect.get k))

def write (x : Write) : Go Unit := ExceptT.mk (Program.perform (Effect.write x))

def put (k : Key) (v : k.Val) : Go Unit := write (.put k v)

def del (k : Key) : Go Unit := write (.del k)

def list (q : Query) : Go (List q.Row) := ExceptT.mk (Program.perform (Effect.list q))

def describeNamespace (name : String) : Go (Option Namespace) := get (.ns name)

def getRow (r : RunRef) : Go (Option WorkflowExecution) := get (.wf r)

def getWorkflowActivity (r : RunRef) (seq : Int) : Go (Option WorkflowActivity) :=
  get (.wfact r seq)

def getIndexed (ns : String) : Go (Option Nat) := get (.wfidx ns)

def lookupIdempotency (ns wf requestID : String) : Go (Option String) :=
  get (.idem ns wf requestID)

def listRows (ns wf : String) : Go (List (RunRef × WorkflowExecution)) := list (.rows ns wf)

/-- `page`: up to `limit` rows of a namespace after the key `after`. -/
def page (ns : String) (after : Option RunRef) (limit : Nat) :
    Go (List (RunRef × WorkflowExecution)) :=
  list (.page ns after limit)

def listEvents (r : RunRef) : Go (List (Nat × HistoryEvent)) := list (.events r)

def listWorkflowActivities (r : RunRef) : Go (List (Int × WorkflowActivity)) := list (.acts r)

def listOpen (ns : String) : Go (List RunRef) := list (.opens ns)

def listNamespaces : Go (List String) := list .namespaces

def listRequests (ns wf : String) : Go (List (String × String)) := list (.requests ns wf)

def listTriggers (ns sid : String) : Go (List (String × String × String)) :=
  list (.triggers ns sid)

def call (e : Effect) : Go e.Answer := ExceptT.lift (Program.perform e)

def now : Go Nat := call .now

def newRunId : Go String := call .newRunId

def isOrg (name : String) : Go Bool := call (.isOrg name)

def enqueueWorkflowTask (t : WorkflowTask) : Go Unit := call (.enqueueWorkflowTask t)

def dispatchActivity (t : ActivityTask) (attempt : Nat) : Go Unit :=
  call (.dispatchActivity t attempt)

def completeWorkflowTask (token : Nat) : Go (Option WorkflowTask) :=
  call (.completeWorkflowTask token)

def resolveActivityToken (token : Nat) : Go (Option ActivityTask) :=
  call (.resolveActivityToken token)

def hasSubscribers (ns queue : String) : Go Bool := call (.hasSubscribers ns queue)

def subscribe (ns queue : String) : Go Unit := call (.subscribe ns queue)

def unsubscribe (ns queue : String) : Go Unit := call (.unsubscribe ns queue)

/-- `PushCancelRequest`. How many peers it reached is not looked at. -/
def pushCancelRequest (r : RunRef) (queue : String) : Go Unit := call (.pushCancelRequest r queue)

def pushQuery (r : RunRef) (queue queryType : String) : Go Bool :=
  call (.pushQuery r queue queryType)

/-- `recordFailure`: the streak of an identity goes on. No error of it is
reported. -/
def recordFailure (id : FailureIdentity) (retrying : Bool) : Go Unit :=
  call (.recordFailure id retrying)

def clearFailure (id : FailureIdentity) : Go Unit := call (.clearFailure id)

def afterFunc (r : RunRef) (seq : Int) : Go Unit := call (.afterFunc r seq)

def fire (r : RunRef) (seq : Int) : Go Bool := call (.fire r seq)

def mark (r : RunRef) : Go Unit := call (.mark r)

def clear (r : RunRef) : Go Unit := call (.clear r)

def lock (r : RunRef) : Go Unit := call (.lock r)

def unlock (r : RunRef) : Go Unit := call (.unlock r)

/-- Run `x` and hand its error to the caller instead of returning it. -/
def attempt {α : Type} (x : Go α) : Go (Except String α) := ExceptT.lift x.run

/-- Run `body` under the lock of run `r`, released on every way out. -/
def withRun {α : Type} (r : RunRef) (body : Go α) : Go α := do
  lock r
  let res ← attempt body
  unlock r
  ExceptT.mk (pure res)

/-- Run `x` for what it does; its caller drops the result. -/
def drop {α : Type} (x : Go α) : Program Effect Effect.Answer Unit :=
  x.run >>= fun _ => pure ()

theorem run_call_bind {α W : Type} (h : Handler Effect Effect.Answer W) (e : Effect)
    (f : e.Answer → Go α) (w : W) :
    (call e >>= f).run.run h w = (f (h e w).1).run.run h (h e w).2 := rfl

theorem run_withRun {α W : Type} (h : Handler Effect Effect.Answer W) (r : RunRef) (body : Go α)
    (w : W) : ((withRun r body).run.run h w).1 = (body.run.run h (h (.lock r) w).2).1 := by
  rw [withRun, lock, run_call_bind]
  simp only [attempt, ExceptT.run_bind, ExceptT.run_lift, map_eq_pure_bind, Program.run_bind,
    Program.pure_eq, Program.run_done]
  rfl

/-- A nil pointer is dereferenced: the handler's goroutine panics. -/
def nilDereference : String := "invalid memory address or nil pointer dereference"

end Engine

def onDraw (A : World → Prop) (w : World) : Effect → Prop
  | .newRunId => A w
  | _ => True

def onWrite (G : World → Write → Prop) (w : World) : Effect → Prop
  | .write x => G w x
  | _ => True

/-- `x.spec A G Q w` is the weakest precondition of a `Go` function when no
store access fails: as long as every id is drawn in a world with `A`, every
write meets `G`, and the value or error returned meets `Q`. -/
def Go.spec {α : Type} (A : World → Prop) (G : World → Write → Prop) (x : Go α)
    (Q : Except String α → World → Prop) (w : World) : Prop :=
  specOf handler (onDraw A) (onWrite G) x Q w

namespace Go

open Engine

variable {α β : Type} {A : World → Prop} {G : World → Write → Prop} {w : World}

@[simp] theorem spec_pure {Q : Post α World} (a : α) :
    (pure a : Go α).spec A G Q w ↔ Q (.ok a) w := Iff.rfl

@[simp] theorem spec_throw {Q : Post α World} (e : String) :
    (throw e : Go α).spec A G Q w ↔ Q (.error e) w := Iff.rfl

@[simp] theorem spec_bind {Q : Post β World} (x : Go α) (f : α → Go β) :
    (x >>= f).spec A G Q w ↔
      x.spec A G (fun res w' => match res with
        | .ok a => (f a).spec A G Q w'
        | .error e => Q (.error e) w') w :=
  specOf.bind_iff x f (fun _ _ => Iff.rfl) fun _ _ => Iff.rfl

@[simp] theorem spec_map {Q : Post β World} (f : α → β) (x : Go α) :
    (f <$> x).spec A G Q w ↔ x.spec A G (fun res w' => Q (res.map f) w') w := by
  rw [map_eq_pure_bind, spec_bind]
  constructor <;>
  · refine Program.wp_mono ?_ _
    rintro (e | a) w' h <;> exact h

theorem spec_mono {Q Q' : Post α World} (hQ : ∀ a w, Q a w → Q' a w)
    (x : Go α) (hx : x.spec A G Q w) : x.spec A G Q' w :=
  specOf.mono hQ x hx

theorem free_access {P : Prop} : (True → True ∧ P) ↔ P := by simp

section Reads

variable {r : RunRef} {ns wf : String}

@[simp] theorem spec_describeNamespace {Q : Post (Option Namespace) World} :
    (describeNamespace ns).spec A G Q w ↔ Q (.ok (w.store.get (.ns ns))) w :=
  free_access

@[simp] theorem spec_getRow {Q : Post (Option WorkflowExecution) World} :
    (getRow r).spec A G Q w ↔ Q (.ok (w.store.get (.wf r))) w :=
  free_access

@[simp] theorem spec_getWorkflowActivity {Q : Post (Option WorkflowActivity) World} :
    (getWorkflowActivity r seq).spec A G Q w ↔ Q (.ok (w.store.get (.wfact r seq))) w :=
  free_access

@[simp] theorem spec_getIndexed {Q : Post (Option Nat) World} :
    (getIndexed ns).spec A G Q w ↔ Q (.ok (w.store.get (.wfidx ns))) w :=
  free_access

@[simp] theorem spec_lookupIdempotency {req : String} {Q : Post (Option String) World} :
    (lookupIdempotency ns wf req).spec A G Q w ↔ Q (.ok (w.store.get (.idem ns wf req))) w :=
  free_access

@[simp] theorem spec_listRows {Q : Post (List (RunRef × WorkflowExecution)) World} :
    (listRows ns wf).spec A G Q w ↔ Q (.ok (w.store.rows ns wf)) w :=
  free_access

@[simp] theorem spec_page {after : Option RunRef} {limit : Nat}
    {Q : Post (List (RunRef × WorkflowExecution)) World} :
    (page ns after limit).spec A G Q w ↔ Q (.ok (w.store.page ns after limit)) w :=
  free_access

@[simp] theorem spec_listEvents {Q : Post (List (Nat × HistoryEvent)) World} :
    (listEvents r).spec A G Q w ↔ Q (.ok (w.store.events r)) w :=
  free_access

@[simp] theorem spec_listWorkflowActivities {Q : Post (List (Int × WorkflowActivity)) World} :
    (listWorkflowActivities r).spec A G Q w ↔ Q (.ok (w.store.acts r)) w :=
  free_access

@[simp] theorem spec_listOpen {Q : Post (List RunRef) World} :
    (listOpen ns).spec A G Q w ↔ Q (.ok (w.store.opens ns)) w :=
  free_access

@[simp] theorem spec_listNamespaces {Q : Post (List String) World} :
    listNamespaces.spec A G Q w ↔ Q (.ok w.store.names) w :=
  free_access

@[simp] theorem spec_listRequests {Q : Post (List (String × String)) World} :
    (listRequests ns wf).spec A G Q w ↔ Q (.ok (w.store.requests ns wf)) w :=
  free_access

@[simp] theorem spec_listTriggers {Q : Post (List (String × String × String)) World} :
    (listTriggers ns wf).spec A G Q w ↔ Q (.ok (w.store.triggers ns wf)) w :=
  free_access

end Reads

@[simp] theorem spec_write {x : Write} : (write x).spec A G Q w ↔ G w x ∧ Q (.ok ()) (w.write x) :=
  true_imp_iff

@[simp] theorem spec_put {k : Key} {v : k.Val} :
    (put k v).spec A G Q w ↔ G w (.put k v) ∧ Q (.ok ()) (w.write (.put k v)) :=
  spec_write

@[simp] theorem spec_del {k : Key} :
    (del k).spec A G Q w ↔ G w (.del k) ∧ Q (.ok ()) (w.write (.del k)) :=
  spec_write

@[simp] theorem spec_now {Q : Post Nat World} :
    now.spec A G Q w ↔ Q (.ok w.time) w.tick :=
  free_access

@[simp] theorem spec_newRunId {Q : Post String World} :
    newRunId.spec A G Q w ↔ (A w → Q (.ok w.nextId) w.mint) :=
  imp_congr_right fun _ => iff_of_eq (true_and _)

@[simp] theorem spec_isOrg {name : String} {Q : Post Bool World} :
    (isOrg name).spec A G Q w ↔ Q (.ok (w.orgs name)) w :=
  free_access

@[simp] theorem spec_enqueueWorkflowTask {t : WorkflowTask} :
    (enqueueWorkflowTask t).spec A G Q w ↔ Q (.ok ()) (w.enqueue t) :=
  free_access

@[simp] theorem spec_dispatchActivity {t : ActivityTask} {n : Nat} :
    (dispatchActivity t n).spec A G Q w ↔ Q (.ok ()) (w.dispatch t n) :=
  free_access

@[simp] theorem spec_completeWorkflowTask {token : Nat} {Q : Post (Option WorkflowTask) World} :
    (completeWorkflowTask token).spec A G Q w ↔
      Q (.ok (w.disp.completeWorkflowTask token).1)
        { w with disp := (w.disp.completeWorkflowTask token).2 } :=
  free_access

@[simp] theorem spec_resolveActivityToken {token : Nat} {Q : Post (Option ActivityTask) World} :
    (resolveActivityToken token).spec A G Q w ↔
      Q (.ok (w.disp.resolveActivityToken token).1)
        { w with disp := (w.disp.resolveActivityToken token).2 } :=
  free_access

@[simp] theorem spec_hasSubscribers {Q : Post Bool World} :
    (hasSubscribers ns queue).spec A G Q w ↔ Q (.ok (w.disp.subs.contains (ns, queue))) w :=
  free_access

@[simp] theorem spec_subscribe :
    (subscribe ns queue).spec A G Q w ↔
      Q (.ok ()) { w with disp := { w.disp with subs := (ns, queue) :: w.disp.subs } } :=
  free_access

@[simp] theorem spec_unsubscribe :
    (unsubscribe ns queue).spec A G Q w ↔
      Q (.ok ()) { w with disp := { w.disp with subs := w.disp.subs.erase (ns, queue) } } :=
  free_access

@[simp] theorem spec_afterFunc :
    (afterFunc r seq).spec A G Q w ↔ Q (.ok ()) { w with timers := (r, seq) :: w.timers } :=
  free_access

@[simp] theorem spec_fire {Q : Post Bool World} :
    (fire r seq).spec A G Q w ↔
      Q (.ok (w.timers.contains (r, seq))) { w with timers := w.timers.erase (r, seq) } :=
  free_access

@[simp] theorem spec_pushCancelRequest : (pushCancelRequest r queue).spec A G Q w ↔ Q (.ok ()) w :=
  free_access

@[simp] theorem spec_recordFailure {id : FailureIdentity} {retrying : Bool} :
    (recordFailure id retrying).spec A G Q w ↔ Q (.ok ()) w :=
  free_access

@[simp] theorem spec_clearFailure {id : FailureIdentity} :
    (clearFailure id).spec A G Q w ↔ Q (.ok ()) w :=
  free_access

@[simp] theorem spec_mark :
    (mark r).spec A G Q w ↔ Q (.ok ()) { w with cancelling := r :: w.cancelling } :=
  free_access

@[simp] theorem spec_clear :
    (clear r).spec A G Q w ↔
      Q (.ok ()) { w with cancelling := w.cancelling.filter fun r' => r' ≠ r } :=
  free_access

@[simp] theorem spec_lock : (lock r).spec A G Q w ↔ Q (.ok ()) w :=
  free_access

@[simp] theorem spec_unlock : (unlock r).spec A G Q w ↔ Q (.ok ()) w :=
  free_access

@[simp] theorem spec_attempt {x : Go α} {Q : Post (Except String α) World} :
    (attempt x).spec A G Q w ↔ x.spec A G (fun res w' => Q (.ok res) w') w :=
  specOf.lift_run_iff

theorem run_of_spec {x : Go α} {Q : Post α World}
    (hx : x.spec (fun _ => True) G Q w) : Q (x.run.run handler w).1 (x.run.run handler w).2 := by
  refine Program.wp_of_run x.run (Program.wp_weaken ?_ (fun _ _ _ => trivial) _ hx)
  intro w e _
  cases e <;> trivial

theorem run_drop {x : Go α} {Q : World → Prop} (hx : x.spec (fun _ => True) G (fun _ => Q) w) :
    Q ((drop x).run handler w).2 := by
  rw [drop, Program.run_bind]
  exact run_of_spec hx

theorem wp_drop {x : Go α} {Q : World → Prop} (hx : x.spec A G (fun _ w' => Q w') w) :
    (drop x).wp handler (onDraw A) (onWrite G) (fun _ => Q) w := by
  simpa [drop, spec, specOf] using hx

@[simp] theorem spec_withRun {body : Go α} {Q : Post α World} :
    (withRun r body).spec A G Q w ↔ body.spec A G Q w := by
  simp only [withRun, spec_bind, spec_lock, spec_unlock, spec_attempt]
  rfl

end Go

end DurableTasks
