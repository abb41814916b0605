import DurableTasks.Engine.Faults
import DurableTasks.Safety.Lifetime
import DurableTasks.Wire.Heartbeat

/-!
What becomes of a worker's response: the tables of tokens, the reply of the
server and what the SDK makes of it, over a store whose writes may fail.
-/

namespace DurableTasks

open Effects Engine Wire

/-! ## Responses -/

/-- The payload of a workflow-task response: the commands `json.Unmarshal`
filled in, `none` for one of a kind the handler does not know, and whether it
decoded without an error. -/
structure CommandsPayload where
  cmds : List (Option Command)
  decodes : Bool := true

inductive Response where
  | workflow (token : Nat) (payload : CommandsPayload)
  | activityCompleted (token : Nat) (result : Raw)
  | activityFailed (token : Nat) (failure : Raw)

namespace Response

/-- The handler of a response. A decoding error is dropped, and so is a command
of an unknown kind. -/
def handle : Response → Go Unit
  | workflow token payload => respondWorkflow token payload.cmds.reduceOption
  | activityCompleted token result => respondActivityCompleted token result
  | activityFailed token failure => respondActivityFailed token failure

def known (w : World) : Response → Bool
  | workflow token _ => (w.disp.completeWorkflowTask token).1.isSome
  | activityCompleted token _ | activityFailed token _ =>
    (w.disp.resolveActivityToken token).1.isSome

def status (known : Bool) (res : Except String Unit) : UInt32 × String :=
  if known then
    match res with
    | .ok _ => (200, "")
    | .error err => (500, err)
  else (404, "task token not found")

variable (fails : Nat → Option String) (w : World)

/-- A response is handled by a server whose store may refuse writes. -/
def run (r : Response) : Except String Unit × World × Nat := r.handle.run.run (faulty fails) (w, 0)

def reply (r : Response) : UInt32 × String := status (r.known w) (r.run fails w).1

def label : Response → String
  | workflow _ _ => "worker respond workflow completed"
  | activityCompleted _ _ => "worker respond activity completed"
  | activityFailed _ _ => "worker respond activity failed"

/-- `RespondWorkflowTaskCompleted`, `RespondActivityTaskCompleted` and
`RespondActivityTaskFailed` of the SDK: the call fails when no frame comes back,
and the frame is not read. -/
def respond (r : Response) : Except String Unit :=
  match objectAck 0 (r.reply fails w).2.toUTF8.toList (r.reply fails w).1 with
  | .error err => .error (r.label ++ ": " ++ err)
  | .ok _ => .ok ()

def Outstanding (w : World) : Response → Prop
  | workflow token _ => ∃ t, (token, t) ∈ w.disp.wfByToken
  | activityCompleted token _ | activityFailed token _ => ∃ t, (token, t) ∈ w.disp.actByToken

/-- The commands of a batch are applied without an error, one after the
other. -/
def Performed (r : RunRef) (cmds : List Command) (x : World × Nat) : Prop :=
  ∀ before c after, cmds = before ++ c :: after →
    ((applyCommand r c).run.run (faulty fails)
      ((applyCommands r before).run.run (faulty fails) x).2).1 = .ok ()

/-- A response is applied in full: its token is known and its payload decodes,
every command is of a known kind, and no call of the engine fails. -/
def Applied : Response → Prop
  | workflow token payload => payload.decodes = true ∧ (∀ c ∈ payload.cmds, c.isSome = true) ∧
      ∃ t, (w.disp.completeWorkflowTask token).1 = some t ∧
        Performed fails t.ref payload.cmds.reduceOption
          ({ w with disp := (w.disp.completeWorkflowTask token).2 }, 0)
  | r => r.known w = true ∧ (r.run fails w).1 = .ok ()

end Response

/-! ## Tokens -/

structure Dispatcher.Minted (d : Dispatcher) : Prop where
  workflow : ∀ p ∈ d.wfByToken, p.1 < d.nextToken
  activity : ∀ p ∈ d.actByToken, p.1 < d.nextToken

def World.WorkflowSpent (token : Nat) (w : World) : Prop :=
  token < w.disp.nextToken ∧ ∀ p ∈ w.disp.wfByToken, p.1 ≠ token

def World.ActivitySpent (token : Nat) (w : World) : Prop :=
  token < w.disp.nextToken ∧ ∀ p ∈ w.disp.actByToken, p.1 ≠ token

theorem World.WorkflowSpent.effect {token : Nat} (e : Effect) (w : World)
    (h : w.WorkflowSpent token) : (handler e w).2.WorkflowSpent token := by
  cases e with
  | enqueueWorkflowTask t =>
    refine ⟨Nat.lt_succ_of_lt h.1, fun p hp => ?_⟩
    rcases List.mem_cons.mp hp with rfl | hp
    · exact Nat.ne_of_gt h.1
    · exact h.2 p hp
  | dispatchActivity t attempt => exact ⟨Nat.lt_succ_of_lt h.1, h.2⟩
  | completeWorkflowTask token' => exact ⟨h.1, fun p hp => h.2 p (List.mem_of_mem_filter hp)⟩
  | _ => exact h

theorem World.ActivitySpent.effect {token : Nat} (e : Effect) (w : World)
    (h : w.ActivitySpent token) : (handler e w).2.ActivitySpent token := by
  cases e with
  | enqueueWorkflowTask t => exact ⟨Nat.lt_succ_of_lt h.1, h.2⟩
  | dispatchActivity t attempt =>
    refine ⟨Nat.lt_succ_of_lt h.1, fun p hp => ?_⟩
    rcases List.mem_cons.mp hp with rfl | hp
    · exact Nat.ne_of_gt h.1
    · exact h.2 p hp
  | resolveActivityToken token' => exact ⟨h.1, fun p hp => h.2 p (List.mem_of_mem_filter hp)⟩
  | _ => exact h

/-- Whatever a program does on a store that refuses writes, it keeps what every
access keeps. -/
theorem run_faulty_keeps {α : Type} {fails : Nat → Option String} {I : World → Prop}
    (hI : ∀ e w, I w → I (handler e w).2) (p : Program Effect Effect.Answer α) {x : World × Nat}
    (hx : I x.1) : I (p.run (faulty fails) x).2.1 :=
  Program.Given.run (I := fun y => I y.1) (fun _ _ _ => trivial)
    (fun e y _ hy => faulty_keeps hI e y hy) (Program.Given.any p) hx

namespace Response

variable {fails : Nat → Option String} {w : World}

theorem workflow_consumed (h : w.disp.Minted) (token : Nat) (payload : CommandsPayload) :
    ¬ Outstanding ((workflow token payload).run fails w).2.1 (workflow token payload) := by
  rintro ⟨t, ht⟩
  rw [run, handle, respondWorkflow, completeWorkflowTask, run_call_bind] at ht
  have hgone : ∀ p ∈ (w.disp.completeWorkflowTask token).2.wfByToken, p.1 ≠ token := by
    intro p hp
    simpa using List.of_mem_filter hp
  cases hfound : (faulty fails (.completeWorkflowTask token) (w, 0)).1 with
  | none =>
    rw [hfound] at ht
    exact hgone _ ht rfl
  | some task =>
    rw [hfound] at ht
    have hspent : (faulty fails (.completeWorkflowTask token) (w, 0)).2.1.WorkflowSpent token := by
      refine ⟨?_, hgone⟩
      obtain ⟨⟨token', task'⟩, hfind, -⟩ := Option.map_eq_some_iff.mp hfound
      have htoken : token' = token := by simpa using List.find?_some hfind
      exact htoken ▸ h.workflow _ (List.mem_of_find?_eq_some hfind)
    exact (run_faulty_keeps World.WorkflowSpent.effect _ hspent).2 _ ht rfl

/-- The answer to an activity consumes its token, whatever is made of it. -/
theorem activity_consumed (h : w.disp.Minted) {token : Nat} {f : Option ActivityTask → Go Unit}
    {err : String} (hf : f none = throw err) (t : ActivityTask) :
    (token, t) ∉ ((resolveActivityToken token >>= f).run.run (faulty fails)
      (w, 0)).2.1.disp.actByToken := by
  intro ht
  rw [resolveActivityToken, run_call_bind] at ht
  have hgone : ∀ p ∈ (w.disp.resolveActivityToken token).2.actByToken, p.1 ≠ token := by
    intro p hp
    simpa using List.of_mem_filter hp
  cases hfound : (faulty fails (.resolveActivityToken token) (w, 0)).1 with
  | none =>
    rw [hfound, hf] at ht
    exact hgone _ ht rfl
  | some task =>
    rw [hfound] at ht
    have hspent : (faulty fails (.resolveActivityToken token) (w, 0)).2.1.ActivitySpent token :=
      ⟨h.activity _ (mem_of_resolve hfound), hgone⟩
    exact (run_faulty_keeps World.ActivitySpent.effect _ hspent).2 _ ht rfl

theorem consumed (h : w.disp.Minted) (r : Response) : ¬ Outstanding (r.run fails w).2.1 r := by
  cases r with
  | workflow token payload => exact workflow_consumed h token payload
  | activityCompleted token result =>
    rintro ⟨t, ht⟩
    exact activity_consumed h rfl t ht
  | activityFailed token failure =>
    rintro ⟨t, ht⟩
    exact activity_consumed h rfl t ht

theorem applyCommands_ok (r : RunRef) (cmds : List Command) (x : World × Nat) :
    ((applyCommands r cmds).run.run (faulty fails) x).1 = .ok () := by
  induction cmds generalizing x with
  | nil => rfl
  | cons c cmds ih =>
    rw [run_applyCommands_cons]
    exact ih _

/-- The reply to a response with a known token of a workflow task. -/
theorem reply_workflow {token : Nat} {payload : CommandsPayload}
    (h : (workflow token payload).known w = true) :
    ((workflow token payload).reply fails w).1 = 200 := by
  obtain ⟨t, ht⟩ := Option.isSome_iff_exists.mp h
  have hrun : ((workflow token payload).run fails w).1 = .ok () := by
    rw [run, handle, respondWorkflow, completeWorkflowTask, run_call_bind]
    rw [show (faulty fails (.completeWorkflowTask token) (w, 0)).1 = some t from ht]
    exact (run_withRun _ _ _ _).trans (applyCommands_ok _ _ _)
  rw [reply, hrun, h]
  rfl

theorem respond_ok (r : Response) : r.respond fails w = .ok () := by
  rw [respond, objectAck_eq]

end Response

open Response

/-- A response that is applied in full is the only one that is applied or
reported. The call of the SDK succeeds and the token is gone in any case, and
where the token of a workflow task is known the reply says that all is well. -/
theorem response_applied_or_reported_iff (fails : Nat → Option String) (w : World)
    (hw : w.disp.Minted) (r : Response) :
    (r.Applied fails w ∨ ((r.reply fails w).1 ≠ 200 ∧ (∃ err, r.respond fails w = .error err) ∧
        Outstanding (r.run fails w).2.1 r) ↔ r.Applied fails w) ∧
      r.respond fails w = .ok () ∧ ¬ Outstanding (r.run fails w).2.1 r ∧
      ∀ token payload, r = .workflow token payload → r.known w = true →
        (r.reply fails w).1 = 200 := by
  have hconsumed : ¬ Outstanding (r.run fails w).2.1 r := consumed hw r
  refine ⟨⟨?_, .inl⟩, respond_ok r, hconsumed, ?_⟩
  · rintro (happlied | ⟨-, -, hout⟩)
    · exact happlied
    · exact absurd hout hconsumed
  · rintro token payload rfl hknown
    exact reply_workflow hknown

def taskedShard : World := (system 1).turns [.whole startRun] emptyShard

theorem taskedShard_minted : taskedShard.disp.Minted :=
  ⟨by decide +kernel, by decide +kernel⟩

def garbled : Response := .workflow 0 { cmds := [], decodes := false }

/-- The reply to a garbled response says 200, and the task is gone. -/
theorem response_applied_or_reported_iff_garbled :
    taskedShard.disp.Minted ∧ garbled.known taskedShard = true ∧
      ¬ Outstanding (garbled.run (fun _ => none) taskedShard).2.1 garbled ∧
      (garbled.reply (fun _ => none) taskedShard).1 = 200 := by
  have hknown : garbled.known taskedShard = true := by decide +kernel
  obtain ⟨-, -, hgone, hreply⟩ :=
    response_applied_or_reported_iff (fun _ => none) taskedShard taskedShard_minted garbled
  exact ⟨taskedShard_minted, hknown, hgone, hreply _ _ rfl hknown⟩

def resultOfBusy : Response := .activityCompleted 1 (.ofJson "null" .null)

def diskFull (n : Nat) : Option String := if n = 0 then some "disk full" else none

/-- Commands that do not decode are acknowledged with 200. And where the store
refuses the write of an activity's result, the server replies 500, the SDK
reports success, and the activity stays started with no token out for it. -/
theorem response_lost :
    (¬ garbled.Applied (fun _ => none) taskedShard ∧
      (garbled.reply (fun _ => none) taskedShard).1 = 200 ∧
      garbled.respond (fun _ => none) taskedShard = .ok ()) ∧
    ¬ resultOfBusy.Applied diskFull busyShard ∧
      resultOfBusy.reply diskFull busyShard = (500, "disk full") ∧
      resultOfBusy.respond diskFull busyShard = .ok () ∧
      ((resultOfBusy.run diskFull busyShard).2.1.store.get (.wfact ⟨"n", "wf", "r"⟩ 0)).map
        (fun a => a.status) = some .started ∧
      (resultOfBusy.run diskFull busyShard).2.1.disp.actByToken.isEmpty = true := by
  refine ⟨⟨fun h => ?_, reply_workflow (by decide +kernel), respond_ok _⟩, fun h => ?_,
    by decide +kernel, respond_ok _, by decide +kernel, by decide +kernel⟩
  · cases h.1
  · have hfailed : (resultOfBusy.run diskFull busyShard).1.toBool = false := by decide +kernel
    rw [h.2] at hfailed
    cases hfailed

end DurableTasks
