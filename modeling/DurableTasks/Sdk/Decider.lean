import DurableTasks.Effects.Program
import DurableTasks.Model.Types

/-!
The replay decider of the Go worker. A workflow function is run from its start
against the history of its run, in an environment made for this one episode: an
activity with an outcome in the history is answered from there, any other one is
asked for once and its future blocks. A workflow function is a program over the
calls of the workflow API.
-/

namespace DurableTasks.Sdk

open Effects Temporal

structure ActivityOptions where
  taskQueue : String := ""
  startToCloseMs : Int := 0
  heartbeatMs : Int := 0
  retryPolicy : Option RetryPolicyJSON := none

/-- An activity as a workflow asks for it: its type, and its arguments as
`json.Marshal` writes them or why it does not. -/
structure ActivityCall where
  type : String
  input : Except String Raw
  opts : ActivityOptions := {}

/-- The calls of the workflow API. A future is named by how many there were before
it. The function of a side effect is not part of the call: it may return
anything. -/
inductive Api where
  | executeActivity (c : ActivityCall)
  | get (f : Nat)
  | isReady (f : Nat)
  | select (cases : List Nat) (hasDefault : Bool)
  | sideEffect
  | getVersion (changeID : String) (minSupported maxSupported : Int)

/-- What a call returns. A selector says which case it fires, `none` for the default
or no case at all. -/
abbrev Api.Answer : Api → Type
  | executeActivity _ => Nat
  | get _ => Except Error Json
  | isReady _ => Bool
  | select _ _ => Option Nat
  | sideEffect => Except String Raw
  | getVersion _ _ _ => Int

/-- A workflow function that is deterministic given what the API returns. It ends
with the bytes of a result or of a failure. -/
abbrev Workflow := Program Api Api.Answer (Except Raw Raw)

inductive ActivityOutcome where
  | completed (result : Json)
  | failed (failure : Json)

/-- What a future is settled with. The bytes of a failure in a history are never
empty. -/
def ActivityOutcome.value : ActivityOutcome → Except Error Json
  | completed result => .ok result
  | failed failure => .error (decode (.ofJson " " failure))

inductive Future where
  | settled (value : Except Error Json)
  | blocked

def Future.isReady : Future → Bool
  | settled _ => true
  | blocked => false

/-- `workerEnv`, as one episode sees it. -/
structure Env where
  taskQueue : String
  activityResults : Int → Option ActivityOutcome := fun _ => none
  scheduledSeqs : Int → Bool := fun _ => false
  nextSeq : Nat := 0
  futures : List Future := []
  newCommands : List Command := []
  versions : String → Option Int := fun _ => none
  sideEffects : List (Except String Raw) := []
  sideEffectIdx : Nat := 0

namespace Env

/-- One turn of the loop of `loadHistory`. -/
def load (e : Env) (ev : HistoryEvent) : Env :=
  match ev.attrs with
  | .activityScheduled seq .. =>
    { e with scheduledSeqs := Function.update e.scheduledSeqs seq true }
  | .activityCompleted seq _ result =>
    { e with
      activityResults := Function.update e.activityResults seq (some (.completed result)) }
  | .activityFailed seq _ failure =>
    { e with activityResults := Function.update e.activityResults seq (some (.failed failure)) }
  | _ => e

/-- `newWorkerEnv` and `loadHistory`. -/
def ofHistory (taskQueue : String) (events : List HistoryEvent) : Env :=
  events.foldl load { taskQueue }

def hand (e : Env) (f : Future) : Nat × Env :=
  (e.nextSeq, { e with nextSeq := e.nextSeq + 1, futures := e.futures ++ [f] })

def configError : Error := .new "activity type unresolvable" "ConfigError" true

/-- The cause is not modelled. -/
def marshalError : Error := .new "encode activity args" "MarshalError" true

def request (e : Env) (c : ActivityCall) (input : Raw) : Env :=
  if e.scheduledSeqs e.nextSeq then e
  else
    { e with
      newCommands := e.newCommands ++
        [.scheduleActivity e.nextSeq c.type input
          (if c.opts.taskQueue = "" then e.taskQueue else c.opts.taskQueue)
          c.opts.startToCloseMs c.opts.heartbeatMs c.opts.retryPolicy]
      scheduledSeqs := Function.update e.scheduledSeqs e.nextSeq true }

def executeActivity (e : Env) (c : ActivityCall) : Nat × Env :=
  match e.activityResults e.nextSeq with
  | some outcome => e.hand (.settled outcome.value)
  | none =>
    if c.type = "" then e.hand (.settled (.error configError))
    else
      match c.input with
      | .error _ => e.hand (.settled (.error marshalError))
      | .ok input => (e.request c input).hand .blocked

def ready (e : Env) (f : Nat) : Bool := (e.futures[f]?).any Future.isReady

def readyIndex (e : Env) (cases : List Nat) : Option Nat := cases.findIdx? e.ready

def getVersion (e : Env) (changeID : String) (minSupported maxSupported : Int) : Int × Env :=
  match e.versions changeID with
  | some v =>
    (if v < minSupported then minSupported
      else if maxSupported < v then maxSupported else v, e)
  | none =>
    (maxSupported, { e with versions := Function.update e.versions changeID (some maxSupported) })

/-- `SideEffect`, where the function returns `val` if it is called. -/
def sideEffect (e : Env) (val : Except String Raw) : Except String Raw × Env :=
  match e.sideEffects[e.sideEffectIdx]? with
  | some record => (record, { e with sideEffectIdx := e.sideEffectIdx + 1 })
  | none =>
    (val, { e with
      sideEffectIdx := e.sideEffectIdx + 1
      sideEffects := e.sideEffects ++ [val] })

end Env

inductive Outcome (α : Type) where
  | answered (r : α) (e : Env)
  /-- A blocked future unwinds the function. -/
  | blocked
  /-- The fan-in of a selector waits on channels that never close. -/
  | parked
  /-- A nil future is asked. -/
  | panicked

/-- One call, where the function of its side effect returns what `vals` says for its
place. -/
def Env.call (vals : Nat → Except String Raw) (e : Env) : (a : Api) → Outcome a.Answer
  | .executeActivity c => .answered (e.executeActivity c).1 (e.executeActivity c).2
  | .get f =>
    match e.futures[f]? with
    | some (.settled value) => .answered value e
    | some .blocked => .blocked
    | none => .panicked
  | .isReady f =>
    match e.futures[f]? with
    | some future => .answered future.isReady e
    | none => .panicked
  | .select cases hasDefault =>
    match e.readyIndex cases with
    | some i => .answered (some i) e
    | none => if cases = [] ∨ hasDefault then .answered none e else .parked
  | .sideEffect =>
    .answered (e.sideEffect (vals e.sideEffectIdx)).1 (e.sideEffect (vals e.sideEffectIdx)).2
  | .getVersion changeID minSupported maxSupported =>
    .answered (e.getVersion changeID minSupported maxSupported).1
      (e.getVersion changeID minSupported maxSupported).2

inductive Ending where
  | completed (result : Raw)
  | failed (failure : Raw)
  | blocked
  | parked
  | panicked

/-- `runWorkflowEpisode`, with the environment as the function leaves it. -/
def episode (vals : Nat → Except String Raw) : Workflow → Env → Ending × Env
  | .done (.ok result), e => (.completed result, e)
  | .done (.error failure), e => (.failed failure, e)
  | .step a next, e =>
    match e.call vals a with
    | .answered r e' => episode vals (next r) e'
    | .blocked => (.blocked, e)
    | .parked => (.parked, e)
    | .panicked => (.panicked, e)

/-- The commands a workflow task is answered with, `panic` the failure that a panic
makes. An episode that is parked does not come back. -/
def respond (panic : Raw) : Ending × Env → Option (List Command)
  | (.completed result, e) => some (e.newCommands ++ [.complete result])
  | (.failed failure, e) => some (e.newCommands ++ [.fail failure])
  | (.blocked, e) => some e.newCommands
  | (.panicked, e) => some (e.newCommands ++ [.fail panic])
  | (.parked, _) => none

def dispatchWorkflowTask (panic : Raw) (vals : Nat → Except String Raw) (taskQueue : String)
    (p : Workflow) (events : List HistoryEvent) : Option (List Command) :=
  respond panic (episode vals p (.ofHistory taskQueue events))

/-! ## When an episode ends -/

/-- A selector that is waited on has a case that is ready. -/
def Api.Attended (e : Env) : Api → Prop
  | .select cases hasDefault => cases = [] ∨ hasDefault = true ∨ ∃ f ∈ cases, e.ready f = true
  | _ => True

def Attended (vals : Nat → Except String Raw) : Workflow → Env → Prop
  | .done _, _ => True
  | .step a next, e =>
    a.Attended e ∧
      match e.call vals a with
      | .answered r e' => Attended vals (next r) e'
      | _ => True

theorem readyIndex_eq_none_iff {e : Env} {cases : List Nat} :
    e.readyIndex cases = none ↔ ∀ f ∈ cases, e.ready f = false := by
  simp [Env.readyIndex, List.findIdx?_eq_none_iff]

theorem call_parked_iff (vals : Nat → Except String Raw) (e : Env) (a : Api) :
    e.call vals a = .parked ↔ ¬ a.Attended e := by
  cases a with
  | select cases hasDefault =>
    simp only [Env.call, Api.Attended]
    cases hready : e.readyIndex cases with
    | none =>
      have hnone := readyIndex_eq_none_iff.mp hready
      by_cases hempty : cases = [] ∨ hasDefault = true
      · grind
      · grind
    | some i =>
      have hsome : ∃ f ∈ cases, e.ready f = true := by
        by_contra hno
        have hnone : e.readyIndex cases = none :=
          readyIndex_eq_none_iff.mpr fun f hf => by
            simpa using fun htrue => hno ⟨f, hf, htrue⟩
        rw [hnone] at hready
        cases hready
      simp [hsome]
  | get f =>
    simp only [Env.call, Api.Attended, not_true, iff_false]
    rcases e.futures[f]? with - | (value | -) <;> simp
  | isReady f =>
    simp only [Env.call, Api.Attended, not_true, iff_false]
    rcases e.futures[f]? with - | future <;> simp
  | executeActivity c => simp [Env.call, Api.Attended]
  | sideEffect => simp [Env.call, Api.Attended]
  | getVersion changeID minSupported maxSupported => simp [Env.call, Api.Attended]

theorem episode_parked_iff (vals : Nat → Except String Raw) (p : Workflow) (e : Env) :
    (episode vals p e).1 = .parked ↔ ¬ Attended vals p e := by
  induction p generalizing e with
  | done res => cases res <;> simp [episode, Attended]
  | step a next ih =>
    have hparked := call_parked_iff vals e a
    simp only [episode, Attended]
    cases hcall : e.call vals a with
    | answered r e' =>
      rw [hcall] at hparked
      have hattended : a.Attended e := by simpa using hparked
      simp [hattended, ih]
    | parked => simpa [hcall] using hparked.mp hcall
    | blocked =>
      rw [hcall] at hparked
      have hattended : a.Attended e := by simpa using hparked
      simp [hattended]
    | panicked =>
      rw [hcall] at hparked
      have hattended : a.Attended e := by simpa using hparked
      simp [hattended]

/-! ## What an episode asks for -/

abbrev Seen := Σ a : Api, a.Answer

def trace (vals : Nat → Except String Raw) : Workflow → Env → List Seen
  | .done _, _ => []
  | .step a next, e =>
    match e.call vals a with
    | .answered r e' => ⟨a, r⟩ :: trace vals (next r) e'
    | _ => []

def Api.asks : Api → List ActivityCall
  | .executeActivity c => [c]
  | _ => []

def activities (t : List Seen) : List ActivityCall :=
  t.flatMap (·.1.asks)

/-- The command an activity needs under its sequence number, if it needs one: it has
neither an outcome nor a SCHEDULED event, and can be asked for. -/
def Env.wanted (e : Env) (seq : Nat) (c : ActivityCall) : List Command :=
  if (e.activityResults seq).isSome ∨ c.type = "" ∨ e.scheduledSeqs seq then []
  else
    match c.input with
    | .error _ => []
    | .ok input =>
      [.scheduleActivity seq c.type input
        (if c.opts.taskQueue = "" then e.taskQueue else c.opts.taskQueue)
        c.opts.startToCloseMs c.opts.heartbeatMs c.opts.retryPolicy]

def Env.wantedFrom (e : Env) : Nat → List ActivityCall → List Command
  | _, [] => []
  | seq, c :: cs => e.wanted seq c ++ e.wantedFrom (seq + 1) cs

def requests (cmds : List Command) : List Command :=
  cmds.filter fun c =>
    match c with
    | .scheduleActivity .. => true
    | _ => false

structure Env.AgreeFrom (n : Nat) (e e' : Env) : Prop where
  taskQueue : e'.taskQueue = e.taskQueue
  results : e'.activityResults = e.activityResults
  scheduled : ∀ seq : Nat, n ≤ seq → e'.scheduledSeqs seq = e.scheduledSeqs seq

theorem Env.AgreeFrom.refl (n : Nat) (e : Env) : e.AgreeFrom n e :=
  ⟨rfl, rfl, fun _ _ => rfl⟩

theorem Env.AgreeFrom.wantedFrom_eq {n : Nat} {e e' : Env} (h : e.AgreeFrom n e')
    (cs : List ActivityCall) {seq : Nat} (hseq : n ≤ seq) :
    e'.wantedFrom seq cs = e.wantedFrom seq cs := by
  induction cs generalizing seq with
  | nil => rfl
  | cons c cs ih =>
    simp only [Env.wantedFrom, Env.wanted, h.taskQueue, h.results, h.scheduled seq hseq]
    rw [ih (Nat.le_succ_of_le hseq)]

theorem Env.wantedFrom_append (e : Env) (seq : Nat) (cs ds : List ActivityCall) :
    e.wantedFrom seq (cs ++ ds) = e.wantedFrom seq cs ++ e.wantedFrom (seq + cs.length) ds := by
  induction cs generalizing seq with
  | nil => rfl
  | cons c cs ih =>
    simp only [List.cons_append, Env.wantedFrom, List.length_cons, ih, List.append_assoc]
    rw [show seq + 1 + cs.length = seq + (cs.length + 1) by omega]

theorem requests_wantedFrom (e : Env) (seq : Nat) (cs : List ActivityCall) :
    requests (e.wantedFrom seq cs) = e.wantedFrom seq cs := by
  induction cs generalizing seq with
  | nil => rfl
  | cons c cs ih =>
    have hhead : requests (e.wanted seq c) = e.wanted seq c := by
      unfold Env.wanted
      split
      · rfl
      · cases c.input <;> rfl
    have htail := ih (seq + 1)
    simp only [requests] at hhead htail ⊢
    rw [Env.wantedFrom, List.filter_append, hhead, htail]

/-- What a call does to the commands, the numbers and the record of the history. -/
structure Env.Advances (e : Env) (calls : List ActivityCall) (e' : Env) : Prop where
  nextSeq : e'.nextSeq = e.nextSeq + calls.length
  commands : e'.newCommands = e.newCommands ++ e.wantedFrom e.nextSeq calls
  agree : e.AgreeFrom e'.nextSeq e'

theorem Env.Advances.still {e e' : Env} (hseq : e'.nextSeq = e.nextSeq)
    (hcommands : e'.newCommands = e.newCommands) (hagree : e.AgreeFrom e'.nextSeq e') :
    e.Advances [] e' :=
  ⟨hseq, by simpa [Env.wantedFrom] using hcommands, hagree⟩

theorem executeActivity_advances (e : Env) (c : ActivityCall) :
    e.Advances [c] (e.executeActivity c).2 := by
  -- A future that is settled at once changes nothing but the counter.
  have hsettled {f : Future} (hnone : e.wanted e.nextSeq c = []) :
      e.Advances [c] (e.hand f).2 :=
    ⟨rfl, by simp [Env.hand, Env.wantedFrom, hnone], ⟨rfl, rfl, fun _ _ => rfl⟩⟩
  unfold Env.executeActivity
  cases hresult : e.activityResults e.nextSeq with
  | some outcome => exact hsettled (by simp [Env.wanted, hresult])
  | none =>
    by_cases htype : c.type = ""
    · simp only [htype, if_true]
      exact hsettled (by simp [Env.wanted, htype])
    · simp only [htype, if_false]
      cases hinput : c.input with
      | error err => exact hsettled (by simp [Env.wanted, hinput])
      | ok input =>
        by_cases hscheduled : e.scheduledSeqs e.nextSeq = true
        · simp only [Env.request, hscheduled, if_true]
          exact hsettled (by simp [Env.wanted, hscheduled])
        · refine ⟨?_, ?_, ?_, ?_, ?_⟩
          · simp [Env.request, hscheduled, Env.hand]
          · simp [Env.request, hscheduled, Env.hand, Env.wantedFrom, Env.wanted, hresult,
              htype, hinput]
          · simp [Env.request, hscheduled, Env.hand]
          · simp [Env.request, hscheduled, Env.hand]
          · intro seq hseq
            simp only [Env.request, hscheduled, Env.hand] at hseq ⊢
            have hne : (seq : Int) ≠ (e.nextSeq : Int) := by
              intro heq
              simp at hseq
              omega
            simp [Function.update_of_ne hne]

theorem call_advances {vals : Nat → Except String Raw} {e e' : Env} {a : Api} {r : a.Answer}
    (hcall : e.call vals a = .answered r e') : e.Advances a.asks e' := by
  cases a with
  | executeActivity c =>
    simp only [Env.call, Outcome.answered.injEq] at hcall
    rw [← hcall.2]
    exact executeActivity_advances e c
  | get f =>
    simp only [Env.call] at hcall
    split at hcall
    · cases hcall
      exact .still rfl rfl (.refl _ _)
    · cases hcall
    · cases hcall
  | isReady f =>
    simp only [Env.call] at hcall
    split at hcall
    · cases hcall
      exact .still rfl rfl (.refl _ _)
    · cases hcall
  | select cases hasDefault =>
    simp only [Env.call] at hcall
    split at hcall
    · cases hcall
      exact .still rfl rfl (.refl _ _)
    · split at hcall
      · cases hcall
        exact .still rfl rfl (.refl _ _)
      · cases hcall
  | sideEffect =>
    simp only [Env.call, Outcome.answered.injEq] at hcall
    rw [← hcall.2]
    unfold Env.sideEffect
    split
    · exact .still rfl rfl ⟨rfl, rfl, fun _ _ => rfl⟩
    · exact .still rfl rfl ⟨rfl, rfl, fun _ _ => rfl⟩
  | getVersion changeID minSupported maxSupported =>
    simp only [Env.call, Outcome.answered.injEq] at hcall
    rw [← hcall.2]
    unfold Env.getVersion
    split
    · exact .still rfl rfl (.refl _ _)
    · exact .still rfl rfl ⟨rfl, rfl, fun _ _ => rfl⟩

/-- The commands of an episode are what the activities it came to need. -/
theorem episode_commands (vals : Nat → Except String Raw) (p : Workflow) (e : Env) :
    (episode vals p e).2.newCommands =
      e.newCommands ++ e.wantedFrom e.nextSeq (activities (trace vals p e)) := by
  induction p generalizing e with
  | done res => cases res <;> simp [episode, trace, activities, Env.wantedFrom]
  | step a next ih =>
    simp only [episode, trace]
    cases hcall : e.call vals a with
    | answered r e' =>
      obtain ⟨hseq, hcommands, hagree⟩ := call_advances hcall
      have hrest := hagree.wantedFrom_eq (activities (trace vals (next r) e')) le_rfl
      simp only [ih, hrest, hcommands, List.append_assoc]
      simp only [activities, List.flatMap_cons, Env.wantedFrom_append, hseq]
    | blocked => simp [activities, Env.wantedFrom]
    | parked => simp [activities, Env.wantedFrom]
    | panicked => simp [activities, Env.wantedFrom]

theorem ofHistory_fresh (taskQueue : String) (events : List HistoryEvent) :
    (Env.ofHistory taskQueue events).nextSeq = 0 ∧
      (Env.ofHistory taskQueue events).newCommands = [] ∧
      (Env.ofHistory taskQueue events).futures = [] ∧
      (Env.ofHistory taskQueue events).sideEffects = [] ∧
      (Env.ofHistory taskQueue events).sideEffectIdx = 0 ∧
      (Env.ofHistory taskQueue events).versions = fun _ => none := by
  have hload (e : Env) : (events.foldl Env.load e).nextSeq = e.nextSeq ∧
      (events.foldl Env.load e).newCommands = e.newCommands ∧
      (events.foldl Env.load e).futures = e.futures ∧
      (events.foldl Env.load e).sideEffects = e.sideEffects ∧
      (events.foldl Env.load e).sideEffectIdx = e.sideEffectIdx ∧
      (events.foldl Env.load e).versions = e.versions := by
    induction events generalizing e with
    | nil => simp
    | cons ev events ih =>
      obtain ⟨h₁, h₂, h₃, h₄, h₅, h₆⟩ := ih (e.load ev)
      rw [List.foldl_cons, h₁, h₂, h₃, h₄, h₅, h₆]
      unfold Env.load
      split <;> simp
  exact hload _

/-- An episode comes back with a command for each activity it came to that needs
one, just when no selector in it waits on futures that are all blocked. -/
theorem episode_ships_iff (panic : Raw) (vals : Nat → Except String Raw) (taskQueue : String)
    (p : Workflow) (events : List HistoryEvent) :
    (∃ cmds, dispatchWorkflowTask panic vals taskQueue p events = some cmds ∧
      requests cmds = (Env.ofHistory taskQueue events).wantedFrom 0
        (activities (trace vals p (.ofHistory taskQueue events)))) ↔
      Attended vals p (.ofHistory taskQueue events) := by
  obtain ⟨hseq, hcommands, -⟩ := ofHistory_fresh taskQueue events
  have hall := episode_commands vals p (.ofHistory taskQueue events)
  have hparked := episode_parked_iff vals p (.ofHistory taskQueue events)
  have hsame := requests_wantedFrom (.ofHistory taskQueue events) 0
    (activities (trace vals p (.ofHistory taskQueue events)))
  rw [hseq, hcommands, List.nil_append] at hall
  rw [← hall] at hsame ⊢
  unfold dispatchWorkflowTask
  generalize episode vals p (.ofHistory taskQueue events) = last at hsame hparked
  obtain ⟨ending, e⟩ := last
  -- The command that closes a run is no request.
  have hclosing (cmd : Command) (hcmd : requests [cmd] = []) :
      requests (e.newCommands ++ [cmd]) = e.newCommands := by
    simp only [requests] at hsame hcmd ⊢
    rw [List.filter_append, hsame, hcmd, List.append_nil]
  rw [← not_iff_not, ← hparked]
  cases ending with
  | parked => simp [respond]
  | blocked => simpa [respond] using hsame
  | completed result => simpa [respond] using hclosing (.complete result) rfl
  | failed failure => simpa [respond] using hclosing (.fail failure) rfl
  | panicked => simpa [respond] using hclosing (.fail panic) rfl

def selectOne : Workflow := do
  let f ← Program.perform (.executeActivity { type := "A", input := .ok (.ofJson "null" .null) })
  let _ ← Program.perform (.select [f] false)
  pure (.ok .empty)

/-- The first task of a run of `selectOne`: the activity is asked for, and the
worker does not answer. -/
theorem selectOne_unanswered :
    requests ((Env.ofHistory "q" [⟨1, 0, .workflowStarted "W" "q" .null⟩]).wantedFrom 0
        (activities (trace (fun _ => .ok .empty) selectOne
          (.ofHistory "q" [⟨1, 0, .workflowStarted "W" "q" .null⟩])))) =
        [.scheduleActivity 0 "A" (.ofJson "null" .null) "q" 0 0 none] ∧
      dispatchWorkflowTask .empty (fun _ => .ok .empty) "q" selectOne
        [⟨1, 0, .workflowStarted "W" "q" .null⟩] = none :=
  ⟨rfl, rfl⟩

end DurableTasks.Sdk
