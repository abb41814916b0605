import DurableTasks.Engine.Specs

/-!
What a start does, exactly: whether the namespace takes it, whether an earlier
request or a live run answers it, and what it writes where it goes on.
-/

namespace DurableTasks

open Effects Engine

variable {wf : String} {a : StartRequest} {Q : Post (RunRef × WorkflowExecution) World}

/-! ## Namespaces -/

/-- What `validName` says about a name, where it refuses it. -/
def nameError (orgs : String → Bool) (name : String) : Option String :=
  if name = "" then some "store: name required"
  else if name = "_" then
    some s!"store: {name} is the unset-leg sentinel and cannot name a tenant"
  else if '\x00' ∈ name.toList then some s!"store: name {name} contains a NUL"
  else if orgs name then none
  else some s!"store: {name} cannot name a shard"

/-- The row of a namespace that is registered on first use, at the time `t`. -/
def firstUse (t : Nat) : Namespace := registeredRow {} t

def useWrites (w : World) (name : String) : List Write :=
  if (w.store.get (.ns name)).isSome then [] else [.put (.ns name) (firstUse w.time)]

def World.inUse (w : World) (name : String) : World :=
  if (w.store.get (.ns name)).isSome then w else w.tick.write (.put (.ns name) (firstUse w.time))

/-! ## Answers -/

def Store.prior (s : Store) (ns wf requestID : String) : Option (RunRef × WorkflowExecution) :=
  if requestID = "" then none
  else (s.get (.idem ns wf requestID)).bind fun run =>
    s.resolve ⟨ns, wf, if run = "" then none else some run⟩

def Store.live (s : Store) (ns wf : String) : Option (RunRef × WorkflowExecution) :=
  (s.resolve ⟨ns, wf, none⟩).filter fun p => p.2.isOpen

inductive StartDecision where
  /-- A run that is there answers it. -/
  | answered (p : RunRef × WorkflowExecution)
  /-- It fails. -/
  | refused (e : String)
  /-- A live run is terminated first. -/
  | supersedes (c : RunRef) (row : WorkflowExecution)
  /-- A run is created. -/
  | fresh

def superseded : EventAttrs :=
  .workflowTerminated "superseded by workflow-id conflict policy" "engine"

def Store.startDecision (s : Store) (a : StartRequest) (wf : String) : StartDecision :=
  match s.prior a.ns wf a.requestID with
  | some p => .answered p
  | none =>
    match s.live a.ns wf with
    | none => .fresh
    | some (c, row) =>
      match a.conflictPolicy with
      | .useExisting => .answered (c, row)
      | .terminateExisting => .supersedes c row
      | .fail => .refused s!"workflow {wf} already running (conflict policy FAIL)"
      | .unset | .unrecognised => .fresh

/-- A workflow id a start can take: its own, or any if it names none. -/
def StartRequest.Takes (a : StartRequest) (wf : String) : Prop :=
  a.workflowId ≠ "" → wf = a.workflowId

/-- A run a start may terminate. -/
def StartRequest.Supersedes (a : StartRequest) (r : RunRef) : Prop :=
  a.conflictPolicy = .terminateExisting ∧ r.ns = a.ns ∧ StartRequest.Takes a r.wf

theorem Store.startDecision_supersedes {s : Store} {c : RunRef} {row : WorkflowExecution}
    (h : s.startDecision a wf = .supersedes c row) :
    s.get (.wf c) = some row ∧ row.isOpen = true ∧ a.conflictPolicy = .terminateExisting ∧
      c.ns = a.ns ∧ c.wf = wf := by
  unfold startDecision at h
  split at h
  · cases h
  · split at h
    · cases h
    · next c' row' hlive =>
        obtain ⟨hres, hopen⟩ := Option.filter_eq_some_iff.mp hlive
        obtain ⟨hrow, hns, hwf, -⟩ := Store.resolve_some hres
        split at h <;> cases h
        exact ⟨hrow, hopen, ‹_›, hns, hwf⟩

/-- A start with no request id and no conflict policy creates a run. -/
theorem Store.startDecision_fresh (s : Store) (wf : String) (hreq : a.requestID = "")
    (hpolicy : a.conflictPolicy = .unset) : s.startDecision a wf = .fresh := by
  unfold startDecision Store.prior
  rw [if_pos hreq, hpolicy]
  cases s.live a.ns wf <;> rfl

namespace Engine

variable {A : World → Prop} {G : World → Write → Prop} {w : World}

theorem spec_validName {name : String} {Q : Post Unit World} :
    (validName name).spec A G Q w ↔
      match nameError w.orgs name with
      | some e => Q (.error e) w
      | none => Q (.ok ()) w := by
  unfold validName nameError
  split_ifs with hempty hset hplain horg <;>
    simp_all

theorem spec_namespaceOf {name : String} {Q : Post Namespace World} :
    (namespaceOf name).spec A G Q w ↔
      match nameError w.orgs name with
      | some e => Q (.error e) w
      | none => Along G w.tick (useWrites w name) ∧
          Q (.ok ((w.store.get (.ns name)).getD (firstUse w.time))) (w.inUse name) := by
  simp only [namespaceOf, Go.spec_bind, spec_validName]
  cases hname : nameError w.orgs name with
  | some e => rfl
  | none =>
    have hne : name ≠ "" := by
      rintro rfl
      cases hname
    simp only [Go.spec_describeNamespace, useWrites, World.inUse]
    cases hget : w.store.get (.ns name) with
    | some n => simp
    | none =>
      simp only [Go.spec_bind, registerNamespace, hne, if_false, Go.spec_now, Go.spec_put,
        Go.spec_describeNamespace, World.write_store, Store.apply_put, Store.get_put_self,
        Go.spec_pure, Option.isSome_none, Bool.false_eq_true, along_cons, along_nil, and_true,
        Option.getD_none]
      rfl

theorem spec_priorStart {ns req : String} {Q : Post (Option (RunRef × WorkflowExecution)) World} :
    (priorStart ns wf req).spec A G Q w ↔ Q (.ok (w.store.prior ns wf req)) w := by
  unfold priorStart Store.prior
  split_ifs
  · rfl
  · simp only [Go.spec_bind, Go.spec_attempt, Go.spec_lookupIdempotency]
    cases w.store.get (.idem ns wf req) with
    | none => rfl
    | some run =>
      simp only [Go.spec_bind, Go.spec_attempt, spec_describeWorkflow]
      rfl

/-- A start under a workflow id does what its decision says. -/
theorem spec_startUnder :
    (startUnder a wf).spec A G Q w ↔
      match w.store.startDecision a wf with
      | .answered p => Q (.ok p) w
      | .refused e => Q (.error e) w
      | .supersedes c row => CloseAlong G w c row .terminated superseded ∧
          (startFresh a wf).spec A G Q (terminatedWorld w c row .terminated superseded)
      | .fresh => (startFresh a wf).spec A G Q w := by
  rw [startUnder, Go.spec_bind, spec_priorStart, Store.startDecision]
  cases w.store.prior a.ns wf a.requestID with
  | some p => rfl
  | none =>
    dsimp only
    rw [Go.spec_bind, resolveWorkflowIdConflict, Store.live]
    split_ifs with hpolicy
    · simp only [hpolicy]
      cases Option.filter (fun p => p.2.isOpen) (w.store.resolve ⟨a.ns, wf, none⟩) <;> rfl
    rw [Go.spec_bind, Go.spec_attempt, spec_describeWorkflow]
    cases hres : w.store.resolve ⟨a.ns, wf, none⟩ with
    | none => rfl
    | some p =>
      obtain ⟨c, row⟩ := p
      have hrow := (Store.resolve_some hres).1
      cases hterm : row.status.isTerminal with
      | true => simp [Option.filter, WorkflowExecution.isOpen, hterm]
      | false =>
        simp only [Option.filter, WorkflowExecution.isOpen, hterm, Bool.false_eq_true,
          if_false, Bool.not_false, if_true]
        cases hp : a.conflictPolicy with
        | unset => exact absurd hp hpolicy
        | terminateExisting =>
          simp only [Go.spec_bind, terminateWorkflowWithReason, spec_terminalTransition,
            Store.resolve_coe, hrow, Option.map_some, hterm, superseded,
            Bool.false_eq_true, if_false, Go.spec_pure]
        | useExisting => simp
        | fail => simp
        | unrecognised => simp

def createWrites (a : StartRequest) (wf run : String) (t : Nat) : List Write :=
  .put (.wfopen ⟨a.ns, wf, run⟩) () :: .put (.wf ⟨a.ns, wf, run⟩) (a.row t) ::
    if a.requestID = "" then [] else [.put (.idem a.ns wf a.requestID) run]

def StartRequest.counted (a : StartRequest) (t : Nat) : WorkflowExecution :=
  { a.row t with historyLen := 1 }

def enteredWorld (w : World) (a : StartRequest) (wf run : String) : World :=
  w.tick.writes (createWrites a wf run w.time)

def firstWrites (w : World) (a : StartRequest) (wf run : String) : List Write :=
  appendWrites ⟨a.ns, wf, run⟩ (a.row w.time) (enteredWorld w a wf run).time
    (.workflowStarted a.type a.queue a.input)

def createdWorld (w : World) (a : StartRequest) (wf run : String) : World :=
  (enteredWorld w a wf run).tick.writes (firstWrites w a wf run)

theorem get_enteredWorld (w : World) (a : StartRequest) (wf run : String) :
    (enteredWorld w a wf run).store.get (.wf ⟨a.ns, wf, run⟩) = some (a.row w.time) := by
  unfold enteredWorld createWrites
  split_ifs <;> simp [Store.get_put_of_ne]

theorem get_createdWorld (w : World) (a : StartRequest) (wf run : String) :
    (createdWorld w a wf run).store.get (.wf ⟨a.ns, wf, run⟩) =
      some (StartRequest.counted a w.time) := by
  simp [createdWorld, firstWrites, appendWrites, StartRequest.counted, StartRequest.row]

theorem spec_recordRequest {ns req run : String} {Q : Post Unit World} :
    (recordRequest ns wf req run).spec A G Q w ↔
      Along G w (if req = "" then [] else [.put (.idem ns wf req) run]) ∧
        Q (.ok ()) (w.writes (if req = "" then [] else [.put (.idem ns wf req) run])) := by
  unfold recordRequest
  split_ifs
  · simp
  · simp only [Go.spec_bind, Go.spec_attempt, Go.spec_put, Go.spec_pure, along_cons, along_nil,
      World.writes_cons, World.writes_nil, and_true]

theorem spec_createRun {run : String} :
    (createRun a wf run).spec A G Q w ↔
      Along G w.tick (createWrites a wf run w.time) ∧
        Along G (enteredWorld w a wf run).tick (firstWrites w a wf run) ∧
        match decodeEvents ((createdWorld w a wf run).store.events ⟨a.ns, wf, run⟩) with
        | some evs => Q (.ok (⟨a.ns, wf, run⟩, StartRequest.counted a w.time))
            ((createdWorld w a wf run).enqueue
              (taskOf ⟨a.ns, wf, run⟩ (StartRequest.counted a w.time) evs))
        | none => Q (.error "json: cannot unmarshal number into Go value of type float64")
            (createdWorld w a wf run) := by
  have hentered := get_enteredWorld w a wf run
  have hcreated := get_createdWorld w a wf run
  simp only [createdWorld, firstWrites, enteredWorld, createWrites, World.writes_cons]
    at hentered hcreated ⊢
  simp only [createRun, openRun, Go.spec_bind, Go.spec_now, Go.spec_put, spec_recordRequest,
    spec_appendHistory, Store.resolve_coe, Go.spec_attempt, spec_describeWorkflow,
    spec_scheduleWorkflowTask, hentered, Option.map_some, along_cons, and_assoc]
  have hopen : (StartRequest.counted a w.time).status.isTerminal = false := rfl
  simp only [hcreated, Option.map_some, hopen, Bool.false_eq_true, if_false]
  rfl

def StartRequest.madeId (a : StartRequest) (id : String) : String :=
  a.type.toLower ++ "-" ++ String.ofList (id.toList.take 8)

theorem spec_startFresh :
    (startFresh a wf).spec A G Q w ↔
      match a.runId with
      | some run => (createRun a wf run).spec A G Q w
      | none => A w → (createRun a wf w.nextId).spec A G Q w.mint := by
  rw [startFresh, Go.spec_bind, runIdFor]
  cases a.runId with
  | some run => rfl
  | none => rw [Go.spec_newRunId]

theorem spec_startWorkflowFull :
    (startWorkflowFull a).spec A G Q w ↔
      match nameError w.orgs a.ns with
      | some e => Q (.error e) w
      | none => Along G w.tick (useWrites w a.ns) ∧
          if a.type = "" then Q (.error "workflow type required") (w.inUse a.ns)
          else if a.workflowId = "" then
            A (w.inUse a.ns) →
              (startUnder a (StartRequest.madeId a (w.inUse a.ns).nextId)).spec A G Q
                (w.inUse a.ns).mint
          else (startUnder a a.workflowId).spec A G Q (w.inUse a.ns) := by
  rw [startWorkflowFull, Go.spec_bind, spec_namespaceOf]
  cases nameError w.orgs a.ns with
  | some e => rfl
  | none =>
    refine and_congr_right fun _ => ?_
    dsimp only
    split_ifs with htype hid
    · rfl
    · rw [Go.spec_bind, workflowIdFor, if_pos hid, Go.spec_bind, Go.spec_newRunId]
      rfl
    · rw [Go.spec_bind, workflowIdFor, if_neg hid]
      rfl

/-- A start ends well if `K` holds once its namespace is in use, is kept by
drawing an id and by superseding a live run, and is enough to stop at and to
create a run from. -/
theorem startWorkflowFull_rule {K : World → Prop} (hrefused : ∀ e, Q (.error e) w)
    (huse : Along G w.tick (useWrites w a.ns) ∧ K (w.inUse a.ns))
    (hstop : ∀ {w'} res, K w' → Q res w') (hdraw : ∀ {w'}, K w' → A w' → K w'.mint)
    (hclose : ∀ {w' c row}, K w' → w'.store.get (.wf c) = some row → row.isOpen = true →
      StartRequest.Supersedes a c → CloseAlong G w' c row .terminated superseded ∧
        K (terminatedWorld w' c row .terminated superseded))
    (hcreate : ∀ {w' wf}, K w' → a.type ≠ "" → wf ≠ "" → StartRequest.Takes a wf →
      (∀ run, a.runId = some run → (createRun a wf run).spec A G Q w') ∧
        (A w' → (createRun a wf w'.nextId).spec A G Q w'.mint)) :
    (startWorkflowFull a).spec A G Q w := by
  have hfresh : ∀ {w' wf}, K w' → a.type ≠ "" → wf ≠ "" → StartRequest.Takes a wf →
      (startFresh a wf).spec A G Q w' := by
    intro w' wf hK htype hne hwf
    rw [spec_startFresh]
    cases hrun : a.runId with
    | some run => exact (hcreate hK htype hne hwf).1 run hrun
    | none => exact (hcreate hK htype hne hwf).2
  have hunder : ∀ {w' wf}, K w' → a.type ≠ "" → wf ≠ "" → StartRequest.Takes a wf →
      (startUnder a wf).spec A G Q w' := by
    intro w' wf hK htype hne hwf
    rw [spec_startUnder]
    cases hdec : w'.store.startDecision a wf with
    | answered p => exact hstop _ hK
    | refused e => exact hstop _ hK
    | fresh => exact hfresh hK htype hne hwf
    | supersedes c row =>
      obtain ⟨hrow, hopen, hpolicy, hns, rfl⟩ := Store.startDecision_supersedes hdec
      obtain ⟨halong, hK'⟩ := hclose hK hrow hopen ⟨hpolicy, hns, hwf⟩
      exact ⟨halong, hfresh hK' htype hne hwf⟩
  rw [spec_startWorkflowFull]
  cases nameError w.orgs a.ns with
  | some e => exact hrefused e
  | none =>
    refine ⟨huse.1, ?_⟩
    split_ifs with htype hid
    · exact hstop _ huse.2
    · intro hA
      refine hunder (hdraw huse.2 hA) htype ?_ fun hne => absurd hid hne
      simp [StartRequest.madeId]
    · exact hunder huse.2 htype hid fun _ => rfl

end Engine

end DurableTasks
