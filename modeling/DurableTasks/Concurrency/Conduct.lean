import DurableTasks.Concurrency.Protocol
import DurableTasks.Engine.Discipline

/-!
Every operation that neither resets nor purges a run follows the protocol,
whatever other threads do between its accesses.
-/

namespace DurableTasks

open Effects Engine

variable {r : RunRef} {a : StartRequest}

/-! ## How a view changes -/

namespace View

structure Calm (k : View) : Prop where
  mid : k.mid = none
  entered : k.entered = none

structure Bound (k k' : View) : Prop where
  calm : k'.Calm
  held : k'.held = k.held
  recovering : k'.recovering = k.recovering

structure Keeps (k k' : View) : Prop extends Bound k k' where
  acts : k'.acts = k.acts
  duty : k'.duty = k.duty
  may : k'.may = k.may
  handed : k'.handed = k.handed

structure Steady (k k' : View) : Prop extends Keeps k k' where
  fresh : k'.fresh = k.fresh

structure Reads (k k' : View) : Prop extends Steady k k' where
  closed : k'.closed = k.closed

variable {k k' k'' : View}

theorem Bound.trans (h : k.Bound k') (h' : k'.Bound k'') : k.Bound k'' :=
  ⟨h'.calm, h'.held.trans h.held, h'.recovering.trans h.recovering⟩

theorem Keeps.trans (h : k.Keeps k') (h' : k'.Keeps k'') : k.Keeps k'' :=
  ⟨h.toBound.trans h'.toBound, h'.acts.trans h.acts, h'.duty.trans h.duty, h'.may.trans h.may,
    h'.handed.trans h.handed⟩

theorem Steady.trans (h : k.Steady k') (h' : k'.Steady k'') : k.Steady k'' :=
  ⟨h.toKeeps.trans h'.toKeeps, h'.fresh.trans h.fresh⟩

theorem Reads.trans (h : k.Reads k') (h' : k'.Reads k'') : k.Reads k'' :=
  ⟨h.toSteady.trans h'.toSteady, h'.closed.trans h.closed⟩

theorem Calm.bound (hk : k.Calm) : k.Bound k := ⟨hk, rfl, rfl⟩

theorem Calm.keeps (hk : k.Calm) : k.Keeps k := ⟨hk.bound, rfl, rfl, rfl, rfl⟩

theorem Calm.steady (hk : k.Calm) : k.Steady k := ⟨hk.keeps, rfl⟩

theorem Calm.reads (hk : k.Calm) : k.Reads k := ⟨hk.steady, rfl⟩

instance : Path Calm Bound := ⟨Calm.bound, fun _ h => h.calm, Bound.trans⟩

instance : Path Calm Keeps := ⟨Calm.keeps, fun _ h => h.calm, Keeps.trans⟩

instance : Path Calm Steady := ⟨Calm.steady, fun _ h => h.calm, Steady.trans⟩

instance : Path Calm Reads := ⟨Calm.reads, fun _ h => h.calm, Reads.trans⟩

theorem Calm.read (hk : k.Calm) (r : RunRef) (o : Option WorkflowExecution) :
    k.Reads (k.read r o) :=
  ⟨⟨⟨⟨⟨hk.mid, hk.entered⟩, rfl, rfl⟩, rfl, rfl, rfl, rfl⟩, rfl⟩, rfl⟩

theorem Calm.readAll (hk : k.Calm) (ns wf : String) (l : List (RunRef × WorkflowExecution)) :
    k.Reads (k.readAll ns wf l) :=
  ⟨⟨⟨⟨⟨hk.mid, hk.entered⟩, rfl, rfl⟩, rfl, rfl, rfl, rfl⟩, rfl⟩, rfl⟩

/-- A row was written that is not the first one of a run, perhaps after an
event. -/
theorem Calm.wrote_row (hk : k.Calm) (mid : Option (RunRef × Nat)) (r : RunRef)
    (row : WorkflowExecution) :
    k.Steady (({ k with mid := mid } : View).wrote (.put (.wf r) row)) := by
  refine ⟨⟨⟨⟨rfl, ?_⟩, rfl, rfl⟩, rfl, rfl, rfl, rfl⟩, ?_⟩
  · simp [wrote, hk.entered]
  · simp [wrote, hk.entered]

theorem wrote_row_closed {row old : WorkflowExecution} (hold : k.row r = some (some old))
    (hrow : old.isOpen = true → row.isOpen = true) :
    (k.wrote (.put (.wf r) row)).closed = k.closed := by
  have hkeep : (row.status.isTerminal && ((k.row r).join.any fun old => old.isOpen)) = false := by
    rw [hold]
    cases hopen : old.isOpen with
    | false => simp [hopen]
    | true =>
      have := hrow hopen
      simp only [WorkflowExecution.isOpen, Bool.not_eq_true'] at this
      simp [this]
  simp only [wrote, hkeep, Bool.or_false]
  exact Function.update_eq_self r k.closed

end View

/-! ## Rows and history -/

section Rows

open View

variable {starts : Prop} {k : View} {α : Type} {x : Go α}

def View.Described (k : View) (res : Except String (Option (RunRef × WorkflowExecution)))
    (k' : View) : Prop :=
  k.Reads k' ∧ ∃ o, res = .ok o ∧
    ∀ c row, o = some (c, row) → k'.row c = some (some row)

theorem describeWorkflow_follows (hk : k.Calm) (t : Target) :
    (describeWorkflow t).follows starts k.Described k := by
  unfold describeWorkflow
  split
  · next run hrun =>
      simp only [Go.follows_bind, Go.follows_getRow, Go.follows_pure]
      refine fun o => ⟨hk.read _ o, _, rfl, fun c row hrow => ?_⟩
      obtain ⟨row, rfl, heq⟩ := Option.map_eq_some_iff.mp hrow
      obtain ⟨rfl, rfl⟩ := Prod.mk.inj heq
      simp [View.read]
  · simp only [Go.follows_bind, Go.follows_listRows, Go.follows_pure]
    refine fun l hl => ⟨hk.readAll _ _ l, _, rfl, fun c row hrow => ?_⟩
    have hmem := currentRun_mem hrow
    have hin : c.ns = t.ns ∧ c.wf = t.wf := hl.1 _ hmem
    exact (if_pos hin).trans (congrArg some (hl.2 _ hmem))

theorem describeWorkflow_tracks (t : Target) : (describeWorkflow t).Tracks starts Calm Reads :=
  fun _ hk => Go.follows_mono (fun _ _ h => h.1) (describeWorkflow_follows hk t)

theorem appendHistory_tracks (t : Target) (attrs : EventAttrs) :
    (appendHistory t attrs).Tracks starts Calm Reads := by
  intro k hk
  show (appendHistory t attrs).follows starts _ k
  simp only [appendHistory, Go.follows_bind, Go.follows_attempt]
  refine Go.follows_mono ?_ (describeWorkflow_follows hk t)
  rintro _ k₁ ⟨hreads, o, rfl, hrow⟩
  cases o with
  | none => exact hreads
  | some p =>
    obtain ⟨c, row⟩ := p
    replace hrow := hrow c row rfl
    have hcalm := hreads.calm
    simp only [Go.follows_bind, Go.follows_now, Go.follows_put, Go.follows_pure]
    refine fun t => ⟨.append hrow hcalm.mid, .count hrow rfl, hreads.trans ?_⟩
    exact ⟨hcalm.wrote_row _ c _, View.wrote_row_closed hrow id⟩

theorem listHistory_tracks (r : RunRef) : (listHistory r).Tracks starts Calm Reads := by
  refine .bind (fun k hk => Go.follows_listEvents.mpr fun _ _ => hk.reads) fun evs => ?_
  split
  · exact .pure _
  · exact .throw _

theorem scheduleWorkflowTask_tracks (r : RunRef) :
    (scheduleWorkflowTask r).Tracks starts Calm Reads := by
  refine (describeWorkflow_tracks r).bind ?_
  rintro (_ | ⟨c, row⟩)
  · exact .throw _
  · refine .ite (fun _ => .pure _) fun _ => (listHistory_tracks r).bind fun hist k hk => ?_
    exact Go.follows_enqueueWorkflowTask.mpr hk.reads

theorem reportClose_tracks (c : RunRef) (row : WorkflowExecution) (st : WorkflowStatus) :
    (reportClose c row st).Tracks starts Calm Reads := by
  intro k hk
  cases st with
  | failed => exact Go.follows_recordFailure.mpr hk.reads
  | completed => exact Go.follows_clearFailure.mpr hk.reads
  | _ => exact hk.reads

theorem terminalTransition_tracks (t : Target) {st : WorkflowStatus} (hst : st.isTerminal = true)
    (attrs : EventAttrs) : (terminalTransition t st attrs).Tracks starts Calm Steady := by
  intro k hk
  show (terminalTransition t st attrs).follows starts _ k
  simp only [terminalTransition, Go.follows_bind, Go.follows_attempt]
  refine Go.follows_mono ?_ (describeWorkflow_follows hk t)
  rintro _ k₁ ⟨hreads, o, rfl, hrow⟩
  cases o with
  | none => exact hreads.toSteady
  | some p =>
    obtain ⟨c, row⟩ := p
    replace hrow := hrow c row rfl
    have hcalm := hreads.calm
    simp only
    split_ifs with hterm
    · exact hreads.toSteady
    · rw [Go.follows_bind, Go.follows_now]
      intro now
      have hopen : row.isOpen = true := by simpa [WorkflowExecution.isOpen] using hterm
      have hclosed : (closedRow row st now).isOpen = false := by
        simp [closedRow, WorkflowExecution.isOpen, hst]
      have hsteady : k₁.Steady (k₁.wrote (.put (.wf c) (closedRow row st now))) :=
        hcalm.wrote_row k₁.mid c _
      refine (Go.follows_bind _ _).mpr (Go.follows_write.mpr ⟨.note, (Go.follows_bind _ _).mpr ?_⟩)
      -- the closing row and the index entry
      refine (Go.follows_bind _ _).mpr (Go.follows_put.mpr
        ⟨.revise hrow hcalm.mid rfl (.inr (.inr ⟨hopen, hclosed⟩)), Go.follows_del.mpr ⟨?_, ?_⟩⟩)
      · exact .unlist (o := some (closedRow row st now)) (by simp [View.wrote])
          (by simpa using hclosed) (by simp)
      -- its event
      refine TracksOf.after ?_ hk (hreads.toSteady.trans hsteady)
      refine TracksOf.mono (P := Calm) (S := Reads) ?_ id fun _ h => h.toSteady
      refine (appendHistory_tracks c attrs).bind fun _ => (describeWorkflow_tracks c).lift.bind ?_
      rintro (e | _ | p)
      · exact .throw _
      · exact .throw _
      · exact (reportClose_tracks _ _ _).bind fun _ => .pure _

theorem updateWorkflowMetadata_tracks (t : Target) (m : WorkflowUserMetadata) :
    (updateWorkflowMetadata t m).Tracks starts Calm Steady := by
  intro k hk
  show (updateWorkflowMetadata t m).follows starts _ k
  simp only [updateWorkflowMetadata, Go.follows_bind, Go.follows_attempt]
  refine Go.follows_mono ?_ (describeWorkflow_follows hk t)
  rintro _ k₁ ⟨hreads, o, rfl, hrow⟩
  cases o with
  | none => exact hreads.toSteady
  | some p =>
    obtain ⟨c, row⟩ := p
    replace hrow := hrow c row rfl
    simp only [Go.follows_bind, Go.follows_now, Go.follows_put, Go.follows_pure]
    exact fun t => ⟨.revise hrow hreads.calm.mid rfl (.inl rfl),
      hreads.toSteady.trans (hreads.calm.wrote_row k₁.mid c _)⟩

theorem cancelWorkflow_follows (hk : k.Calm) (hnone : ∀ r, k.closed r = false) (t : Target)
    (reason identity : String) :
    (cancelWorkflowWithReason t reason identity).follows starts (fun _ k' => k.Steady k') k := by
  simp only [cancelWorkflowWithReason, Go.follows_bind, Go.follows_attempt]
  refine Go.follows_mono ?_ (describeWorkflow_follows hk t)
  rintro _ k₁ ⟨hreads₁, o, rfl, -⟩
  cases o with
  | none => exact hreads₁.toSteady
  | some p =>
    simp only
    split_ifs
    · exact hreads₁.toSteady
    · simp only [Go.follows_bind, Go.follows_pushCancelRequest]
      exact hreads₁.toSteady
    · simp only [Go.follows_bind]
      refine Go.follows_mono ?_ ((appendHistory_tracks t _).after hk hreads₁)
      rintro (e | ev) k₂ happend
      · exact happend.toSteady
      simp only [Go.follows_attempt]
      refine Go.follows_mono ?_ (describeWorkflow_follows happend.calm t)
      rintro _ k₃ ⟨hreads₃, o, rfl, hrow⟩
      have hreads := happend.trans hreads₃
      cases o with
      | none => exact hreads.toSteady
      | some p =>
        obtain ⟨c, row⟩ := p
        replace hrow := hrow c row rfl
        simp only [Go.follows_bind, Go.follows_hasSubscribers]
        rintro (_ | _)
        · exact (terminalTransition_tracks t rfl _).after hk hreads.toSteady
        · -- the row is put from the second describe, the status from none
          simp only [if_true, Go.follows_bind, Go.follows_put, Go.follows_mark,
            Go.follows_pushCancelRequest, Go.follows_pure]
          have hopen : k₃.closed c = false := by rw [hreads.closed, hnone]
          exact ⟨.revise hrow hreads.calm.mid rfl (.inr (.inl ⟨rfl, hopen⟩)),
            hreads.toSteady.trans (hreads.calm.wrote_row k₃.mid c _)⟩

theorem ackCanceled_tracks (r : RunRef) (reason identity : String) :
    (ackCanceled r reason identity).Tracks starts Calm Steady :=
  .bind (fun _ hk => Go.follows_clear.mpr hk.steady) fun _ => terminalTransition_tracks r rfl _

structure View.Settled (k : View) : Prop where
  calm : k.Calm
  held : k.held = none
  recovering : k.recovering = false

structure View.Works (r : RunRef) (k : View) : Prop where
  calm : k.Calm
  held : k.held = some r
  recovering : k.recovering = false

instance (r : RunRef) : Path (Works r) Bound where
  refl h := h.calm.bound
  next h h' := ⟨h'.calm, h'.held.trans h.held, h'.recovering.trans h.recovering⟩
  trans := Bound.trans

theorem Go.Tracks.settled (hx : x.Tracks starts Calm Bound) :
    x.Tracks starts Settled fun _ k' => k'.Settled :=
  hx.mono Settled.calm fun hk h => ⟨h.calm, h.held.trans hk.held, h.recovering.trans hk.recovering⟩

theorem View.Settled.locked (hk : k.Settled) (r : RunRef) : (k.locked r).Works r :=
  ⟨⟨hk.calm.mid, hk.calm.entered⟩, rfl, hk.recovering⟩

theorem View.Settled.withRun (hk : k.Settled)
    (hx : x.follows starts (fun _ k' => (k.locked r).Bound k') (k.locked r)) :
    (withRun r x).follows starts (fun _ k' => k'.Settled) k := by
  refine Go.follows_withRun hk.held (Go.follows_mono ?_ hx)
  intro _ k' h
  exact ⟨h.held, ⟨h.calm.mid, h.calm.entered⟩, rfl, h.recovering.trans hk.recovering⟩

theorem Go.Tracks.withRun (hx : x.Tracks starts (Works r) Bound) :
    (withRun r x).Tracks starts Settled fun _ k' => k'.Settled :=
  fun _ hk => hk.withRun (hx _ (hk.locked r))

theorem signalWorkflow_tracks (t : Target) (name : String) (payload : Json) (identity : String) :
    (signalWorkflow t name payload identity).Tracks starts Settled fun _ k' => k'.Settled := by
  have hdescribe : ∀ t, (describeWorkflow t).Tracks starts Calm Bound := fun t =>
    (describeWorkflow_tracks t).mono id fun _ h => h.toBound
  refine .bind (Go.Tracks.settled (hdescribe t)).lift ?_
  rintro (e | _ | ⟨c, row⟩)
  · exact .throw _
  · exact .throw _
  refine .ite (fun _ => .throw _) fun _ => Go.Tracks.withRun ?_
  refine TracksOf.mono (P := Calm) (S := Reads) ?_ Works.calm fun _ h => h.toBound
  refine (appendHistory_tracks c _).bind fun _ => (describeWorkflow_tracks c).lift.bind ?_
  rintro (e | _ | p)
  · exact .throw _
  · exact .throw _
  · exact scheduleWorkflowTask_tracks c

end Rows

/-! ## Starting -/

section Start

open View

variable {starts : Prop} {k : View}

structure View.Draws (k k' : View) : Prop extends View.Keeps k k' where
  fresh : ∀ id ∈ k.fresh, id ∈ k'.fresh

theorem View.Steady.draws {k' : View} (h : k.Steady k') : k.Draws k' :=
  ⟨h.toKeeps, fun id hid => by rwa [h.fresh]⟩

theorem View.Draws.trans {k' k'' : View} (h : k.Draws k') (h' : k'.Draws k'') : k.Draws k'' :=
  ⟨h.toKeeps.trans h'.toKeeps, fun id hid => h'.fresh id (h.fresh id hid)⟩

instance : Path Calm Draws := ⟨fun h => h.steady.draws, fun _ h => h.calm, Draws.trans⟩

theorem validName_tracks (name : String) : (validName name).Tracks starts Calm Reads := by
  refine .ite (fun _ => .throw _) fun _ => .ite (fun _ => .throw _) fun _ =>
    .ite (fun _ => .throw _) fun _ => ?_
  refine .bind (fun k hk => Go.follows_isOrg.mpr fun _ => hk.reads) fun b => ?_
  exact .ite (fun _ => .pure _) fun _ => .throw _

theorem registerNamespace_tracks (name : String) (n : Namespace) :
    (registerNamespace name n).Tracks starts Calm Reads := by
  refine .ite (fun _ => .throw _) fun _ => ?_
  refine .bind (fun k hk => Go.follows_now.mpr fun _ => hk.reads) fun t k hk => ?_
  exact Go.follows_put.mpr ⟨.registry, hk.reads⟩

theorem namespaceOf_tracks (name : String) : (namespaceOf name).Tracks starts Calm Reads := by
  have hdescribe : (describeNamespace name).Tracks starts Calm Reads := fun k hk =>
    Go.follows_describeNamespace.mpr fun _ => hk.reads
  refine (validName_tracks name).bind fun _ => hdescribe.bind ?_
  rintro (_ | n)
  · refine (registerNamespace_tracks name _).bind fun _ => hdescribe.bind ?_
    rintro (_ | n)
    · exact .throw _
    · exact .pure _
  · exact .pure _

theorem newRunId_tracks : newRunId.Tracks starts Calm Draws := by
  refine fun k hk => Go.follows_newRunId.mpr fun id => ?_
  exact ⟨⟨⟨⟨hk.mid, hk.entered⟩, rfl, rfl⟩, rfl, rfl, rfl, rfl⟩,
    fun _ h => List.mem_cons_of_mem _ h⟩

theorem workflowIdFor_tracks (a : StartRequest) : (workflowIdFor a).Tracks starts Calm Draws :=
  .ite (fun _ => newRunId_tracks.bind fun _ => .pure _) fun _ => .pure _

def View.Owns (k : View) (a : StartRequest) : Prop := ∀ run, a.runId = some run → run ∈ k.fresh

theorem runIdFor_follows (hk : k.Calm) (hown : k.Owns a) :
    (runIdFor a).follows starts
      (fun res k' => k.Draws k' ∧ ∃ run, res = .ok run ∧ run ∈ k'.fresh) k := by
  unfold runIdFor
  cases hrun : a.runId with
  | none =>
    refine Go.follows_newRunId.mpr fun id => ⟨?_, id, rfl, List.mem_cons_self⟩
    exact Go.follows_newRunId.mp (@newRunId_tracks starts k hk) id
  | some run => exact ⟨hk.steady.draws, run, rfl, hown run hrun⟩

theorem recordRequest_tracks (ns wf req run : String) :
    (recordRequest ns wf req run).Tracks starts Calm Reads := by
  refine .ite (fun _ => .pure _) fun _ => .bind (.lift fun k hk => ?_) fun _ => .pure _
  exact Go.follows_put.mpr ⟨.request, hk.reads⟩

theorem createRun_follows (hstarts : starts) (hk : k.Calm) (a : StartRequest) (wf : String)
    {run : String} (hrun : run ∈ k.fresh) :
    (createRun a wf run).follows starts (fun _ k' => k.Keeps k') k := by
  simp only [createRun, openRun]
  rw [Go.follows_bind, Go.follows_now]
  intro t
  have hentered : (k.wrote (.put (.wfopen ⟨a.ns, wf, run⟩) ())).entered =
      some ⟨a.ns, wf, run⟩ := by
    simp [View.wrote, hrun]
  have hkeeps : k.Keeps ((k.wrote (.put (.wfopen ⟨a.ns, wf, run⟩) ())).wrote
      (.put (.wf ⟨a.ns, wf, run⟩) (a.row t))) :=
    ⟨⟨⟨rfl, by simp [View.wrote, hrun]⟩, rfl, rfl⟩, rfl, rfl, rfl, rfl⟩
  simp only [Go.follows_bind (put _ _), Go.follows_put]
  refine ⟨.enlist hstarts, .create hstarts hk.mid hentered hrun rfl rfl, ?_⟩
  refine TracksOf.after ?_ hk hkeeps
  refine TracksOf.mono (P := Calm) (S := Reads) ?_ id fun _ h => h.toKeeps
  refine (recordRequest_tracks _ _ _ _).bind fun _ => (appendHistory_tracks _ _).bind fun _ =>
    (describeWorkflow_tracks _).lift.bind fun reloaded =>
    (scheduleWorkflowTask_tracks _).bind fun _ => ?_
  split <;> exact .pure _

theorem priorStart_tracks (ns wf req : String) :
    (priorStart ns wf req).Tracks starts Calm Reads := by
  refine .ite (fun _ => .pure _) fun _ => .bind (.lift fun k hk => ?_) ?_
  · exact Go.follows_lookupIdempotency.mpr fun _ => hk.reads
  · rintro (e | _ | run)
    · exact .pure _
    · exact .pure _
    · refine (describeWorkflow_tracks _).lift.bind ?_
      rintro (e | found) <;> exact .pure _

theorem resolveWorkflowIdConflict_tracks (ns wf : String) (policy : ConflictPolicy) :
    (resolveWorkflowIdConflict ns wf policy).Tracks starts Calm Steady := by
  have hdescribe := (@describeWorkflow_tracks starts ⟨ns, wf, none⟩).mono id
    fun _ h => h.toSteady
  refine .ite (fun _ => .pure _) fun _ => hdescribe.lift.bind ?_
  rintro (e | _ | ⟨c, row⟩)
  · exact .pure _
  · exact .pure _
  · refine .ite (fun _ => .pure _) fun _ => ?_
    cases policy with
    | terminateExisting => exact (terminalTransition_tracks c rfl _).bind fun _ => .pure _
    | fail => exact .throw _
    | _ => exact .pure _

theorem startUnder_follows (hstarts : starts) (hk : k.Calm) (hown : k.Owns a) (wf : String) :
    (startUnder a wf).follows starts (fun _ k' => k.Keeps k') k := by
  simp only [startUnder, Go.follows_bind]
  refine Go.follows_mono ?_ (priorStart_tracks _ _ _ k hk)
  rintro (e | _ | p) k₁ hprior
  · exact hprior.toKeeps
  · simp only [Go.follows_bind]
    refine Go.follows_mono ?_ ((resolveWorkflowIdConflict_tracks _ _ _).after hk hprior.toSteady)
    rintro (e | _ | p) k₂ hsteady
    · exact hsteady.toKeeps
    · simp only [startFresh, Go.follows_bind]
      have hown₂ : k₂.Owns a := fun run hrun => by
        rw [hsteady.fresh]
        exact hown run hrun
      refine Go.follows_mono ?_ (runIdFor_follows hsteady.calm hown₂)
      rintro _ k₃ ⟨hdraws, run, rfl, hrun⟩
      refine Go.follows_mono ?_ (createRun_follows hstarts hdraws.calm a wf hrun)
      exact fun _ _ h => (hsteady.toKeeps.trans hdraws.toKeeps).trans h
    · exact hsteady.toKeeps
  · exact hprior.toKeeps

theorem startWorkflowFull_follows (hstarts : starts) (hk : k.Calm) (hown : k.Owns a) :
    (startWorkflowFull a).follows starts (fun _ k' => k.Keeps k') k := by
  simp only [startWorkflowFull, Go.follows_bind]
  refine Go.follows_mono ?_ (namespaceOf_tracks _ k hk)
  rintro (e | n) k₁ hreads
  · exact hreads.toKeeps
  simp only
  split_ifs
  · exact hreads.toKeeps
  · simp only [Go.follows_bind]
    refine Go.follows_mono ?_ ((workflowIdFor_tracks a).after hk hreads.draws)
    rintro (e | wf) k₂ hdraws
    · exact hdraws.toKeeps
    have hown₂ : k₂.Owns a := fun run hrun => hdraws.fresh run (hown run hrun)
    refine Go.follows_mono ?_ (startUnder_follows hstarts hdraws.calm hown₂ wf)
    exact fun _ _ h => hdraws.toKeeps.trans h

end Start

end DurableTasks
