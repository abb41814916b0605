import DurableTasks.Engine.Invariants
import DurableTasks.Engine.RunSteps

/-!
Activities, the command batch, recovery and the purge as moves, and with them
every operation and every run that no crash cuts.
-/

namespace DurableTasks

open Effects Engine

variable {ts : List WorkflowTask} {w : World} {L : Ledger} {task : WorkflowTask}
  {a : WorkflowActivity} {r : RunRef}

variable {S : Scope}

/-! ## Handing out an attempt -/

section Dispatch

variable {r : RunRef} {seq : Int} {a : WorkflowActivity} {Q : Post Unit World}
  {w : World} {L : Ledger}

/-- An attempt: the record is marked and the marker goes to the history. Where
the run is gone, that is where it ends. -/
theorem dispatchActivityAttempt_shows (h : w.Shows L) (ha : a.storable = true)
    (hgone : L.row r = none → ∀ e w', w'.Shows (L.setAct r seq a.restarted) → Q (.error e) w')
    (hQ : ∀ row, L.row r = some row → ∀ t w', w'.Shows (((L.setAct r seq a.restarted).appendTo r row
      t (.activityStarted seq a.activityID a.attempt)).handOut (a.task r seq)) → Q (.ok ()) w') :
    (dispatchActivityAttempt r seq a true).spec S.draws (fun _ _ => True) Q w := by
  have hstorable : WorkflowActivity.storable { a with status := .started } = true := ha
  have hmarker : ∀ b, appendStartedMarker r seq b true =
      appendHistory r (.activityStarted seq b.activityID b.attempt) >>= fun _ => pure () :=
    fun _ => rfl
  simp only [dispatchActivityAttempt, Go.spec_bind, putWorkflowActivity_spec, hstorable, if_true,
    hmarker, true_and]
  have h₁ := h.put_act r seq hstorable
  refine appendHistory_shows h₁ (fun hrow => hgone hrow _ _ h₁) fun row hrow t w₂ h₂ => ?_
  simp only [Go.spec_pure, Go.spec_dispatchActivity]
  exact hQ row hrow t _ (h₂.dispatch _ _)

end Dispatch

theorem moving_applyScheduleActivity {seq : Int} {type : String} {input : Raw} {queue : String}
    {close beat : Int} {rp : Option Temporal.RetryPolicyJSON}
    (hcommand : S.command task (.scheduleActivity seq type input queue close beat rp)) :
    Moving S [task] (applyScheduleActivity task.ref seq type input queue close beat rp) := by
  intro w L h htasks
  have htask : task ∈ L.tasks := htasks task List.mem_cons_self
  simp only [applyScheduleActivity, Go.spec_bind, Go.spec_getWorkflowActivity]
  cases hget : w.store.get (.wfact task.ref seq) with
  | some a => exact .refl h
  | none =>
    have hnone : L.act task.ref seq = none := (h.act _ _).symm.trans hget
    simp only [Go.spec_bind]
    refine activityQueue_spec fun q => ?_
    simp only [putWorkflowActivity_spec, true_and]
    split_ifs with hstorable
    · set a := scheduledActivity task.ref seq type input q close beat rp with ha
      have h₁ := h.put_act task.ref seq hstorable
      refine appendHistory_shows h₁ (fun hrow => ?_) fun row hrow t w₂ h₂ => ?_
      · exact .of_move h₁ (.stray hrow (.inl ⟨task, htask, rfl⟩) ((Strays.refl _ _).setAct _ _))
      · refine dispatchActivityAttempt_shows h₂ hstorable (fun hgone => ?_)
          fun row' hrow' t' w' h' => ?_
        · rw [Ledger.row_appendTo_self] at hgone
          cases hgone
        · rw [Ledger.row_appendTo_self] at hrow'
          obtain rfl := Option.some.inj hrow'
          simp only [Ledger.setAct_appendTo, Ledger.setAct_setAct] at h'
          exact .of_move h' (.schedule htask hcommand hrow hnone ha)
    · exact .refl h

/-! ## Outcomes -/

section Outcome

variable {token : Nat} {task : ActivityTask} {result failure : Raw} {w : World} {L : Ledger}

theorem storable_result (ha : a.storable = true) (status : ActivityStatus) :
    WorkflowActivity.storable { a with status := status, result := result } = result.storable := by
  simp only [WorkflowActivity.storable, Bool.and_eq_true] at ha
  simp [WorkflowActivity.storable, ha.1.1, ha.2]

theorem storable_failure (ha : a.storable = true) (status : ActivityStatus) (n : Nat) :
    WorkflowActivity.storable { a with attempt := n, status := status, failure := failure } =
      failure.storable := by
  simp only [WorkflowActivity.storable, Bool.and_eq_true] at ha
  simp [WorkflowActivity.storable, ha.1.1, ha.1.2]

/-- The end of an activity, with `L'` what is kept once its token is consumed
and `hmove` the move its event completes. -/
theorem recordOutcome_moves {seq : Int} {b : WorkflowActivity} {attrs : EventAttrs}
    {id : FailureIdentity} {L' : Ledger} (h : w.Shows L')
    (hunstorable : b.storable = false → Move S L L')
    (hgone : L'.row r = none → Move S L (L'.setAct r seq b))
    (hmove : ∀ row t, L'.row r = some row → Move S L ((L'.setAct r seq b).appendTo r row t attrs)) :
    (recordOutcome r seq b attrs id).spec S.draws (fun _ _ => True) (fun _ w' => Moved S L w')
      w := by
  simp only [recordOutcome, Go.spec_bind, putWorkflowActivity_spec, spec_reportOutcome, true_and]
  split_ifs with hstorable
  · have h₁ := h.put_act r seq hstorable
    refine appendHistory_shows h₁ (fun hrow => .of_move h₁ (hgone hrow)) fun row hrow t w₂ h₂ => ?_
    refine Go.spec_mono (fun _ _ => .trans (.single (hmove row t hrow))) _ ?_
    exact (moving_scheduleWorkflowTask r).run h₂
  · exact .of_move h (hunstorable (by simpa using hstorable))

/-- What a worker reports for the token it holds: the failure, or the result
where there is none. -/
def Scope.Reports (S : Scope) (result failure : Raw) : Prop :=
  if failure.isEmpty then S.payload result else S.payload failure

/-- A report on a pending activity of a run that is open or gone. -/
theorem advance_moves {wfe : Option WorkflowExecution} (h : w.Shows (L.without token))
    (htoken : (token, task) ∈ L.tokens) (hact : L.act task.ref task.seq = some a)
    (hpending : a.isTerminal = false) (hreport : S.Reports result failure)
    (hopen : ∀ row, L.row task.ref = some row → row.isOpen = true) :
    (completeWorkflowActivity.advance task.ref task.seq result failure wfe a).spec S.draws
      (fun _ _ => True) (fun _ w' => Moved S L w') w := by
  have ha : a.storable = true := h.storable _ _ _ hact
  have hstray : ∀ {L' : Ledger}, L.row task.ref = none → Strays L task.ref L' → Move S L L' :=
    fun hgone => .stray hgone (.inr (.inl ⟨(token, task), htoken, rfl⟩))
  have hconsumed : Strays L task.ref (L.without token) := .without htoken rfl
  have hignore : ∀ {raw : Raw}, S.payload raw → raw.storable = false →
      Move S L (L.without token) := fun hraw hbad =>
    .ignore htoken (.inr (.inr (.inr ⟨_, hraw, hbad⟩)))
  unfold completeWorkflowActivity.advance
  split_ifs with hempty hretry
  · have hresult : S.payload result := by simpa [Scope.Reports, hempty] using hreport
    refine recordOutcome_moves h (fun hbad => ?_)
      (fun hgone => hstray hgone (hconsumed.setAct _ _)) ?_
    · exact hignore hresult ((storable_result ha _).symm.trans hbad)
    · exact fun row t hrow => .complete htoken hrow (hopen row hrow) hact hpending hresult
  · have hfailure : S.payload failure := by simpa [Scope.Reports, hempty] using hreport
    have hfailed : failure.isEmpty = false := by simpa using hempty
    simp only [Go.spec_bind, Go.spec_recordFailure, putWorkflowActivity_spec, true_and]
    rw [storable_failure ha]
    split_ifs with hstorable
    · have h' := (h.put_act task.ref task.seq
        ((storable_failure ha .scheduled (a.attempt + 1)).trans hstorable)).arm task.ref task.seq
      rw [Go.spec_afterFunc]
      cases hrow : L.row task.ref with
      | none => exact .of_move h' (hstray hrow ((hconsumed.setAct _ _).arm _))
      | some row =>
        exact .of_move h' (.retry htoken hrow (hopen row hrow) hact hpending hfailure hfailed
          hretry)
    · exact .of_move h (hignore hfailure (by simpa using hstorable))
  · have hfailure : S.payload failure := by simpa [Scope.Reports, hempty] using hreport
    have hfailed : failure.isEmpty = false := by simpa using hempty
    refine recordOutcome_moves h (fun hbad => ?_)
      (fun hgone => hstray hgone (hconsumed.setAct _ _)) ?_
    · exact hignore hfailure ((storable_failure ha _ a.attempt).symm.trans hbad)
    · exact fun row t hrow => .fail htoken hrow (hopen row hrow) hact hpending hfailure hfailed
        (by simpa using hretry)

theorem completeWorkflowActivity_moves (h : w.Shows (L.without token))
    (htoken : (token, task) ∈ L.tokens) (hreport : S.Reports result failure) :
    (completeWorkflowActivity task.ref task.seq result failure).moves S L w := by
  have hact := h.act task.ref task.seq
  have hrow := h.row task.ref
  refine completeWorkflowActivity_cases (fun hget _ => ?_) (fun a hget hdone => ?_)
    fun a hget hpending hopen => ?_
  · exact .of_move h (.ignore htoken (.inl (hact.symm.trans hget)))
  · rcases hdone with hterm | ⟨row, hstored, hshut⟩
    · exact .of_move h (.ignore htoken (.inr (.inl ⟨a, hact.symm.trans hget, hterm⟩)))
    · have hshut : ∃ row, L.row task.ref = some row ∧ row.isOpen = false :=
        ⟨row, hrow.symm.trans hstored, hshut⟩
      exact .of_move h (.ignore htoken (.inr (.inr (.inl hshut))))
  · exact advance_moves h htoken (hact.symm.trans hget) hpending hreport
      fun row hstored => hopen row (hrow.trans hstored)

/-- A response that holds no token, or one that advances what its token was
minted for. -/
theorem respondActivity_moves {f : ActivityTask → Go Unit} (h : w.Shows L)
    (hf : ∀ task (w : World), (token, task) ∈ L.tokens → w.Shows (L.without token) →
      (f task).moves S L w) :
    (resolveActivityToken token >>= fun
      | none => throw "task token not found"
      | some t => f t : Go Unit).moves S L w := by
  have h' := h.resolve token
  simp only [Go.spec_bind, Go.spec_resolveActivityToken]
  simp only [Dispatcher.resolveActivityToken, h.tokens] at h' ⊢
  cases hfind : L.tokens.find? fun p => p.1 = token with
  | none =>
    have habsent : L.without token = L := by
      rw [Ledger.without, List.filter_eq_self.mpr]
      simpa using List.find?_eq_none.mp hfind
    rw [habsent] at h'
    exact .refl h'
  | some p => grind

end Outcome

theorem moving_retryTimer (r : RunRef) (seq : Int) : Moving S [] (retryTimer r seq) := by
  intro w L h _
  have h' := h.disarm r seq
  simp only [retryTimer, Go.spec_bind, Go.spec_fire]
  simp only [h.timers] at h' ⊢
  split_ifs with hfires
  · have htimer : (r, seq) ∈ L.timers := by simpa using hfires
    generalize ({ w with timers := L.timers.erase (r, seq) } : World) = w₁ at h' ⊢
    simp only [Go.spec_withRun, Go.spec_bind, Go.spec_attempt, Go.spec_getWorkflowActivity]
    cases hget : w₁.store.get (.wfact r seq) with
    | none => exact .of_move h' (.lapse htimer (.inl ((h'.act _ _).symm.trans hget)))
    | some a =>
      have hact : L.act r seq = some a := (h'.act _ _).symm.trans hget
      dsimp only
      split_ifs with hterm
      · exact .of_move h' (.lapse htimer (.inr ⟨a, hact, hterm⟩))
      have hpending : a.isTerminal = false := by simpa using hterm
      refine dispatchActivityAttempt_shows h' (h.storable _ _ _ hact) ?_ ?_
      · exact fun hgone e w₂ h₂ => .of_move h₂ (.stray hgone (.inr (.inr ⟨seq, htimer⟩))
          (((Strays.refl _ _).disarm seq).setAct seq _))
      · exact fun row hrow t w₂ h₂ => .of_move h₂ (.refire htimer hrow hact hpending)
  · have habsent : L.disarm r seq = L := by
      rw [Ledger.disarm, List.erase_of_not_mem]
      simpa using hfires
    rw [habsent] at h'
    exact .refl h'

/-! ## The command batch -/

theorem moving_childStartRecorded (r : RunRef) (seq : Int) :
    Moving S ts (childStartRecorded r seq) := by
  refine (moving_listHistory r).attempt.bind ?_
  rintro (e | evs)
  · exact .pure _
  · exact .pure _

theorem moving_applyContinueAsNew (r : RunRef) (input : Raw) (type queue : String) :
    Moving S ts (applyContinueAsNew r input type queue) := by
  intro w L h _
  simp only [applyContinueAsNew, Go.spec_bind, spec_describeWorkflow, Store.resolve_coe]
  cases hrow : w.store.get (.wf r) with
  | none => exact .refl h
  | some cur =>
    dsimp only [Option.map_some]
    split_ifs with hterm
    · exact .refl h
    have hopen : cur.isOpen = true := by simpa [WorkflowExecution.isOpen] using hterm
    rw [Go.spec_bind]
    refine decodeInput_spec ?_
    rintro (e | args)
    · exact .refl h
    simp only [Go.spec_bind, Go.spec_newRunId, spec_terminalTransition, Store.resolve_coe,
      World.mint_store, hrow, Option.map_some, hterm]
    intro hdraw
    have hmint : w.mint.Shows L := h.aside rfl rfl rfl
    obtain ⟨t, t', h₁⟩ := hmint.close r cur .continuedAsNew (.continuedAsNew w.nextId)
    have hclose : Moves S L (L.appendTo r (closedRow cur .continuedAsNew t)
        t' (.continuedAsNew w.nextId)) :=
      .single (.close ((h.row r).symm.trans hrow) hopen rfl rfl (by simp [Scope.Closes])
        fun _ hcanceled => hcanceled.elim)
    refine ⟨by simp [CloseAlong, closeWrites, appendWrites], ?_⟩
    refine Go.spec_mono ?_ _ (startWorkflowFull_moves (S := S) h₁ ?_)
    · rintro (e | p) w' hmoved <;> exact .trans hclose hmoved
    · rintro run hrun wf -
      obtain rfl := Option.some.inj hrun
      exact Freshness.Holds.terminated (w := w.mint) (hdraw r.ns wf) hrow

theorem moving_applyStartChild (r : RunRef) (seq : Int) (wf type queue : String) (input : Raw)
    (attrs : List (String × Json)) :
    Moving S ts (applyStartChild r seq wf type queue input attrs) := by
  refine .ite (fun _ => .throw _) fun _ => (moving_childStartRecorded r seq).bind fun b => ?_
  refine .ite (fun _ => .pure _) fun _ => ?_
  refine .bind (fun w L h _ => decodeInput_spec fun _ => .refl h) fun args => ?_
  refine .bind ?_ fun wf' => .bind (fun w L h _ => ?_) ?_
  · exact .ite (fun _ => .bind .newRunId fun _ => .pure _) fun _ => .pure _
  · exact startWorkflowFull_moves h fun run hrun => by cases hrun
  · rintro ⟨child, row⟩
    exact (moving_appendHistory _ rfl).bind fun _ => moving_scheduleWorkflowTask r

/-- A run that is closed, or was asked to be cancelled. -/
def Ledger.Acked (L : Ledger) (r : RunRef) : Prop :=
  ∃ row, L.row r = some row ∧ (row.isOpen = true → row.status = .canceling)

theorem applyCommand_moves {c : Command} (hc : S.command task c)
    (hasked : S.handshake → ∀ f, c = .canceled f → L.Acked task.ref) (h : w.Shows L)
    (htask : task ∈ L.tasks) : (applyCommand task.ref c).moves S L w := by
  have hmoving : ∀ {x : Go Unit}, Moving S [task] x →
      x.moves S L w := by
    intro x hx
    refine hx w L h fun t ht => ?_
    obtain rfl := List.mem_singleton.mp ht
    exact htask
  cases c with
  | complete result =>
    refine hmoving (.bind (fun w L h htasks => ?_) fun _ => .pure _)
    refine terminalTransition_moves h rfl rfl (fun c hnames text htext => ?_)
      fun _ _ _ _ _ _ hcanceled => hcanceled.elim
    obtain rfl := EventAttrs.workflowCompleted.inj htext
    obtain rfl : c = task.ref := Target.Names.eq hnames
    exact ⟨task, htasks task List.mem_cons_self, rfl, result, rfl, hc⟩
  | fail failure =>
    exact hmoving ((moving_terminalTransition _ rfl rfl (by simp) id).bind fun _ => .pure _)
  | scheduleActivity seq type input queue close beat rp =>
    exact hmoving (moving_applyScheduleActivity hc)
  | canceled failure =>
    rw [applyCommand, Go.moves, Go.spec_bind]
    refine Go.spec_mono ?_ _ (ackCanceled_moves failure.text "" h ?_)
    · rintro (e | p) w' hmoved <;> exact hmoved
    · intro hhand row hrow
      obtain ⟨row', hrow', hacked⟩ := hasked hhand failure rfl
      obtain rfl := Option.some.inj (hrow.symm.trans hrow')
      exact hacked
  | continueAsNew input type queue => exact hmoving (moving_applyContinueAsNew _ input type queue)
  | startChild seq wf type queue input attrs =>
    exact hmoving (moving_applyStartChild _ seq wf type queue input attrs)

/-! ### Acknowledgements in a batch

A batch purges nothing, so a run that was closed or asked to be cancelled before
it is so at each of its commands. -/

def Scope.lasting (S : Scope) : Scope := { S with purge := False }

theorem Move.of_lasting {L' : Ledger} (h : Move S.lasting L L') : Move S L L' := by
  cases h with
  | enqueue hrow hopen hlist hdec => exact .enqueue hrow hopen hlist hdec
  | append hrow hpass => exact .append hrow hpass
  | revise hrow hlen htype hstatus => exact .revise hrow hlen htype hstatus
  | request hrow hopen hfirst => exact .request hrow hopen hfirst
  | close hrow hopen hterm hfits hcause hasked =>
    exact .close hrow hopen hterm hfits hcause hasked
  | create hfresh hopen hlen => exact .create hfresh hopen hlen
  | fork hrow hn hle hlist hdec hfresh hopen hlen hcopies =>
    exact .fork hrow hn hle hlist hdec hfresh hopen hlen hcopies
  | schedule htask hcommand hrow hnone ha => exact .schedule htask hcommand hrow hnone ha
  | ignore htoken hwhy => exact .ignore htoken hwhy
  | retry htoken hrow hopen hact hpending hpayload hfailed hretry =>
    exact .retry htoken hrow hopen hact hpending hpayload hfailed hretry
  | complete htoken hrow hopen hact hpending hpayload =>
    exact .complete htoken hrow hopen hact hpending hpayload
  | fail htoken hrow hopen hact hpending hpayload hfailed hretry =>
    exact .fail htoken hrow hopen hact hpending hpayload hfailed hretry
  | lapse htimer hwhy => exact .lapse htimer hwhy
  | refire htimer hrow hact hpending => exact .refire htimer hrow hact hpending
  | redispatch hrecover hact hpending => exact .redispatch hrecover hact hpending
  | purge hpurge => exact hpurge.elim
  | stray hrow hfrom hleaves => exact .stray hrow hfrom hleaves

theorem Moved.of_lasting (h : Moved S.lasting L w) : Moved S L w := by
  obtain ⟨L', hshows, hmoves⟩ := h
  exact ⟨L', hshows, Relation.ReflTransGen.mono (fun _ _ h => Move.of_lasting h) _ _ hmoves⟩

section Acked

variable {L L' : Ledger} {r : RunRef} {row : WorkflowExecution}

theorem Ledger.Acked.status (h : L.Acked r) (hrow : L.row r = some row)
    (hopen : row.isOpen = true) : row.status = .canceling := by
  obtain ⟨row', hrow', hacked⟩ := h
  obtain rfl := Option.some.inj (hrow.symm.trans hrow')
  exact hacked hopen

theorem RunStep.acked {v : RunView} (hr : S.fresh r ≠ .any) (h : L.Acked r)
    (hstep : RunStep S.lasting L r v) :
    ∃ row, v.row = some row ∧ (row.isOpen = true → row.status = .canceling) := by
  -- a run that is created has no row yet
  have hnew : ¬L.Fresh r (S.fresh r) := by
    intro hfresh
    obtain ⟨row, hrow, -⟩ := h
    rw [hfresh.row hr] at hrow
    cases hrow
  cases hstep with
  | same | rewrite | stray => exact h
  | revise hrow hlen hstatus =>
    refine ⟨_, rfl, fun hopen => ?_⟩
    rcases hstatus with heq | hterm
    · rw [heq]
      exact h.status hrow (by rwa [WorkflowExecution.isOpen, ← heq])
    · simp [WorkflowExecution.isOpen, hterm] at hopen
  | note hrow | schedule hrow | refire hrow | outcome hrow =>
    have hstatus := h.status hrow
    exact ⟨_, rfl, hstatus⟩
  | request => exact ⟨_, rfl, fun _ => rfl⟩
  | close hrow hterm =>
    refine ⟨_, rfl, fun hopen => ?_⟩
    simp [WorkflowExecution.isOpen, closedRow, hterm] at hopen
  | create hfresh | fork _ _ _ _ _ hfresh => exact absurd hfresh hnew
  | purge hpurge => exact hpurge.elim

theorem Moves.acked (hfresh : ∀ c, S.fresh c ≠ .any) (h : L.Acked r)
    (hmoves : Moves S.lasting L L') : L'.Acked r := by
  induction hmoves with
  | refl => exact h
  | tail _ hmove ih => exact (hmove.runStep (hfresh r)).acked (hfresh r) ih

end Acked

theorem applyCommands_moves {cmds : List Command} (hcmds : ∀ c ∈ cmds, S.command task c)
    (hasked : S.handshake → ∀ f, Command.canceled f ∈ cmds → L.Acked task.ref) (h : w.Shows L)
    (htask : task ∈ L.tasks) :
    (applyCommands task.ref cmds).spec S.draws (fun _ _ => True)
      (fun _ w' => Moved S.lasting L w') w := by
  induction cmds generalizing w L with
  | nil => exact .refl h
  | cons c cmds ih =>
    change ((do let _ ← attempt (applyCommand task.ref c)) >>= fun _ =>
      applyCommands task.ref cmds : Go Unit).spec _ _ _ w
    simp only [Go.spec_bind, Go.spec_attempt, Go.spec_pure]
    refine Go.spec_mono ?_ _ (applyCommand_moves (S := S.lasting) (hcmds c (by simp)) ?_ h htask)
    · rintro res w₁ ⟨L₁, h₁, hmoves⟩
      refine Go.spec_mono (fun _ _ => .trans hmoves) _ (ih (fun c' hc' => hcmds c' (by simp [hc']))
        (fun hhand f hf => ?_) h₁ (Moves.tasks hmoves _ htask))
      exact Moves.acked (S.apart hhand) (hasked hhand f (by simp [hf])) hmoves
    · rintro hhand f rfl
      exact hasked hhand f (by simp)

/-- What the answer to a workflow task has to meet. -/
def Scope.Answers (S : Scope) (s : Store) (task : WorkflowTask) (cmds : List Command) : Prop :=
  (∀ c ∈ cmds, S.command task c) ∧
    (S.handshake → ∀ f, Command.canceled f ∈ cmds →
      ∃ row, s.get (.wf task.ref) = some row ∧ (row.isOpen = true → row.status = .canceling))

theorem respondWorkflow_moves {token : Nat} {cmds : List Command} (h : w.Shows L)
    (hcmds : ∀ t, (w.disp.completeWorkflowTask token).1 = some t → S.Answers w.store t cmds) :
    (respondWorkflow token cmds).moves S L w := by
  have h' := h.complete token
  simp only [respondWorkflow, Go.spec_bind, Go.spec_completeWorkflowTask]
  cases hfind : (w.disp.completeWorkflowTask token).1 with
  | none => exact .refl h'
  | some task =>
    have htask : task ∈ L.tasks := by
      obtain ⟨p, hp, rfl⟩ := Option.map_eq_some_iff.mp hfind
      exact h.tasks p (List.mem_of_find?_eq_some hp)
    simp only [Go.spec_withRun]
    obtain ⟨hcommands, hasked⟩ := hcmds task hfind
    refine Go.spec_mono (fun _ _ => Moved.of_lasting) _
      (applyCommands_moves hcommands (fun hhand f hf => ?_) h' htask)
    have hacked := hasked hhand f hf
    rwa [h.row] at hacked

/-! ## Recovery -/

theorem redispatch_moves {l : List (Int × WorkflowActivity)} (hrecover : S.recover)
    (h : w.Shows L) (hnodup : (l.map Prod.fst).Nodup) (hl : ∀ p ∈ l, L.act r p.1 = some p.2) :
    (redispatch r l).moves S L w := by
  induction l generalizing w L with
  | nil => exact .refl h
  | cons p l ih =>
    obtain ⟨seq, a⟩ := p
    obtain ⟨hfirst, hnodup⟩ := List.nodup_cons.mp hnodup
    have hact : L.act r seq = some a := hl (seq, a) List.mem_cons_self
    have hl' : ∀ p ∈ l, L.act r p.1 = some p.2 := fun p hp => hl p (List.mem_cons_of_mem _ hp)
    change (_ >>= fun _ => redispatch r l).spec _ _ _ w
    rw [Go.spec_bind]
    dsimp only
    split_ifs with hterm
    · exact ih h hnodup hl'
    · rw [spec_dispatchActivityAttempt_quiet, if_pos (h.storable _ _ _ hact)]
      have h' : (handedOut w r seq a).Shows ((L.setAct r seq a.restarted).handOut (a.task r seq)) :=
        (h.put_act r seq (a := a.restarted) (h.storable r seq a hact)).dispatch _ _
      have hmove : Move S L ((L.setAct r seq a.restarted).handOut (a.task r seq)) :=
        .redispatch hrecover hact (by simpa using hterm)
      refine ⟨trivial, Go.spec_mono (fun _ _ => .trans (.single hmove)) _ (ih h' hnodup ?_)⟩
      rintro ⟨seq', b⟩ hp
      have hne : seq' ≠ seq := by
        rintro rfl
        exact hfirst (List.mem_map.mpr ⟨_, hp, rfl⟩)
      simpa [Ledger.handOut, Ledger.setAct, hne] using hl' _ hp

theorem moving_recoverRun (hrecover : S.recover) (r : RunRef) : Moving S ts (recoverRun r) := by
  refine .withRun ?_
  intro w L h hts
  simp only [Go.spec_bind, spec_describeWorkflow, Store.resolve_coe]
  cases w.store.get (.wf r) with
  | none => exact Moving.del_aside rfl w L h hts
  | some row =>
    dsimp only [Option.map_some]
    split_ifs
    · exact Moving.del_aside rfl w L h hts
    · simp only [Go.spec_bind, Go.spec_listWorkflowActivities]
      refine Go.spec_mono ?_ _ (redispatch_moves hrecover h (w.store.nodup_acts r) fun p hp => ?_)
      · rintro (e | _) w' ⟨L', h', hmoves⟩
        · exact ⟨L', h', hmoves⟩
        · exact Go.spec_mono (fun _ _ => .trans hmoves) _ ((moving_scheduleWorkflowTask r).run h')
      · exact (h.act _ _).symm.trans (Store.mem_acts.mp hp)

theorem moving_indexPages (ns : String) (fuel : Nat) (after : Option RunRef) :
    Moving S ts (indexPages ns fuel after) := by
  induction fuel generalizing after with
  | zero => exact .throw _
  | succ fuel ih =>
    refine .bind (fun w L h _ => Go.spec_page.mpr (.refl h)) fun rows => ?_
    refine .bind (.forM fun p _ => .ite (fun _ => .pure _) fun _ => .put_aside rfl) fun _ => ?_
    exact .ite (fun _ => .pure _) fun _ => ih _

theorem moving_recover (hrecover : S.recover) (fuel : Nat) : Moving S ts (recover fuel) := by
  refine .bind (fun w L h _ => Go.spec_listNamespaces.mpr (.refl h)) fun names => ?_
  refine .forM fun ns _ => .bind (.bind (fun w L h _ => Go.spec_getIndexed.mpr (.refl h)) ?_) ?_
  · rintro (_ | t)
    · exact (moving_indexPages ns fuel none).bind fun _ => .bind .now fun _ => .put_aside rfl
    · exact .pure _
  · intro _
    refine .bind (fun w L h _ => Go.spec_listOpen.mpr (.refl h)) fun refs => ?_
    exact .forM fun r _ => moving_recoverRun hrecover r

/-! ## Retention -/

theorem writes_memory (w : World) (xs : List Write) :
    (w.writes xs).disp = w.disp ∧ (w.writes xs).timers = w.timers := by
  induction xs generalizing w with
  | nil => exact ⟨rfl, rfl⟩
  | cons x xs ih => exact ih (w.write x)

theorem World.Shows.purge (h : w.Shows L) (r : RunRef) (row : WorkflowExecution) :
    (w.writes ((w.store.purgeKeys r row ++ [Key.wf r]).map .del)).Shows { L with
      row := Function.update L.row r none
      event := Function.update L.event r fun _ => none
      act := Function.update L.act r fun _ => none } := by
  obtain ⟨hdisp, htimers⟩ := writes_memory w ((w.store.purgeKeys r row ++ [Key.wf r]).map .del)
  have hother : ∀ {k : Key}, ¬w.store.Owns r k →
      (w.writes ((w.store.purgeKeys r row ++ [Key.wf r]).map .del)).store.get k =
        w.store.get k := fun hk => by
    rw [get_writes_del, if_neg (mt Store.owns_of_mem_purge hk)]
  refine ⟨fun r' => ?_, fun r' id => ?_, fun r' seq => ?_, fun r' id ev hev => ?_,
    fun r' seq a ha => ?_, hdisp ▸ h.tasks, hdisp ▸ h.tokens, hdisp ▸ h.next, htimers ▸ h.timers⟩
  · by_cases hr : r' = r
    · subst hr
      rw [get_writes_del, if_pos (by simp)]
      simp
    · rw [hother (k := .wf r') hr]
      simp [hr, h.row]
  · by_cases hr : r' = r
    · subst hr
      rw [get_writes_del_none fun ev hev => List.mem_append_left _ (Store.event_mem_purgeKeys hev)]
      simp
    · rw [hother (k := .wfh r' id) hr]
      simp [hr, h.event]
  · by_cases hr : r' = r
    · subst hr
      rw [get_writes_del_none fun a ha => List.mem_append_left _ (Store.record_mem_purgeKeys ha)]
      simp
    · rw [hother (k := .wfact r' seq) hr]
      simp [hr, h.act]
  · by_cases hr : r' = r
    · subst hr
      simp at hev
    · exact h.numbered r' id ev (by simpa [hr] using hev)
  · by_cases hr : r' = r
    · subst hr
      simp at ha
    · exact h.storable r' seq a (by simpa [hr] using ha)

theorem moving_purgeWorkflowRun (hpurge : S.purge) (r : RunRef) (cutoff : Nat) :
    Moving S ts (purgeWorkflowRun r cutoff) := by
  intro w L h _
  refine purgeWorkflowRun_spec (fun _ => .refl h) fun row hrow hshut _ => ?_
  exact ⟨along_of_forall (fun _ _ => trivial) _ _,
    .of_move (h.purge r row) (.purge hpurge ((h.row r).symm.trans hrow) hshut)⟩

/-! ## Operations and runs -/

/-- What the scope asks of a call. -/
def Operation.Within (S : Scope) (w : World) : Operation → Prop
  | .start a => S.Reserved w.store a
  | .signalWithStart a _ _ => S.Reserved w.store a
  | .reset t eventID _ _ => ∀ src row, w.store.resolve t = some (src, row) →
      S.Copies (fun id => w.store.get (.wfh src id)) eventID.toNat
  | .respondWorkflow token cmds => ∀ t, (w.disp.completeWorkflowTask token).1 = some t →
      S.Answers w.store t cmds
  | .sweepCanceling expired => S.handshake → ∀ r ∈ expired, ∀ row,
      w.store.get (.wf r) = some row → row.isOpen = true → row.status = .canceling
  | .respondActivityCompleted _ result => S.payload result
  | .respondActivityFailed _ failure => S.Reports .empty failure
  | .purge _ _ => S.purge
  | .recover => S.recover
  | _ => True

/-- The runs a scope covers. No crash falls in them. -/
def Scope.policy (S : Scope) : Policy Effect World Operation where
  op w o := o.Within S w
  effect := onDraw S.draws
  crash _ := False

/-- Every operation makes moves. -/
theorem program_moves (fuel : Nat) {o : Operation} (h : w.Shows L) (hwithin : o.Within S w) :
    (program fuel o).wp handler (onDraw S.draws) (onWrite fun _ _ => True)
      (fun _ w' => Moved S L w') w.begin := by
  have hbegin : w.begin.Shows L := h.aside rfl rfl rfl
  have hmoving : ∀ {α : Type} {x : Go α}, Moving S [] x →
      (drop x).wp handler (onDraw S.draws) (onWrite fun _ _ => True) (fun _ w' => Moved S L w')
        w.begin := fun hx => Go.wp_drop (hx.run hbegin)
  cases o with
  | registerNamespace name n =>
    exact hmoving (.ite (fun _ => .throw _) fun _ => .bind .now fun _ => .put_aside rfl)
  | start a => exact Go.wp_drop (startWorkflowFull_moves hbegin hwithin)
  | signalWithStart a name payload =>
    exact Go.wp_drop (signalWithStartFull_moves name payload hbegin hwithin)
  | signal t name payload identity => exact hmoving (moving_signalWorkflow t name payload identity)
  | cancel t reason identity => exact hmoving (moving_cancelWorkflowWithReason t reason identity)
  | terminate t reason identity => exact hmoving (moving_terminalTransition t rfl rfl (by simp) id)
  | updateMetadata t m => exact hmoving (moving_updateWorkflowMetadata t m)
  | reset t eventID reason identity =>
    exact Go.wp_drop (resetWorkflow_moves reason identity hbegin hwithin)
  | respondWorkflow token cmds => exact Go.wp_drop (respondWorkflow_moves hbegin hwithin)
  | respondActivityCompleted token result =>
    refine Go.wp_drop (respondActivity_moves hbegin fun task w htoken h => ?_)
    exact completeWorkflowActivity_moves h htoken hwithin
  | respondActivityFailed token failure =>
    refine Go.wp_drop (respondActivity_moves hbegin fun task w htoken h => ?_)
    exact completeWorkflowActivity_moves h htoken hwithin
  | retryTimer r seq => exact hmoving (moving_retryTimer r seq)
  | sweepCanceling expired =>
    refine Go.wp_drop (sweepCanceling_moves hbegin fun hhand r hr row hrow => ?_)
    exact hwithin hhand r hr row ((h.row r).trans hrow)
  | purge r cutoff => exact hmoving (moving_purgeWorkflowRun hwithin r cutoff)
  | subscribe ns queue =>
    exact hmoving fun w L h _ => Go.spec_subscribe.mpr
      (.refl ⟨h.row, h.event, h.act, h.numbered, h.storable, h.tasks, h.tokens, h.next,
        h.timers⟩)
  | unsubscribe ns queue =>
    exact hmoving fun w L h _ => Go.spec_unsubscribe.mpr
      (.refl ⟨h.row, h.event, h.act, h.numbered, h.storable, h.tasks, h.tokens, h.next,
        h.timers⟩)
  | recover => exact hmoving (moving_recover hwithin fuel)

def World.ledger (w : World) : Ledger where
  row r := w.store.get (.wf r)
  event r id := w.store.get (.wfh r id)
  act r seq := w.store.get (.wfact r seq)
  tasks := w.disp.wfByToken.map Prod.snd
  tokens := w.disp.actByToken
  nextToken := w.disp.nextToken
  timers := w.timers

theorem World.shows_ledger (hkeyed : w.store.Keyed)
    (h : ∀ r seq a, w.store.get (.wfact r seq) = some a → a.storable = true) :
    w.Shows w.ledger where
  row _ := rfl
  event _ _ := rfl
  act _ _ := rfl
  numbered r id ev hev := (hkeyed r id ev hev).1
  storable := h
  tasks _ hp := List.mem_map_of_mem hp
  tokens := rfl
  next := rfl
  timers := rfl

theorem World.Fresh.shows (h : w.Fresh) : w.Shows w.ledger := by
  refine World.shows_ledger h.keyed fun r seq a ha => ?_
  rw [h.store, Store.get_empty] at ha
  cases ha

/-- Between two operations of a run, the ledger is some moves on from where it
began. -/
theorem Scope.reachable_moved {fuel : Nat} {w' : World} (h : w.Shows L)
    (hr : (system fuel).Reachable S.policy w ⟨w', .done ()⟩) : Moved S L w' := by
  have hproof : (system fuel).Proof S.policy (onWrite fun _ _ => True) (Moved S L)
      fun _ => True := by
    refine ⟨?_, fun _ _ => False.elim, fun _ _ _ => trivial, fun _ _ => False.elim,
      fun _ _ _ _ _ => trivial⟩
    rintro w o - ⟨L', h', hmoves⟩ hwithin
    refine Program.wp_mono (fun _ _ => .trans hmoves) _ ?_
    exact program_moves fuel h' hwithin
  exact hproof.settled trivial (.refl h) hr

theorem Scope.policy_notDraw (S : Scope) (w : World) (e : Effect) (he : notDraw e = true) :
    S.policy.effect w e := by
  cases e <;> trivial

/-- The first start of an empty shard names a run id that is not used. -/
theorem startRun_within (S : Scope) : startRun.Within S emptyShard := by
  intro run hrun wf _
  cases S.fresh ⟨"n", wf, run⟩ <;> simp [Freshness.Holds, emptyShard]

end DurableTasks
