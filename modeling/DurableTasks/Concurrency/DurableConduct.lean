import DurableTasks.Concurrency.Conduct

/-!
Activities, command batches and recovery follow the protocol.
-/

namespace DurableTasks

open Effects Engine View
open Temporal (RetryPolicyJSON effectiveRetryPolicy decode)

variable {seq : Int} {r : RunRef} {a : WorkflowActivity}

variable {starts : Prop} {k : View}

/-! ## Activities -/

/-- It may have driven the record `seq` of the run whose lock it holds. -/
structure View.Drives (seq : Int) (k k' : View) : Prop extends View.Bound k k' where
  fresh : k'.fresh = k.fresh
  acts : ∀ x, x ≠ seq → k'.acts x = k.acts x
  handed : ∀ x ∈ k'.handed, x = seq ∨ x ∈ k.handed

theorem View.Steady.drives {k' : View} (h : k.Steady k') (seq : Int) : k.Drives seq k' :=
  ⟨h.toBound, h.fresh, fun x _ => congrFun h.acts x, fun _ hx => .inr (h.handed ▸ hx)⟩

theorem View.Drives.trans {k' k'' : View} (h : k.Drives seq k') (h' : k'.Drives seq k'') :
    k.Drives seq k'' :=
  ⟨h.toBound.trans h'.toBound, h'.fresh.trans h.fresh,
    fun x hx => (h'.acts x hx).trans (h.acts x hx),
    fun x hx => (h'.handed x hx).elim .inl fun hx => h.handed x hx⟩

theorem View.Calm.wrote_activity (hk : k.Calm) (r : RunRef) (seq : Int) (a : WorkflowActivity) :
    k.Drives seq (k.wrote (.put (.wfact r seq) a)) := by
  refine ⟨⟨⟨hk.mid, hk.entered⟩, rfl, rfl⟩, rfl, fun x hx => ?_, fun x hx => List.mem_cons.mp hx⟩
  exact Function.update_of_ne hx _ _

theorem putWorkflowActivity_follows {Q : Post Unit View}
    (hw : k.Writes starts (.put (.wfact r seq) a))
    (hok : Q (.ok ()) (k.wrote (.put (.wfact r seq) a))) (herr : ∀ e, Q (.error e) k) :
    (putWorkflowActivity r seq a).follows starts Q k := by
  unfold putWorkflowActivity
  split_ifs
  · exact Go.follows_put.mpr ⟨hw, hok⟩
  · exact herr _

theorem appendStartedMarker_tracks (r : RunRef) (seq : Int) (a : WorkflowActivity)
    (appendStarted : Bool) :
    (appendStartedMarker r seq a appendStarted).Tracks starts Calm Reads :=
  .ite (fun _ => (appendHistory_tracks r _).bind fun _ => .pure _) fun _ => .pure _

/-- An attempt is dispatched under the lock, for the record as it was read, by
a thread that may. -/
theorem dispatchActivityAttempt_follows (hk : k.Calm) (hheld : k.held = some r)
    {old : WorkflowActivity} (hread : k.acts seq = some (some old))
    (hattempt : old.attempt = a.attempt) (hmay : k.may = some (r, seq) ∨ k.recovering = true)
    (honce : k.recovering = true → seq ∉ k.handed) (appendStarted : Bool) :
    (dispatchActivityAttempt r seq a appendStarted).follows starts
      (fun _ k' => k.Drives seq k') k := by
  simp only [dispatchActivityAttempt, Go.follows_bind]
  have hwrites : k.Writes starts (.put (.wfact r seq) { a with status := .started }) := by
    refine .activity hheld hread ?_ honce
    rintro _ ⟨⟩
    exact hattempt.le
  refine putWorkflowActivity_follows hwrites ?_ fun e => hk.steady.drives seq
  have hdrives := hk.wrote_activity r seq { a with status := .started }
  have hmay' : (k.wrote (.put (.wfact r seq) { a with status := .started })).may =
      some (r, seq) := by
    rcases hmay with hmay | hrec
    · simp [View.wrote, hmay]
    · simp [View.wrote, View.entitles, hread, hrec]
  refine Go.follows_mono ?_ (appendStartedMarker_tracks r seq _ appendStarted _ hdrives.calm)
  rintro (e | -) k₂ hmark
  · exact hdrives.trans (hmark.drives seq)
  · rw [Go.follows_dispatchActivity]
    have hacts : k₂.acts seq = some (some { a with status := .started }) := by
      rw [hmark.acts]
      simp [View.wrote]
    refine ⟨⟨hmark.held.trans hheld, hmark.may.trans hmay', _, hacts, rfl⟩, ?_⟩
    have h := hdrives.trans (hmark.drives seq)
    exact ⟨⟨⟨h.calm.mid, h.calm.entered⟩, h.held, h.recovering⟩, h.fresh, h.acts, h.handed⟩

theorem activityQueue_tracks (r : RunRef) (queue : String) :
    (activityQueue r queue).Tracks starts Calm Reads := by
  refine .ite (fun _ => (describeWorkflow_tracks r).lift.bind ?_) fun _ => .pure _
  rintro (e | _ | p) <;> exact .pure _

theorem View.readActivity_of_held (hheld : k.held = some r) (seq : Int)
    (o : Option WorkflowActivity) :
    k.readActivity r seq o = { k with acts := Function.update k.acts seq (some o) } := by
  simp [View.readActivity, hheld]

theorem View.Calm.readActivity (hk : k.Calm) (hheld : k.held = some r) (seq : Int)
    (o : Option WorkflowActivity) : k.Drives seq (k.readActivity r seq o) := by
  rw [View.readActivity_of_held hheld]
  exact ⟨⟨⟨hk.mid, hk.entered⟩, rfl, rfl⟩, rfl, fun x hx => Function.update_of_ne hx _ _,
    fun x hx => .inr hx⟩

theorem applyScheduleActivity_tracks (r : RunRef) (seq : Int) (activityType : String) (input : Raw)
    (taskQueue : String) (startToCloseMs heartbeatMs : Int) (rp : Option RetryPolicyJSON) :
    (applyScheduleActivity r seq activityType input taskQueue startToCloseMs heartbeatMs
      rp).Tracks starts (Works r) Bound := by
  rintro k ⟨hk, hheld, hrec⟩
  show Go.follows starts _ _ k
  simp only [applyScheduleActivity, Go.follows_bind, Go.follows_getWorkflowActivity]
  intro o
  have hread := hk.readActivity hheld seq o
  cases o with
  | some a => exact hread.toBound
  | none =>
    simp only [Go.follows_bind]
    refine Go.follows_mono ?_ (activityQueue_tracks r taskQueue _ hread.calm)
    rintro (e | queue) k₁ hqueue
    · exact hread.toBound.trans hqueue.toBound
    have hbound := hread.toBound.trans hqueue.toBound
    have hacts : k₁.acts seq = some none := by
      rw [hqueue.acts, View.readActivity_of_held hheld]
      simp
    have hnot : k₁.recovering = true → seq ∉ k₁.handed := fun h => by
      simp [hbound.recovering, hrec] at h
    -- the first record entitles to its dispatch
    refine putWorkflowActivity_follows (.activity (hbound.held.trans hheld) hacts (by simp) hnot)
      ?_ fun e => hbound
    have hwrote := hqueue.calm.wrote_activity r seq (scheduledActivity r seq activityType input
      queue startToCloseMs heartbeatMs rp)
    refine Go.follows_mono ?_ (appendHistory_tracks r _ _ hwrote.calm)
    rintro (e | ev) k₂ happend
    · exact (hbound.trans hwrote.toBound).trans happend.toBound
    have hbound₂ := (hbound.trans hwrote.toBound).trans happend.toBound
    have hacts₂ : k₂.acts seq = some (some (scheduledActivity r seq activityType input
        queue startToCloseMs heartbeatMs rp)) := by
      rw [happend.acts]
      simp [View.wrote]
    have hmay₂ : k₂.may = some (r, seq) := by
      rw [happend.may]
      simp [View.wrote, View.entitles, hacts]
    refine Go.follows_mono ?_ (dispatchActivityAttempt_follows happend.calm
      (hbound₂.held.trans hheld) hacts₂ rfl (.inl hmay₂)
      (fun h => by simp [hbound₂.recovering, hrec] at h) true)
    exact fun _ _ h => hbound₂.trans h.toBound

theorem reportOutcome_tracks (id : FailureIdentity) (status : ActivityStatus) :
    (reportOutcome id status).Tracks starts Calm Reads :=
  .ite (fun _ _ hk => Go.follows_clearFailure.mpr hk.reads)
    fun _ _ hk => Go.follows_recordFailure.mpr hk.reads

theorem recordOutcome_follows (hk : k.Calm) (hheld : k.held = some r)
    (hrec : k.recovering = false) {old : WorkflowActivity} (hread : k.acts seq = some (some old))
    (hattempt : a.attempt = old.attempt) (attrs : EventAttrs) (id : FailureIdentity) :
    (recordOutcome r seq a attrs id).follows starts (fun _ k' => k.Bound k') k := by
  rw [recordOutcome, Go.follows_bind]
  have hwrites : k.Writes starts (.put (.wfact r seq) a) := by
    refine .activity hheld hread ?_ fun h => by simp [hrec] at h
    rintro _ ⟨⟩
    exact hattempt.ge
  refine putWorkflowActivity_follows hwrites ?_ fun e => hk.bound
  refine TracksOf.after ?_ hk (hk.wrote_activity r seq a).toBound
  refine TracksOf.mono (P := Calm) (S := Reads) ?_ (fun h => h) fun _ h => h.toBound
  exact (appendHistory_tracks r attrs).bind fun _ => (reportOutcome_tracks id _).bind fun _ =>
    scheduleWorkflowTask_tracks r

theorem advance_follows (hk : k.Calm) (hheld : k.held = some r) (hrec : k.recovering = false)
    (hduty : k.duty = some (r, seq)) (hread : k.acts seq = some (some a)) (result failure : Raw)
    (wfe : Option WorkflowExecution) :
    (completeWorkflowActivity.advance r seq result failure wfe a).follows starts
      (fun _ k' => k.Bound k') k := by
  unfold completeWorkflowActivity.advance
  split_ifs
  · exact recordOutcome_follows hk hheld hrec hread (by rfl) _ _
  · simp only [Go.follows_bind, Go.follows_recordFailure]
    -- the retry: the attempt grows, which entitles to the timer
    have hwrites : k.Writes starts (.put (.wfact r seq)
        { a with attempt := a.attempt + 1, status := .scheduled, failure := failure }) := by
      refine .activity hheld hread ?_ fun h => by simp [hrec] at h
      rintro _ ⟨⟩
      exact Nat.le_succ _
    refine putWorkflowActivity_follows hwrites ?_ fun e => hk.bound
    have hwrote := hk.wrote_activity r seq
      { a with attempt := a.attempt + 1, status := .scheduled, failure := failure }
    refine Go.follows_afterFunc.mpr ⟨⟨hheld, ?_⟩, ?_⟩
    · simp [View.wrote, View.entitles, hread, hduty]
    · exact ⟨⟨hwrote.calm.mid, hwrote.calm.entered⟩, rfl, rfl⟩
  · exact recordOutcome_follows hk hheld hrec hread (by rfl) _ _

theorem completeWorkflowActivity_follows (hk : k.Settled) (hduty : k.duty = some (r, seq))
    (result failure : Raw) :
    (completeWorkflowActivity r seq result failure).follows starts
      (fun _ k' => k'.Settled) k := by
  refine hk.withRun ?_
  simp only [Go.follows_bind, Go.follows_getWorkflowActivity]
  intro o
  have hread := (hk.locked r).calm.readActivity rfl seq o
  cases o with
  | none => exact hread.toBound
  | some a =>
    simp only
    split_ifs
    · exact hread.toBound
    · simp only [Go.follows_bind, Go.follows_attempt]
      refine Go.follows_mono ?_ (describeWorkflow_tracks r _ hread.calm)
      intro res k₁ hreads
      have hbound := hread.toBound.trans hreads.toBound
      have hadvance : ∀ wfe,
          (completeWorkflowActivity.advance r seq result failure wfe a).follows starts
            (fun _ k' => (k.locked r).Bound k') k₁ := by
        intro wfe
        have hduty₁ : k₁.duty = some (r, seq) := by
          rw [hreads.duty, View.readActivity_of_held rfl]
          exact hduty
        have hacts : k₁.acts seq = some (some a) := by
          rw [hreads.acts, View.readActivity_of_held rfl]
          simp
        refine Go.follows_mono ?_ (advance_follows hreads.calm hbound.held
          (hbound.recovering.trans hk.recovering) hduty₁ hacts result failure wfe)
        exact fun _ _ h => hbound.trans h
      rcases res with e | _ | ⟨c, row⟩
      · exact hadvance none
      · exact hadvance none
      · simp only
        split_ifs
        · exact hbound
        · exact hadvance (some row)

theorem retryTimer_tracks (r : RunRef) (seq : Int) :
    (retryTimer r seq).Tracks starts Settled fun _ k' => k'.Settled := by
  intro k hk
  show Go.follows starts _ _ k
  simp only [retryTimer, Go.follows_bind, Go.follows_fire]
  refine ⟨hk, ?_⟩
  have hk' : View.Settled { k with may := some (r, seq) } :=
    ⟨⟨hk.calm.mid, hk.calm.entered⟩, hk.held, hk.recovering⟩
  refine hk'.withRun ?_
  simp only [Go.follows_bind, Go.follows_attempt, Go.follows_getWorkflowActivity]
  intro o
  have hread := (hk'.locked r).calm.readActivity rfl seq o
  cases o with
  | none => exact hread.toBound
  | some a =>
    simp only
    split_ifs
    · exact hread.toBound
    · rw [View.readActivity_of_held rfl] at hread ⊢
      refine Go.follows_mono ?_ (dispatchActivityAttempt_follows hread.calm rfl
        (by simp : _ = some (some a)) rfl (.inl rfl)
        (fun h => by simp [View.locked, hk.recovering] at h) true)
      exact fun _ _ h => hread.toBound.trans h.toBound

/-! ## The command batch -/

theorem decodeInput_tracks {P : View → Prop} {S : View → View → Prop} [Path P S] (what : String)
    (input : Raw) : (decodeInput what input).Tracks starts P S := by
  refine .ite (fun _ => .pure _) fun _ => ?_
  split
  · exact .pure _
  · exact .throw _

theorem applyContinueAsNew_tracks (hstarts : starts) (r : RunRef) (input : Raw)
    (workflowType taskQueue : String) :
    (applyContinueAsNew r input workflowType taskQueue).Tracks starts Calm Bound := by
  refine .bind ((describeWorkflow_tracks r).mono id fun _ h => h.toBound) ?_
  rintro (_ | ⟨c, cur⟩)
  · exact .pure _
  refine .ite (fun _ => .pure _) fun _ => (decodeInput_tracks _ _).bind fun args k hk => ?_
  show Go.follows starts _ _ k
  simp only [Go.follows_bind, Go.follows_newRunId]
  intro newRun
  have hdraws := Go.follows_newRunId.mp (@newRunId_tracks starts k hk) newRun
  refine Go.follows_mono ?_ (terminalTransition_tracks r rfl _ _ hdraws.calm)
  rintro (e | p) k₂ hterm
  · exact hdraws.toBound.trans hterm.toBound
  -- the successor's run id is still unused
  have hown : k₂.Owns (successorOf r cur args workflowType taskQueue newRun) := by
    rintro run ⟨⟩
    rw [hterm.fresh]
    exact List.mem_cons_self
  refine Go.follows_mono ?_ (startWorkflowFull_follows hstarts hterm.calm hown)
  rintro (e | p) k₃ hstart <;>
    exact (hdraws.toBound.trans hterm.toBound).trans hstart.toBound

theorem childStartRecorded_tracks (r : RunRef) (seq : Int) :
    (childStartRecorded r seq).Tracks starts Calm Reads := by
  refine (listHistory_tracks r).lift.bind ?_
  rintro (e | evs) <;> exact .pure _

theorem childWorkflowIdFor_tracks (childWfId childType : String) :
    (childWorkflowIdFor childWfId childType).Tracks starts Calm Draws :=
  .ite (fun _ => newRunId_tracks.bind fun _ => .pure _) fun _ => .pure _

theorem applyStartChild_tracks (hstarts : starts) (r : RunRef) (seq : Int)
    (childWfId childType taskQueue : String) (input : Raw) (searchAttrs : List (String × Json)) :
    (applyStartChild r seq childWfId childType taskQueue input searchAttrs).Tracks starts
      Calm Keeps := by
  refine .ite (fun _ => .throw _) fun _ => .bind ((childStartRecorded_tracks r seq).mono id
    fun _ h => h.toKeeps) fun b => .ite (fun _ => .pure _) fun _ => ?_
  refine (decodeInput_tracks _ _).bind fun args => .bind ((childWorkflowIdFor_tracks _ _).mono id
    fun _ h => h.toKeeps) fun wf => .bind ?_ fun p => ?_
  · exact fun k hk => startWorkflowFull_follows hstarts hk fun run hrun => by cases hrun
  · refine TracksOf.mono (P := Calm) (S := Reads) ?_ id fun _ h => h.toKeeps
    exact (appendHistory_tracks r _).bind fun _ => scheduleWorkflowTask_tracks r

def Command.StartsNone : Command → Prop
  | .continueAsNew _ _ _ => False
  | .startChild _ _ _ _ _ _ => False
  | _ => True

theorem applyCommand_tracks {c : Command} (hc : starts ∨ c.StartsNone) :
    (applyCommand r c).Tracks starts (Works r) Bound := by
  cases c with
  | complete result =>
    exact .mono ((terminalTransition_tracks r rfl _).bind fun _ => .pure _) Works.calm
      fun _ h => h.toBound
  | fail failure =>
    exact .mono ((terminalTransition_tracks r rfl _).bind fun _ => .pure _) Works.calm
      fun _ h => h.toBound
  | scheduleActivity seq activityType input taskQueue startToCloseMs heartbeatMs rp =>
    exact applyScheduleActivity_tracks r _ _ _ _ _ _ _
  | canceled failure =>
    exact .mono ((ackCanceled_tracks r _ _).bind fun _ => .pure _) Works.calm fun _ h => h.toBound
  | continueAsNew input workflowType taskQueue =>
    exact (applyContinueAsNew_tracks (hc.resolve_right id) r _ _ _).mono Works.calm fun _ h => h
  | startChild seq childWfId childType taskQueue input searchAttrs =>
    exact (applyStartChild_tracks (hc.resolve_right id) r _ _ _ _ _ _).mono Works.calm
      fun _ h => h.toBound

theorem respondWorkflow_tracks (token : Nat) {cmds : List Command}
    (hcmds : ∀ c ∈ cmds, starts ∨ c.StartsNone) :
    (respondWorkflow token cmds).Tracks starts Settled fun _ k' => k'.Settled := by
  refine .bind (fun k hk => Go.follows_completeWorkflowTask.mpr fun _ => hk) ?_
  rintro (_ | t)
  · exact .throw _
  · exact Go.Tracks.withRun (.forM fun c hc => (applyCommand_tracks (hcmds c hc)).lift.bind
      fun _ => .pure _)

theorem View.Settled.duty (hk : k.Settled) (t : ActivityTask) :
    View.Settled { k with duty := some (t.ref, t.seq) } :=
  ⟨⟨hk.calm.mid, hk.calm.entered⟩, hk.held, hk.recovering⟩

theorem respondActivityCompleted_tracks (token : Nat) (result : Raw) :
    (respondActivityCompleted token result).Tracks starts Settled fun _ k' => k'.Settled := by
  intro k hk
  show Go.follows starts _ _ k
  simp only [respondActivityCompleted, Go.follows_bind, Go.follows_resolveActivityToken]
  exact ⟨hk, fun t => completeWorkflowActivity_follows (hk.duty t) rfl _ _⟩

theorem respondActivityFailed_tracks (token : Nat) (failure : Raw) :
    (respondActivityFailed token failure).Tracks starts Settled fun _ k' => k'.Settled := by
  intro k hk
  show Go.follows starts _ _ k
  simp only [respondActivityFailed, Go.follows_bind, Go.follows_resolveActivityToken]
  exact ⟨hk, fun t => completeWorkflowActivity_follows (hk.duty t) rfl _ _⟩

/-! ## Recovery -/

/-- A recovery between two runs. It has no run ids of its own. -/
structure View.Recovers (k : View) : Prop where
  calm : k.Calm
  held : k.held = none
  recovering : k.recovering = true
  fresh : k.fresh = []

theorem View.Recovers.enlist (hk : k.Recovers) (r : RunRef) :
    (k.wrote (.put (.wfopen r) ())).Recovers :=
  ⟨⟨hk.calm.mid, by simp [View.wrote, hk.calm.entered, hk.fresh]⟩, hk.held, hk.recovering, hk.fresh⟩

theorem indexPages_tracks (hstarts : starts) (ns : String) (fuel : Nat) (after : Option RunRef) :
    (indexPages ns fuel after).Tracks starts Recovers fun _ k' => k'.Recovers := by
  induction fuel generalizing after with
  | zero => exact .throw _
  | succ fuel ih =>
    refine .bind (fun k hk => Go.follows_page.mpr fun rows _ => hk) fun rows =>
      .bind (.forM fun p _ => ?_) fun _ => .ite (fun _ => .pure _) fun _ => ih _
    exact .ite (fun _ => .pure _) fun _ k hk =>
      Go.follows_put.mpr ⟨.enlist hstarts, hk.enlist p.1⟩

theorem indexOpenRuns_tracks (hstarts : starts) (fuel : Nat) (ns : String) :
    (indexOpenRuns fuel ns).Tracks starts Recovers fun _ k' => k'.Recovers := by
  refine .bind (fun k hk => Go.follows_getIndexed.mpr fun _ => hk) ?_
  rintro (_ | t)
  · refine (indexPages_tracks hstarts ns fuel none).bind fun _ =>
      .bind (fun k hk => Go.follows_now.mpr fun _ => hk) fun t k hk => ?_
    exact Go.follows_put.mpr ⟨.indexed, hk⟩
  · exact .pure _

/-- The records recovery drives are the ones it has read, each once. -/
theorem redispatch_follows (hk : k.Calm) (hheld : k.held = some r) (hrec : k.recovering = true)
    {acts : List (Int × WorkflowActivity)} (hnodup : (acts.map Prod.fst).Nodup)
    (hread : ∀ p ∈ acts, k.acts p.1 = some (some p.2) ∧ p.1 ∉ k.handed) :
    (redispatch r acts).follows starts (fun _ k' => k.Bound k' ∧ k'.fresh = k.fresh) k := by
  induction acts generalizing k with
  | nil => exact ⟨hk.bound, rfl⟩
  | cons p acts ih =>
    obtain ⟨seq, a⟩ := p
    rw [List.map_cons, List.nodup_cons] at hnodup
    change ((if a.isTerminal then pure () else dispatchActivityAttempt r seq a false) >>=
      fun _ => redispatch r acts : Go Unit).follows _ _ _
    rw [Go.follows_bind]
    obtain ⟨hseq, hnew⟩ := hread _ List.mem_cons_self
    have hdrive : (if a.isTerminal then pure () else dispatchActivityAttempt r seq a false :
        Go Unit).follows starts (fun _ k' => k.Drives seq k') k := by
      split_ifs
      · exact hk.steady.drives seq
      · exact dispatchActivityAttempt_follows hk hheld hseq rfl (.inr hrec) (fun _ => hnew) false
    refine Go.follows_mono ?_ hdrive
    rintro (e | _) k₁ h
    · exact ⟨h.toBound, h.fresh⟩
    refine Go.follows_mono ?_ (ih h.calm (h.held.trans hheld) (h.recovering.trans hrec)
      hnodup.2 fun p hp => ?_)
    · exact fun _ _ h' => ⟨h.toBound.trans h'.1, h'.2.trans h.fresh⟩
    · grind [h.acts, h.handed]

theorem describeRun_follows (hk : k.Calm) (r : RunRef) :
    (describeWorkflow r).follows starts
      (fun res k' => k.Reads k' ∧ ∃ o, res = .ok (o.map (Prod.mk r)) ∧ k'.row r = some o) k := by
  change (getRow r >>= fun row => pure (row.map (Prod.mk r)) : Go _).follows _ _ _
  simp only [Go.follows_bind, Go.follows_getRow, Go.follows_pure]
  exact fun o => ⟨hk.read _ o, o, rfl, by simp [View.read]⟩

theorem recoverRun_tracks (hstarts : starts) (r : RunRef) :
    (recoverRun r).Tracks starts Recovers fun _ k' => k'.Recovers := by
  intro k hk
  refine Go.follows_withRun hk.held ?_
  have hcalm : (k.locked r).Calm := ⟨hk.calm.mid, hk.calm.entered⟩
  have hdone : ∀ k', (k.locked r).Bound k' → k'.fresh = k.fresh →
      k'.held = some r ∧ k'.unlocked.Recovers :=
    fun k' h hfresh => ⟨h.held, ⟨h.calm.mid, h.calm.entered⟩, rfl,
      h.recovering.trans hk.recovering, hfresh.trans hk.fresh⟩
  simp only [Go.follows_bind]
  refine Go.follows_mono ?_ (describeRun_follows hcalm r)
  rintro _ k₁ ⟨hreads, o, rfl, hrow⟩
  cases o with
  | none =>
    refine Go.follows_del.mpr ⟨.unlist hrow (by simp) fun _ => hstarts, ?_⟩
    exact hdone _ hreads.toBound hreads.fresh
  | some row =>
    simp only [Option.map_some]
    split_ifs with hterm
    · refine Go.follows_del.mpr ⟨.unlist hrow ?_ (by simp), ?_⟩
      · rintro _ ⟨⟩
        simp [WorkflowExecution.isOpen, hterm]
      · exact hdone _ hreads.toBound hreads.fresh
    · simp only [Go.follows_bind, Go.follows_listWorkflowActivities]
      intro acts hacts
      have hheld : k₁.held = some r := hreads.held
      have hlist : k₁.readActivities r acts =
          { k₁ with acts := fun seq => some (acts.lookup seq) } := by
        simp [View.readActivities, hheld]
      rw [hlist]
      have hhanded : k₁.handed = [] := hreads.handed
      refine Go.follows_mono ?_ (redispatch_follows (k := { k₁ with
        acts := fun seq => some (acts.lookup seq) }) ⟨hreads.calm.mid, hreads.calm.entered⟩ hheld
        (hreads.recovering.trans hk.recovering) hacts.1
        fun p hp => ⟨congrArg some (hacts.2 p hp), ?_⟩)
      · rintro (e | _) k₂ ⟨hbound, hfresh⟩
        · exact hdone _ ⟨hbound.calm, hbound.held.trans hreads.held,
            hbound.recovering.trans hreads.recovering⟩ (hfresh.trans hreads.fresh)
        · refine Go.follows_mono ?_ (scheduleWorkflowTask_tracks r _ hbound.calm)
          exact fun _ _ h => hdone _ ⟨h.calm, h.held.trans (hbound.held.trans hreads.held),
            h.recovering.trans (hbound.recovering.trans hreads.recovering)⟩
            (h.fresh.trans (hfresh.trans hreads.fresh))
      · simp [hhanded]

theorem recover_tracks (hstarts : starts) (fuel : Nat) :
    (recover fuel).Tracks starts Recovers fun _ k' => k'.Recovers := by
  refine .bind (fun k hk => Go.follows_listNamespaces.mpr fun _ _ => hk) fun names =>
    .forM fun ns _ => (indexOpenRuns_tracks hstarts fuel ns).bind fun _ =>
    .bind (fun k hk => Go.follows_listOpen.mpr fun _ _ => hk) fun refs => ?_
  exact .forM fun r _ => recoverRun_tracks hstarts r

/-! ## The operations -/

/-- What an operation knows when it begins: the run id its caller gave it, if
any, is its own. -/
def Operation.view : Operation → View
  | .start a => { fresh := a.runId.toList }
  | .signalWithStart a _ _ => { fresh := a.runId.toList }
  | .recover => { recovering := true }
  | _ => {}

def Operation.StartsNone : Operation → Prop
  | .start _ | .signalWithStart _ _ _ | .recover => False
  | .respondWorkflow _ cmds => ∀ c ∈ cmds, c.StartsNone
  | _ => True

def Operation.Plain : Operation → Prop
  | .reset _ _ _ _ | .purge _ _ => False
  | _ => True

theorem Go.Tracks.drop {α : Type} {x : Go α} {P : View → Prop} {S : View → View → Prop}
    (hx : x.Tracks starts P S) (hk : P k) (hS : ∀ {k'}, S k k' → k'.Calm) :
    (drop x).conforms (protocol starts) (fun _ k' => k'.Calm) k := by
  simpa [Engine.drop, Go.follows] using Go.follows_mono (fun _ _ => hS) (hx k hk)

theorem startThenSignal_tracks (hstarts : starts) (a : StartRequest) (name : String)
    (payload : Json) : (startThenSignal a name payload).Tracks starts
      (fun k => k.Settled ∧ k.Owns a) fun _ k' => k'.Settled := by
  rintro k ⟨hk, hown⟩
  show Go.follows starts _ _ k
  rw [startThenSignal, Go.follows_bind]
  refine Go.follows_mono ?_ (startWorkflowFull_follows hstarts hk.calm hown)
  intro res k₁ h
  have hk₁ : k₁.Settled := ⟨h.calm, h.held.trans hk.held, h.recovering.trans hk.recovering⟩
  rcases res with e | p
  · exact hk₁
  have hdescribe := (@describeWorkflow_tracks starts p.1).mono id fun _ h => h.toBound
  refine TracksOf.bind (signalWorkflow_tracks _ _ _ _) (fun _ =>
    (Go.Tracks.settled hdescribe).lift.bind ?_) k₁ hk₁
  rintro (e | found) <;> exact .pure _

theorem signalWithStart_tracks (hstarts : starts) (a : StartRequest) (name : String)
    (payload : Json) : (signalWithStartFull a name payload).Tracks starts
      (fun k => k.Settled ∧ k.Owns a) fun _ k' => k'.Settled := by
  rintro k ⟨hk, hown⟩
  show Go.follows starts _ _ k
  rw [signalWithStartFull, Go.follows_bind, Go.follows_attempt]
  refine Go.follows_mono ?_ (describeWorkflow_tracks _ k hk.calm)
  intro res k₁ h
  have hk₁ : k₁.Settled := ⟨h.calm, h.held.trans hk.held, h.recovering.trans hk.recovering⟩
  have hown₁ : k₁.Owns a := fun run hrun => by
    rw [h.fresh]
    exact hown run hrun
  have hstart := startThenSignal_tracks hstarts a name payload k₁ ⟨hk₁, hown₁⟩
  rcases res with e | _ | ⟨c, row⟩
  · exact hstart
  · exact hstart
  · simp only
    split_ifs
    · exact hstart
    · exact TracksOf.bind (signalWorkflow_tracks _ _ _ _) (fun _ => .pure _) k₁ hk₁

theorem sweepCanceling_tracks (expired : List RunRef) :
    (sweepCanceling expired).Tracks starts Calm Steady :=
  .forM fun r _ => (ackCanceled_tracks r _ _).lift.bind fun _ => .pure _

/-- Every operation but a reset and a purge follows the protocol, and leaves no
event uncounted. -/
theorem program_follows (fuel : Nat) {o : Operation} (hplain : o.Plain)
    (hstarts : starts ∨ o.StartsNone) :
    (program fuel o).conforms (protocol starts) (fun _ k' => k'.mid = none) o.view := by
  have hcalm : View.Calm {} := ⟨rfl, rfl⟩
  have hsettled : View.Settled {} := ⟨hcalm, rfl, rfl⟩
  refine Program.conforms_mono (Q := fun _ k' => k'.Calm) (fun _ _ h => h.mid) _ ?_
  cases o with
  | registerNamespace name n => exact (registerNamespace_tracks name n).drop hcalm fun h => h.calm
  | start a =>
    have hx : (startWorkflowFull a).Tracks starts (fun k => k.Calm ∧ k.Owns a) Keeps := fun _ hk =>
      startWorkflowFull_follows (hstarts.resolve_right id) hk.1 hk.2
    refine hx.drop ⟨⟨rfl, rfl⟩, fun run hrun => ?_⟩ fun h => h.calm
    simp [Operation.view, hrun]
  | signalWithStart a name payload =>
    refine (signalWithStart_tracks (hstarts.resolve_right id) a name payload).drop
      ⟨⟨⟨rfl, rfl⟩, rfl, rfl⟩, fun run hrun => ?_⟩ fun h => h.calm
    simp [Operation.view, hrun]
  | signal target name payload identity =>
    exact (signalWorkflow_tracks target name payload identity).drop hsettled fun h => h.calm
  | cancel target reason identity =>
    have hx : (cancelWorkflowWithReason target reason identity).Tracks starts
        (fun k => k.Calm ∧ ∀ r, k.closed r = false) Steady := fun _ hk =>
      cancelWorkflow_follows hk.1 hk.2 target reason identity
    exact hx.drop ⟨hcalm, fun _ => rfl⟩ fun h => h.calm
  | terminate target reason identity =>
    exact (terminalTransition_tracks target rfl _).drop hcalm fun h => h.calm
  | updateMetadata target m =>
    exact (updateWorkflowMetadata_tracks target m).drop hcalm fun h => h.calm
  | reset target eventID reason identity => exact hplain.elim
  | respondWorkflow token cmds =>
    refine (respondWorkflow_tracks token fun c hc => ?_).drop hsettled fun h => h.calm
    exact hstarts.imp_right fun h => h c hc
  | respondActivityCompleted token result =>
    exact (respondActivityCompleted_tracks token result).drop hsettled fun h => h.calm
  | respondActivityFailed token failure =>
    exact (respondActivityFailed_tracks token failure).drop hsettled fun h => h.calm
  | retryTimer r seq => exact (retryTimer_tracks r seq).drop hsettled fun h => h.calm
  | sweepCanceling expired => exact (sweepCanceling_tracks expired).drop hcalm fun h => h.calm
  | purge r cutoff => exact hplain.elim
  | subscribe ns queue => exact ⟨trivial, fun _ _ => hcalm⟩
  | unsubscribe ns queue => exact ⟨trivial, fun _ _ => hcalm⟩
  | recover =>
    exact (recover_tracks (hstarts.resolve_right id) fuel).drop ⟨⟨rfl, rfl⟩, rfl, rfl, rfl⟩
      fun h => h.calm

/-- A property that every permitted access keeps, made by a thread on the ground
of its view, holds throughout every interleaving of operations. -/
theorem together_invariant {I M : Type} [DecidableEq I] {observe : I → Effect → World → M → M}
    {P : Shared I M → I → Effect → Prop} (Inv : Shared I M → (I → View) → Prop)
    (hkeep : ∀ {s know i e}, Inv s know → (know i).guard starts e → P s i e → s.waits e = false →
      Inv (s.after observe i e)
        (Function.update know i ((know i).learn e (handler e s.world).1)))
    {fuel : Nat} {w : World} {mon : M} {ops : I → Operation}
    (hops : ∀ i, (ops i).Plain ∧ (starts ∨ (ops i).StartsNone))
    (hinit : Inv ⟨w, fun _ => none, mon⟩ fun i => (ops i).view)
    {p : Pool I Effect Effect.Answer (Shared I M)}
    (hreach : Pool.Reaches (access observe) P (together fuel w mon ops) p) :
    ∃ know, Inv p.world know ∧ (p.Finished → ∀ i, (know i).mid = none) := by
  obtain ⟨know, hinv, hconf⟩ := Pool.invariant (T := protocol starts)
    (Q := fun _ _ k => k.mid = none)
    (fun {i e s a s'} hact => by
      obtain ⟨-, rfl, -⟩ := access_eq_some hact
      exact handler_sound e s.world)
    (fun {s know i e a s'} hinv hguard hP hact => by
      obtain ⟨hwait, rfl, rfl⟩ := access_eq_some hact
      exact hkeep hinv hguard hP hwait)
    hreach hinit fun i => program_follows fuel (hops i).1 (hops i).2
  exact ⟨know, hinv, fun hfin => hfin.know (Q := fun _ (k : View) => k.mid = none) hconf⟩

end DurableTasks
