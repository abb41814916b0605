import DurableTasks.Engine.Durable

/-!
What the engine's functions can touch, whatever they are answered.
-/

namespace DurableTasks

open Effects Engine

variable {r : RunRef}

variable {S : (e : Effect) → e.Answer → Prop} {P : Effect → Prop} {α : Type}

abbrev Any {α : Type} : α → Prop := fun _ => True

/-- What the accesses of `P` keep, a function of only such accesses keeps. -/
theorem Go.spec_onlyOf {I : World → Prop} {A : World → Prop} {G : World → Write → Prop}
    {Q : α → Prop} {x : Go α} {w : World} (hG : ∀ w x, P (.write x) → G w x)
    (hI : ∀ e w, P e → I w → I (handler e w).2) (hx : OnlyOf P Q x) (hw : I w) :
    x.spec A G (fun res w' => (∀ a, res = .ok a → Q a) ∧ I w') w := by
  have hwp := Program.Given.wp (A := onDraw A) (fun _ _ _ => trivial) hI hx hw
  refine Program.wp_weaken (fun _ _ h => h) (fun w e he => ?_) _ hwp
  cases e with
  | write x => exact hG w x he
  | _ => trivial

theorem givenOf_get {k : Key} (h : P (.get k)) :
    GivenOf S P (fun v => S (.get k) (.ok v)) (get k) := by
  refine ⟨h, fun r hr v hv => ?_⟩
  rwa [hv] at hr

theorem givenOf_list {q : Query} (h : P (.list q)) :
    GivenOf S P (fun l => S (.list q) (.ok l)) (list q) := by
  refine ⟨h, fun r hr l hl => ?_⟩
  rwa [hl] at hr

theorem givenOf_write {x : Write} (h : P (.write x)) : GivenOf S P Any (write x) :=
  ⟨h, fun _ _ _ _ => trivial⟩

theorem givenOf_call {e : Effect} (h : P e) : GivenOf S P (S e) (call e) := by
  refine ⟨h, fun r hr a ha => ?_⟩
  obtain rfl := Except.ok.inj ha
  exact hr

theorem givenOf_withRun {body : Go α} {Q : α → Prop} (hlock : P (.lock r))
    (hunlock : P (.unlock r)) (h : GivenOf S P Q body) : GivenOf S P Q (withRun r body) := by
  refine .bind (givenOf_call hlock) fun _ _ => .bind h.lift_run fun res hres =>
    .bind (givenOf_call hunlock) fun _ _ => ?_
  exact hres

theorem givenOf_purgeWorkflowRun {cutoff : Nat} (hlock : P (.lock r)) (hunlock : P (.unlock r))
    (hrow : P (.get (.wf r)))
    (hlist : ∀ q, (∀ ns wf, q ≠ .rows ns wf) → (∀ ns after n, q ≠ .page ns after n) → P (.list q))
    (hdel : ∀ k, P (.write (.del k))) : GivenOf S P Any (purgeWorkflowRun r cutoff) := by
  have hevents : ∀ {q : Query}, (∀ ns wf, q ≠ .rows ns wf) → (∀ ns after n, q ≠ .page ns after n) →
      GivenOf S P Any (list q) :=
    fun hrows hpage => (givenOf_list (hlist _ hrows hpage)).mono fun _ _ => trivial
  refine givenOf_withRun hlock hunlock
    (.bind (.bind (givenOf_get hrow) fun row _ => .pure (Q := Any) trivial) fun found _ => ?_)
  rcases found with _ | ⟨c, row⟩
  · exact .pure trivial
  · dsimp only
    split_ifs
    · exact .pure trivial
    refine .bind (hevents (by simp) (by simp)) fun evs _ =>
      .bind (hevents (by simp) (by simp)) fun acts _ =>
      .bind (hevents (by simp) (by simp)) fun reqs _ => .bind (Q := Any) ?_ fun trigs _ =>
        .bind (.forM fun k _ => givenOf_write (hdel k)) fun _ _ => .pure trivial
    unfold triggerKeys
    split_ifs
    · exact .pure trivial
    · exact .bind (hevents (by simp) (by simp)) fun trigs _ => .pure trivial

theorem onlyOf_get {k : Key} (h : P (.get k)) : OnlyOf P Any (get k) := givenOf_get h

theorem onlyOf_list {q : Query} (h : P (.list q)) : OnlyOf P Any (list q) := givenOf_list h

theorem onlyOf_call {e : Effect} (h : P e) : OnlyOf P Any (call e) := givenOf_call h

theorem onlyOf_describeWorkflow (h : P (.get (.wf r))) :
    OnlyOf P (fun found => ∀ p, found = some p → p.1 = r) (describeWorkflow r) := by
  refine .bind (onlyOf_get h) fun row _ => .pure fun p hp => ?_
  obtain ⟨row', -, rfl⟩ := Option.map_eq_some_iff.mp hp
  rfl

theorem onlyOf_appendHistory {attrs : EventAttrs} (hget : P (.get (.wf r))) (hnow : P .now)
    (hevent : ∀ id t, P (.write (.put (.wfh r id) ⟨id, t, attrs⟩)))
    (hrow : ∀ row, P (.write (.put (.wf r) row))) : OnlyOf P Any (appendHistory r attrs) := by
  refine .bind (onlyOf_describeWorkflow hget).lift_run fun res hres => ?_
  match res with
  | .error e => exact .throw _
  | .ok none => exact .throw _
  | .ok (some (c, row)) =>
    obtain rfl : c = r := hres _ rfl _ rfl
    refine .bind (onlyOf_call hnow) fun t _ => ?_
    refine .bind (givenOf_write (hevent _ _)) fun _ _ => ?_
    exact .bind (givenOf_write (hrow _)) fun _ _ => .pure trivial

theorem onlyOf_listHistory (h : P (.list (.events r))) : OnlyOf P Any (listHistory r) := by
  refine .bind (onlyOf_list h) fun evs _ => ?_
  cases decodeEvents evs with
  | none => exact .throw _
  | some evs => exact .pure trivial

theorem onlyOf_scheduleWorkflowTask (hget : P (.get (.wf r))) (hlist : P (.list (.events r)))
    (htask : ∀ t, t.ref = r → P (.enqueueWorkflowTask t)) :
    OnlyOf P Any (scheduleWorkflowTask r) := by
  refine .bind (onlyOf_describeWorkflow hget) fun found _ => ?_
  match found with
  | none => exact .throw _
  | some (_, row) =>
    dsimp only
    split_ifs with hterm
    · exact .pure trivial
    · exact .bind (onlyOf_listHistory hlist) fun hist _ => onlyOf_call (htask _ rfl)

theorem givenOf_reportClose {row : WorkflowExecution} {status : WorkflowStatus}
    (hrecord : ∀ id retrying, P (.recordFailure id retrying))
    (hclear : ∀ id, P (.clearFailure id)) : GivenOf S P Any (reportClose r row status) := by
  cases status with
  | failed => exact givenOf_call (hrecord _ _) |>.mono fun _ _ => trivial
  | completed => exact givenOf_call (hclear _) |>.mono fun _ _ => trivial
  | _ => exact .pure trivial

theorem givenOf_reportOutcome {id : FailureIdentity} {status : ActivityStatus}
    (hrecord : P (.recordFailure id false)) (hclear : status = .completed → P (.clearFailure id)) :
    GivenOf S P Any (reportOutcome id status) := by
  unfold reportOutcome
  split_ifs with hstatus
  · exact givenOf_call (hclear hstatus) |>.mono fun _ _ => trivial
  · exact givenOf_call hrecord |>.mono fun _ _ => trivial

theorem onlyOf_putWorkflowActivity {seq : Int} {a : WorkflowActivity}
    (h : P (.write (.put (.wfact r seq) a))) : OnlyOf P Any (putWorkflowActivity r seq a) := by
  unfold putWorkflowActivity
  split_ifs
  · exact givenOf_write h
  · exact .throw _

/-! ## The answer to an activity -/

/-- `P` admits what the answer to the activity `seq` of `r` may touch. A record
or event of a completion, and a cleared streak, come of an empty failure
only. -/
structure Completion (P : Effect → Prop) (r : RunRef) (seq : Int) (failure : Raw) : Prop where
  lock : P (.lock r)
  unlock : P (.unlock r)
  now : P .now
  record : P (.get (.wfact r seq))
  row : P (.get (.wf r))
  events : P (.list (.events r))
  put : ∀ b : WorkflowActivity, (b.status = .completed → failure.isEmpty = true) →
    P (.write (.put (.wfact r seq) b))
  event : ∀ id t attrs, (attrs.isActivityCompleted = true → failure.isEmpty = true) →
    P (.write (.put (.wfh r id) ⟨id, t, attrs⟩))
  count : ∀ row, P (.write (.put (.wf r) row))
  task : ∀ t, t.ref = r → P (.enqueueWorkflowTask t)
  timer : P (.afterFunc r seq)
  failed : ∀ id retrying, P (.recordFailure id retrying)
  recovered : ∀ id, failure.isEmpty = true → P (.clearFailure id)

namespace Completion

variable {r : RunRef} {seq : Int} {failure : Raw}

theorem recordOutcome (h : Completion P r seq failure) {b : WorkflowActivity} {attrs : EventAttrs}
    (hb : b.status = .completed → failure.isEmpty = true)
    (hattrs : attrs.isActivityCompleted = true → failure.isEmpty = true) (id : FailureIdentity) :
    OnlyOf P Any (recordOutcome r seq b attrs id) :=
  .bind (onlyOf_putWorkflowActivity (h.put b hb)) fun _ _ =>
    .bind (onlyOf_appendHistory h.row h.now (fun n t => h.event n t attrs hattrs) h.count)
      fun _ _ => .bind (givenOf_reportOutcome (h.failed _ _) fun hstatus =>
        h.recovered _ (hb hstatus)) fun _ _ => onlyOf_scheduleWorkflowTask h.row h.events h.task

theorem advance (h : Completion P r seq failure) (result : Raw) (wfe : Option WorkflowExecution)
    (a : WorkflowActivity) :
    OnlyOf P Any (completeWorkflowActivity.advance r seq result failure wfe a) := by
  unfold completeWorkflowActivity.advance
  split_ifs with hempty
  · exact h.recordOutcome (fun _ => hempty) (fun _ => hempty) _
  · exact .bind (onlyOf_call (h.failed _ _)) fun _ _ =>
      .bind (onlyOf_putWorkflowActivity (h.put _ (by simp))) fun _ _ => onlyOf_call h.timer
  · exact h.recordOutcome (by simp) (by simp [EventAttrs.isActivityCompleted]) _

theorem onlyOf (h : Completion P r seq failure) (result : Raw) :
    OnlyOf P Any (completeWorkflowActivity r seq result failure) := by
  refine givenOf_withRun h.lock h.unlock (.bind (onlyOf_get h.record) fun found _ => ?_)
  cases found with
  | none => exact .throw _
  | some a =>
    dsimp only
    split_ifs
    · exact .pure trivial
    refine .bind (onlyOf_describeWorkflow h.row).lift_run fun res _ => ?_
    rcases res with e | _ | ⟨_, row⟩
    · exact h.advance result none a
    · exact h.advance result none a
    · dsimp only
      split_ifs
      · exact .pure trivial
      · exact h.advance result (some row) a

end Completion

end DurableTasks
