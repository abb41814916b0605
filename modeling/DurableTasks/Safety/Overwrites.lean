import DurableTasks.Engine.Starts
import DurableTasks.Standalone.History

/-!
Starts that name a run which is there already. Neither start path looks for it:
unless the call is turned away first, row and first event are written over.
-/

namespace DurableTasks

open Effects Engine Standalone

variable {a : StartRequest} {run : String}

/-! ## Workflow runs -/

structure Store.SameRun (s s' : Store) (r : RunRef) : Prop where
  row : s'.get (.wf r) = s.get (.wf r)
  event : ∀ id, s'.get (.wfh r id) = s.get (.wfh r id)
  act : ∀ seq, s'.get (.wfact r seq) = s.get (.wfact r seq)

theorem Store.SameRun.refl (s : Store) (r : RunRef) : s.SameRun s r :=
  ⟨rfl, fun _ => rfl, fun _ => rfl⟩

structure World.Agrees (w w' : World) : Prop where
  get : ∀ k, (∀ name, k ≠ .ns name) → w'.store.get k = w.store.get k
  clock : w'.clock = w.clock

section Agrees

variable {w w' : World}

theorem World.agrees_inUse (w : World) (name : String) : w.Agrees (w.inUse name) := by
  unfold inUse
  split_ifs
  · exact ⟨fun _ _ => rfl, rfl⟩
  · exact ⟨fun k hk => Store.get_put_of_ne _ _ (hk name), rfl⟩

theorem World.Agrees.resolve (h : w.Agrees w') (t : Target) :
    w'.store.resolve t = w.store.resolve t := by
  have hrows : w'.store.rows t.ns t.wf = w.store.rows t.ns t.wf := by
    simp only [Store.rows]
    rw [Store.nsRows_congr fun r => h.get _ (by simp)]
  unfold Store.resolve
  cases t.run with
  | none => exact congrArg currentRun hrows
  | some run =>
    dsimp only
    rw [h.get _ (by simp)]

theorem World.Agrees.startDecision (h : w.Agrees w') (a : StartRequest) (wf : String) :
    w'.store.startDecision a wf = w.store.startDecision a wf := by
  have hprior : w'.store.prior a.ns wf a.requestID = w.store.prior a.ns wf a.requestID := by
    unfold Store.prior
    rw [h.get _ (by simp)]
    simp only [h.resolve]
  unfold Store.startDecision Store.live
  rw [hprior, h.resolve]

theorem World.Agrees.sameRun (h : w.Agrees w') {s : Store} {r : RunRef} :
    w'.store.SameRun s r ↔ w.store.SameRun s r := by
  have hrow := h.get (.wf r) (by simp)
  have hevent := fun id => h.get (.wfh r id) (by simp)
  have hact := fun seq => h.get (.wfact r seq) (by simp)
  constructor
  · rintro ⟨hrow', hevent', hact'⟩
    exact ⟨hrow'.trans hrow, fun id => (hevent' id).trans (hevent id),
      fun seq => (hact' seq).trans (hact seq)⟩
  · rintro ⟨hrow', hevent', hact'⟩
    exact ⟨hrow'.trans hrow.symm, fun id => (hevent' id).trans (hevent id).symm,
      fun seq => (hact' seq).trans (hact seq).symm⟩

end Agrees

/-- How many readings of the clock have been made once a namespace is in use. -/
def World.reading (w : World) (name : String) : Nat :=
  if (w.store.get (.ns name)).isSome then w.ticks else w.ticks + 1

theorem World.ticks_inUse (w : World) (name : String) :
    (w.inUse name).ticks = w.reading name := by
  unfold inUse reading
  split_ifs <;> rfl

/-- The run is just what a start that reads the clock as its `n`th writes: the
row it writes, and the event. -/
structure World.Repeats (w : World) (a : StartRequest) (r : RunRef) (n : Nat) : Prop where
  row : w.store.get (.wf r) = some (StartRequest.counted a (w.clock n))
  event : w.store.get (.wfh r 1) =
    some ⟨1, w.clock (n + 1), .workflowStarted a.type a.queue a.input⟩

/-- What spares the run `r` under the decision about a start that names it and
reads the clock as its `n`th: the start is answered or fails, or the run is
what the start writes. A run that is superseded by itself has to be closed in
its history already. -/
def World.SparedBy (w : World) (a : StartRequest) (r : RunRef) (n : Nat) : StartDecision → Prop
  | .answered _ => True
  | .refused _ => True
  | .fresh => w.Repeats a r n
  | .supersedes c _ => w.Repeats a r (n + 2) ∧
      (c = r → w.store.get (.wfh r 2) = some ⟨2, w.clock (n + 1), superseded⟩)

/-- What spares the run `r` from a start that names it. -/
def World.Spares (w : World) (a : StartRequest) (r : RunRef) : Prop :=
  (nameError w.orgs a.ns).isSome ∨ a.type = "" ∨
    w.SparedBy a r (w.reading a.ns) (w.store.startDecision a r.wf)

section Created

variable {w : World} {a : StartRequest} {wf run : String}

theorem enteredWorld_time (w : World) (a : StartRequest) (wf run : String) :
    (enteredWorld w a wf run).time = w.clock (w.ticks + 1) := by
  unfold enteredWorld createWrites
  split_ifs <;> rfl

theorem get_createdWorld_event : (createdWorld w a wf run).store.get (.wfh ⟨a.ns, wf, run⟩ 1) =
    some ⟨1, w.clock (w.ticks + 1), .workflowStarted a.type a.queue a.input⟩ := by
  rw [← enteredWorld_time w a wf run]
  simp [createdWorld, firstWrites, appendWrites, StartRequest.row, nextEvent, Store.get_put_of_ne]

/-- A start leaves every key alone but the index entry, the row, the request id
and the first event of its run. -/
theorem get_createdWorld_of_ne {k : Key} (hopen : k ≠ .wfopen ⟨a.ns, wf, run⟩)
    (hrow : k ≠ .wf ⟨a.ns, wf, run⟩) (hreq : k ≠ .idem a.ns wf a.requestID)
    (hevent : k ≠ .wfh ⟨a.ns, wf, run⟩ 1) :
    (createdWorld w a wf run).store.get k = w.store.get k := by
  unfold createdWorld firstWrites appendWrites enteredWorld createWrites
  split_ifs <;>
    simp [Store.get_put_of_ne, StartRequest.row, hopen, hrow, hreq, hevent]

/-- What a start leaves of a run it writes over. -/
theorem sameRun_createdWorld {s : Store} :
    s.SameRun (createdWorld w a wf run).store ⟨a.ns, wf, run⟩ ↔
      s.get (.wf ⟨a.ns, wf, run⟩) = some (StartRequest.counted a w.time) ∧
        s.get (.wfh ⟨a.ns, wf, run⟩ 1) =
          some ⟨1, w.clock (w.ticks + 1), .workflowStarted a.type a.queue a.input⟩ ∧
        (∀ id, id ≠ 1 → w.store.get (.wfh ⟨a.ns, wf, run⟩ id) =
          s.get (.wfh ⟨a.ns, wf, run⟩ id)) ∧
        ∀ seq, w.store.get (.wfact ⟨a.ns, wf, run⟩ seq) =
          s.get (.wfact ⟨a.ns, wf, run⟩ seq) := by
  have hevents : ∀ id, id ≠ 1 → (createdWorld w a wf run).store.get (.wfh ⟨a.ns, wf, run⟩ id) =
      w.store.get (.wfh ⟨a.ns, wf, run⟩ id) := fun id hid =>
    get_createdWorld_of_ne (by simp) (by simp) (by simp) (by simpa using hid)
  have hacts : ∀ seq, (createdWorld w a wf run).store.get (.wfact ⟨a.ns, wf, run⟩ seq) =
      w.store.get (.wfact ⟨a.ns, wf, run⟩ seq) := fun seq =>
    get_createdWorld_of_ne (by simp) (by simp) (by simp) (by simp)
  constructor
  · rintro ⟨hrow, hevent, hact⟩
    refine ⟨hrow.symm.trans (get_createdWorld w a wf run),
      (hevent 1).symm.trans get_createdWorld_event, fun id hid => ?_, fun seq => ?_⟩
    · exact (hevents id hid).symm.trans (hevent id)
    · exact (hacts seq).symm.trans (hact seq)
  · rintro ⟨hrow, hfirst, hevent, hact⟩
    refine ⟨(get_createdWorld w a wf run).trans hrow.symm, fun id => ?_, fun seq => ?_⟩
    · rcases eq_or_ne id 1 with rfl | hid
      · exact get_createdWorld_event.trans hfirst.symm
      · exact (hevents id hid).trans (hevent id hid)
    · exact (hacts seq).trans (hact seq)

theorem get_terminatedWorld_event {c : RunRef} {row : WorkflowExecution}
    {status : WorkflowStatus} {attrs : EventAttrs} (r : RunRef) (id : Nat) :
    (terminatedWorld w c row status attrs).store.get (.wfh r id) =
      if r = c ∧ id = row.historyLen + 1 then
        some ⟨row.historyLen + 1, w.clock (w.ticks + 1), attrs⟩
      else w.store.get (.wfh r id) := by
  split_ifs with h
  · obtain ⟨rfl, rfl⟩ := h
    simp [terminatedWorld, closedWorld, closeWrites, appendWrites, nextEvent, closedRow,
      Store.get_put_of_ne]
    rfl
  · simp only [terminatedWorld, appendWrites, World.writes_cons, World.writes_nil,
      World.write_store, World.tick_store, Store.apply_put]
    rw [Store.get_put_of_ne _ _ (by simp), Store.get_put_of_ne _ _ (by simpa [closedRow] using h)]
    simp [closedWorld, closeWrites, Store.get_put_of_ne, Store.get_del_of_ne]

theorem get_terminatedWorld_act {c : RunRef} {row : WorkflowExecution}
    {status : WorkflowStatus} {attrs : EventAttrs} (r : RunRef) (seq : Int) :
    (terminatedWorld w c row status attrs).store.get (.wfact r seq) =
      w.store.get (.wfact r seq) := by
  simp [terminatedWorld, closedWorld, closeWrites, appendWrites, Store.get_put_of_ne,
    Store.get_del_of_ne]

end Created

/-- What a start under a workflow id leaves of the run it names. -/
theorem startUnder_spares {w : World} {wf : String} (hrun : a.runId = some run) :
    (startUnder a wf).spec (fun _ => True) (fun _ _ => True) (fun _ w' =>
      (w.store.SameRun w'.store ⟨a.ns, wf, run⟩ ↔
        w.SparedBy a ⟨a.ns, wf, run⟩ w.ticks (w.store.startDecision a wf))) w := by
  set r : RunRef := ⟨a.ns, wf, run⟩ with hr
  have hcreate : ∀ {w₁ : World} {P : Prop},
      (w.store.SameRun (createdWorld w₁ a wf run).store r ↔ P) →
      (createRun a wf run).spec (fun _ => True) (fun _ _ => True) (fun _ w' =>
        (w.store.SameRun w'.store r ↔ P)) w₁ := by
    intro w₁ P h
    rw [spec_createRun]
    refine ⟨along_of_forall (fun _ _ => trivial) _ _, along_of_forall (fun _ _ => trivial) _ _, ?_⟩
    cases decodeEvents ((createdWorld w₁ a wf run).store.events ⟨a.ns, wf, run⟩) with
    | none => exact h
    | some evs => exact h
  rw [spec_startUnder]
  cases hdec : w.store.startDecision a wf with
  | answered p => exact iff_of_true (.refl _ _) trivial
  | refused e => exact iff_of_true (.refl _ _) trivial
  | fresh =>
    dsimp only
    rw [spec_startFresh, hrun]
    refine hcreate (sameRun_createdWorld.trans ⟨fun h => ⟨h.1, h.2.1⟩, fun h => ?_⟩)
    exact ⟨h.row, h.event, fun _ _ => rfl, fun _ => rfl⟩
  | supersedes c row =>
    have hc := (Store.startDecision_supersedes hdec).1
    dsimp only
    refine ⟨⟨along_of_forall (fun _ _ => trivial) _ _,
      along_of_forall (fun _ _ => trivial) _ _⟩, ?_⟩
    rw [spec_startFresh, hrun]
    refine hcreate (sameRun_createdWorld.trans ⟨?_, ?_⟩)
    · rintro ⟨hrow, hfirst, hevents, -⟩
      refine ⟨⟨hrow, hfirst⟩, ?_⟩
      rintro rfl
      -- the row that is superseded counts one event, so the close is event 2
      have hlen : row.historyLen = 1 :=
        congrArg WorkflowExecution.historyLen (Option.some.inj (hc.symm.trans hrow))
      have hclosing := hevents 2 (by decide)
      rw [get_terminatedWorld_event, hlen, if_pos ⟨hr.symm, rfl⟩] at hclosing
      exact hclosing.symm
    · rintro ⟨⟨hrow, hfirst⟩, hclosing⟩
      refine ⟨hrow, hfirst, fun id hid => ?_, fun seq => get_terminatedWorld_act _ _⟩
      rw [get_terminatedWorld_event]
      split_ifs with h
      · obtain ⟨hcr, rfl⟩ := h
        rw [← hcr] at hc
        have hlen : row.historyLen = 1 :=
          congrArg WorkflowExecution.historyLen (Option.some.inj (hc.symm.trans hrow))
        rw [hlen]
        exact (hclosing hcr.symm).symm
      · rfl

def StartRequest.idIn (a : StartRequest) (w : World) : String :=
  if a.workflowId = "" then StartRequest.madeId a w.nextId else a.workflowId

theorem World.Agrees.sparedBy {w w' : World} (h : w.Agrees w') {r : RunRef} {n : Nat}
    {d : StartDecision} : w'.SparedBy a r n d ↔ w.SparedBy a r n d := by
  have hrepeats : ∀ n, w'.Repeats a r n ↔ w.Repeats a r n := by
    intro n
    have hrow := h.get (.wf r) (by simp)
    have hevent := h.get (.wfh r 1) (by simp)
    constructor
    · rintro ⟨hrow', hevent'⟩
      rw [h.clock] at hrow' hevent'
      exact ⟨hrow.symm.trans hrow', hevent.symm.trans hevent'⟩
    · rintro ⟨hrow', hevent'⟩
      rw [← h.clock] at hrow' hevent'
      exact ⟨hrow.trans hrow', hevent.trans hevent'⟩
  cases d with
  | answered p => rfl
  | refused e => rfl
  | fresh => exact hrepeats n
  | supersedes c row =>
    refine and_congr (hrepeats _) ?_
    rw [h.get _ (by simp), h.clock]

theorem startWorkflowFull_spares {w : World} (hrun : a.runId = some run) :
    (startWorkflowFull a).spec (fun _ => True) (fun _ _ => True) (fun _ w' =>
      (w.store.SameRun w'.store ⟨a.ns, StartRequest.idIn a w, run⟩ ↔
        w.Spares a ⟨a.ns, StartRequest.idIn a w, run⟩)) w := by
  rw [spec_startWorkflowFull]
  cases hname : nameError w.orgs a.ns with
  | some e => exact iff_of_true (.refl _ _) (.inl (by simp [hname]))
  | none =>
    refine ⟨along_of_forall (fun _ _ => trivial) _ _, ?_⟩
    by_cases htype : a.type = ""
    · rw [if_pos htype]
      exact iff_of_true ((w.agrees_inUse a.ns).sameRun.mp (.refl _ _)) (.inr (.inl htype))
    rw [if_neg htype]
    -- both ways to a workflow id lead to a start over the same runs
    have hunder : ∀ w₁ : World, w.Agrees w₁ → w₁.ticks = w.reading a.ns → ∀ wf,
        (startUnder a wf).spec (fun _ => True) (fun _ _ => True) (fun _ w' =>
          (w.store.SameRun w'.store ⟨a.ns, wf, run⟩ ↔ w.Spares a ⟨a.ns, wf, run⟩)) w₁ := by
      intro w₁ hagrees hticks wf
      refine Go.spec_mono ?_ _ (startUnder_spares hrun)
      intro _ w' h
      rw [hagrees.sameRun, hagrees.sparedBy, hagrees.startDecision, hticks] at h
      rw [h, World.Spares, hname]
      simp [htype]
    by_cases hid : a.workflowId = ""
    · rw [if_pos hid]
      intro _
      have hmade : StartRequest.idIn a w = StartRequest.madeId a (w.inUse a.ns).nextId := by
        rw [StartRequest.idIn, if_pos hid]
        unfold World.inUse
        split_ifs <;> rfl
      rw [hmade]
      have hagrees := w.agrees_inUse a.ns
      exact hunder (w.inUse a.ns).mint ⟨hagrees.get, hagrees.clock⟩ (w.ticks_inUse _) _
    · rw [if_neg hid, StartRequest.idIn, if_neg hid]
      exact hunder _ (w.agrees_inUse a.ns) (w.ticks_inUse _) _

/-! ## Standalone activities -/

structure Shard.Repeats (s : Shard) (a : StartActivityRequest) (r : RunRef) : Prop where
  row : s.acts.get (.act r) = some (a.counted (rfc3339 s.time))
  event : s.acts.get (.ahist r 1) = some ⟨1, rfc3339 s.tick.time, a.event⟩

/-- What spares the activity `r` from a start that names it. -/
def Shard.Spares (s : Shard) (a : StartActivityRequest) (r : RunRef) : Prop :=
  s.world.store.get (.ns a.ns) = none ∨ a.type = "" ∨ a.activityID = "" ∨
    (s.acts.prior a).isSome ∨ s.Repeats a r

theorem sameActivity_created {s : Shard} {a : StartActivityRequest} :
    s.acts.SameActivity (s.created a run).acts ⟨a.ns, a.activityID, run⟩ ↔
      s.Repeats a ⟨a.ns, a.activityID, run⟩ := by
  constructor
  · rintro ⟨hrow, hevent⟩
    exact ⟨hrow.symm.trans Shard.get_created_row, (hevent 1).symm.trans Shard.get_created_event⟩
  · rintro ⟨hrow, hfirst⟩
    refine ⟨Shard.get_created_row.trans hrow.symm, fun id => ?_⟩
    rcases eq_or_ne id 1 with rfl | hid
    · exact Shard.get_created_event.trans hfirst.symm
    · exact Shard.get_created_event_of_ne hid

theorem startActivity_spares {s : Shard} {a : StartActivityRequest} (hrun : a.runID = some run) :
    Act.spec (startActivity a) (fun _ s' =>
      (s.acts.SameActivity s'.acts ⟨a.ns, a.activityID, run⟩ ↔
        s.Spares a ⟨a.ns, a.activityID, run⟩)) s := by
  have hsame : s.acts.SameActivity s.acts ⟨a.ns, a.activityID, run⟩ := ⟨rfl, fun _ => rfl⟩
  rw [spec_startActivity]
  split_ifs with hns htype hid
  · exact iff_of_true hsame (.inl hns)
  · exact iff_of_true hsame (.inr (.inl htype))
  · exact iff_of_true hsame (.inr (.inr (.inl hid)))
  cases hprior : s.acts.prior a with
  | some found => exact iff_of_true hsame (.inr (.inr (.inr (.inl (by simp [hprior])))))
  | none =>
    simp only [hrun]
    rw [sameActivity_created, Shard.Spares]
    simp [hns, htype, hid, hprior]

/-! ## Both start paths -/

/-- A start that names a run leaves it as it is just in the cases where it is
turned away before it writes, or writes what is there. -/
theorem start_leaves_named_run_iff (w : World) (a : StartRequest) (s : Shard)
    (b : StartActivityRequest) (run : String) :
    (a.runId = some run →
      (w.store.SameRun ((startWorkflowFull a).run.run handler w).2.store
          ⟨a.ns, StartRequest.idIn a w, run⟩ ↔
        w.Spares a ⟨a.ns, StartRequest.idIn a w, run⟩)) ∧
    (b.runID = some run →
      (s.acts.SameActivity ((startActivity b).run.run activityHandler s).2.acts
          ⟨b.ns, b.activityID, run⟩ ↔
        s.Spares b ⟨b.ns, b.activityID, run⟩)) :=
  ⟨fun hrun => Go.run_of_spec (startWorkflowFull_spares hrun),
    fun hrun => Program.wp_of_run _ (startActivity_spares hrun)⟩

def restart : StartRequest := { ns := "n", workflowId := "wf", runId := some "r", type := "T" }

def restartActivity : StartActivityRequest :=
  { ns := "n", activityID := "a", runID := some "q", type := "T" }

/-- A run that was terminated and an activity that was completed are both
started anew: the run is open again with one event counted, the activity is
scheduled again. -/
theorem start_overwrites_named_run :
    let w := (system 1).turns [.whole startRun, .whole (.terminate ⟨"n", "wf", none⟩ "" "")]
      emptyShard
    let r : RunRef := ⟨"n", "wf", "r"⟩
    let q : RunRef := ⟨"n", "a", "q"⟩
    ((w.store.get (.wf r)).map fun row => (row.status, row.historyLen)) = some (.terminated, 2) ∧
      ((((startWorkflowFull restart).run.run handler w).2.store.get (.wf r)).map fun row =>
        (row.status, row.historyLen)) = some (.running, 1) ∧
      ((oneOfEach.acts.get (.act q)).map fun a => (a.status, a.historyLength)) =
        some (.completed, 2) ∧
      ((((startActivity restartActivity).run.run activityHandler oneOfEach).2.acts.get
        (.act q)).map fun a => (a.status, a.historyLength)) = some (.scheduled, 1) := by
  decide +kernel

end DurableTasks
