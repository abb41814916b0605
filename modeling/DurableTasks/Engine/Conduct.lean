import DurableTasks.Engine.Discipline
import DurableTasks.Engine.Starts

/-!
Every operation keeps to the write discipline, whatever the store holds and
wherever a crash left it.
-/

namespace DurableTasks

open Effects Engine

variable {r c : RunRef} {w : World} {row : WorkflowExecution} {attrs : EventAttrs}
  {status : WorkflowStatus} {G : World → Write → Prop} {f : Freshness} {s : Store}
  {reason identity : String}

variable {L : Licence} {A : World → Prop}

/-- What is assumed of the ids `newRunId` draws: no run is stored under them,
and they are as fresh as the licence asks. -/
def Licence.Draws (L : Licence) (A : World → Prop) : Prop :=
  ∀ w, A w → ∀ ns wf, w.store.get (.wf ⟨ns, wf, w.nextId⟩) = none ∧
    L.fresh.Holds w.store ⟨ns, wf, w.nextId⟩

/-- From a world with nothing half written, `x` keeps to the discipline and
leaves nothing half written. -/
def Keeps {α : Type} (L : Licence) (A : World → Prop) (x : Go α) : Prop :=
  ∀ w : World, w.window = .settled → x.spec A L.guard (fun _ w' => w'.window = .settled) w

namespace Keeps

variable {α β : Type}

theorem pure (a : α) : Keeps L A (Pure.pure a : Go α) := KeepsOf.pure a

theorem throw (e : String) : Keeps L A (throw e : Go α) := KeepsOf.throw e

theorem bind {x : Go α} {f : α → Go β} (hx : Keeps L A x) (hf : ∀ a, Keeps L A (f a)) :
    Keeps L A (x >>= f) := KeepsOf.bind hx hf

theorem attempt {x : Go α} (hx : Keeps L A x) : Keeps L A (attempt x) := KeepsOf.lift_run hx

theorem withRun {x : Go α} (hx : Keeps L A x) : Keeps L A (withRun r x) := by
  intro w hw
  rw [Go.spec_withRun]
  exact hx w hw

theorem ite {c : Prop} [Decidable c] {x y : Go α} (hx : c → Keeps L A x)
    (hy : ¬c → Keeps L A y) : Keeps L A (if c then x else y) := by
  split_ifs with hc
  · exact hx hc
  · exact hy hc

theorem forM {l : List α} {f : α → Go Unit} (hf : ∀ a ∈ l, Keeps L A (f a)) :
    Keeps L A (l.forM f) := KeepsOf.forM hf

end Keeps

/-- An append keeps to the discipline in any window that admits its event, and
settles it. -/
theorem append_along (t : Nat) (hrow : w.store.get (.wf c) = some row)
    (hadm : w.window.Admits c attrs) :
    Along L.guard w (appendWrites c row t attrs) ∧
      (w.writes (appendWrites c row t attrs)).window = .settled := by
  refine ⟨⟨.append hrow hadm rfl, ?_, trivial⟩, rfl⟩
  have hkept : (w.write (.put (.wfh c (row.historyLen + 1)) (nextEvent row t attrs))).store.get
      (.wf c) = some row := by
    simpa [Store.get_put_of_ne] using hrow
  exact .count hkept (Nat.le_succ _) (.inr ⟨_, attrs, rfl, le_rfl⟩)

theorem keeps_appendHistory (t : Target) (hopen : attrs.closes = none) :
    Keeps L A (appendHistory t attrs) := by
  intro w hw
  rw [spec_appendHistory]
  split
  · exact hw
  · next c row hres =>
      have hrow : w.tick.store.get (.wf c) = some row := (Store.resolve_some hres).1
      have hadm : w.tick.window.Admits c attrs := by
        simp [hw, Window.Admits, hopen]
      exact append_along _ hrow hadm

theorem keeps_describeWorkflow (t : Target) : Keeps L A (describeWorkflow t) := by
  intro w hw
  rw [spec_describeWorkflow]
  exact hw

theorem keeps_listHistory (r : RunRef) : Keeps L A (listHistory r) := by
  intro w hw
  rw [spec_listHistory]
  split <;> exact hw

theorem keeps_scheduleWorkflowTask (r : RunRef) : Keeps L A (scheduleWorkflowTask r) := by
  intro w hw
  rw [spec_scheduleWorkflowTask]
  split
  · exact hw
  · split_ifs
    · exact hw
    · split <;> exact hw

theorem close_along (hw : w.window = .settled) (hrow : w.store.get (.wf c) = some row)
    (hopen : row.isOpen = true) (hstatus : status.isTerminal = true)
    (hfits : attrs.closes = some status) (hcloses : L.closes c attrs) :
    CloseAlong L.guard w c row status attrs ∧
      (terminatedWorld w c row status attrs).window = .settled := by
  have hclosable : Closable L (.event status attrs) row := .inl hopen
  have hwindow : (closedWorld w c row status attrs).window =
      .unlisted c (.event status attrs) := by
    simp [closedWorld, closeWrites, Window.next]
  have happend : Along L.guard (closedWorld w c row status attrs).tick
      (appendWrites c (closedRow row status w.time) (closedWorld w c row status attrs).time attrs) ∧
      (terminatedWorld w c row status attrs).window = .settled := by
    refine append_along _ (get_closedWorld c row status attrs) ?_
    rw [World.tick_window, hwindow]
    exact ⟨rfl, rfl⟩
  refine ⟨⟨⟨?_, ?_, ?_, trivial⟩, happend.1⟩, happend.2⟩
  · show Allowed L _ w.window _
    rw [hw]
    exact .note hrow hclosable hstatus hfits hcloses
  · exact .close hrow hclosable hstatus
  · refine .unlist (.of_row (Store.get_put_self _ (.wf c) _) ?_) (.inr ⟨.event status attrs, ?_⟩)
    · simp [WorkflowExecution.isOpen, closedRow, hstatus]
    · simp [Window.next]

theorem keeps_terminalTransition (t : Target) (attrs : EventAttrs)
    (hstatus : status.isTerminal = true) (hfits : attrs.closes = some status)
    (hcloses : ∀ c, t.Names c → L.closes c attrs) :
    Keeps L A (terminalTransition t status attrs) := by
  intro w hw
  rw [spec_terminalTransition]
  split
  · exact hw
  · next c row hres =>
      split_ifs with hterm
      · exact hw
      · obtain ⟨hrow, hnames⟩ := Store.resolve_some hres
        refine close_along hw hrow ?_ hstatus hfits (hcloses c hnames)
        simpa [WorkflowExecution.isOpen] using hterm

/-! ## Starting -/

theorem settled_guard {x : Write} (hw : w.window = .settled) (hx : Allowed L w.store .settled x) :
    L.guard w x := by
  show Allowed L w.store w.window x
  rw [hw]
  exact hx

theorem keeps_registerNamespace (name : String) (n : Namespace) :
    Keeps L A (registerNamespace name n) := by
  refine .ite (fun _ => .throw _) fun _ w hw => ?_
  simp only [Go.spec_bind, Go.spec_now, Go.spec_put]
  exact ⟨settled_guard hw (.register name _), rfl⟩

theorem Store.Known.terminated {ns : String} (h : w.store.Known ns) :
    (terminatedWorld w c row status attrs).store.Known ns := by
  rcases h with ⟨n, hn⟩ | ⟨r, row', hns, hrow⟩
  · refine .inl ⟨n, ?_⟩
    simpa [terminatedWorld, closedWorld, appendWrites, closeWrites, Store.get_put_of_ne,
      Store.get_del_of_ne] using hn
  · rcases eq_or_ne r c with rfl | hne
    · exact .inr ⟨r, _, hns, get_terminatedWorld r row status attrs⟩
    · refine .inr ⟨r, row', hns, ?_⟩
      simpa [terminatedWorld, closedWorld, appendWrites, closeWrites, Store.get_put_of_ne,
        Store.get_del_of_ne, hne] using hrow

theorem Freshness.Holds.put_entry (h : f.Holds s r) : f.Holds (s.put (.wfopen c) ()) r := by
  cases f <;> simp_all [Freshness.Holds, Store.get_put_of_ne]

theorem Freshness.Holds.register {name : String} {n : Namespace} (h : f.Holds s r) :
    f.Holds (s.put (.ns name) n) r := by
  cases f <;> simp_all [Freshness.Holds, Store.get_put_of_ne]

/-- Closing another run leaves a fresh run id fresh. -/
theorem Freshness.Holds.terminated (h : f.Holds w.store r) (hc : w.store.get (.wf c) = some row) :
    f.Holds (terminatedWorld w c row status attrs).store r := by
  have hne : f ≠ .any → r ≠ c := by
    rintro hf rfl
    cases f <;> simp_all [Freshness.Holds]
  cases f with
  | any => trivial
  | rowless =>
    have hrc := hne (by simp)
    simpa [Freshness.Holds, terminatedWorld, closedWorld, appendWrites, closeWrites,
      Store.get_put_of_ne, Store.get_del_of_ne, hrc] using h
  | unused =>
    have hrc := hne (by simp)
    simpa [Freshness.Holds, terminatedWorld, closedWorld, appendWrites, closeWrites,
      Store.get_put_of_ne, Store.get_del_of_ne, hrc] using h

theorem keeps_recordRequest (ns wf req run : String) :
    Keeps L A (recordRequest ns wf req run) := by
  refine .ite (fun _ => .pure _) fun _ w hw => ?_
  simp only [Go.spec_bind, Go.spec_attempt, Go.spec_put, Go.spec_pure]
  exact ⟨settled_guard hw (.request ns wf req run), rfl⟩

theorem createRun_spec {a : StartRequest} {wf run : String} (hw : w.window = .settled)
    (hknown : w.store.Known a.ns) (hfresh : L.fresh.Holds w.store ⟨a.ns, wf, run⟩) (hwf : wf ≠ "")
    (htype : a.type ≠ "") :
    (createRun a wf run).spec A L.guard (fun _ w' => w'.window = .settled) w := by
  simp only [createRun, openRun, Go.spec_bind, Go.spec_now, Go.spec_put]
  refine ⟨settled_guard hw (.enlist hknown), ?_, ?_⟩
  · refine settled_guard rfl (.create ?_ rfl rfl ?_ (.inl ⟨hwf, htype⟩))
    · simp
    · simpa using hfresh.put_entry
  · -- nothing that follows depends on what was just written
    refine Go.spec_mono ?_ _ (keeps_recordRequest _ _ _ _ _ rfl)
    rintro (e | _) w' hw'
    · exact hw'
    refine Go.spec_mono ?_ _ (keeps_appendHistory _ rfl w' hw')
    rintro (e | _) w'' hw''
    · exact hw''
    simp only [Go.spec_attempt, spec_describeWorkflow]
    refine Go.spec_mono ?_ _ (keeps_scheduleWorkflowTask _ w'' hw'')
    rintro (e | _) w₃ hw₃
    · exact hw₃
    cases w''.store.resolve (RunRef.target ⟨a.ns, wf, run⟩) <;> exact hw₃

/-- The run id a start names, if it names one, is as fresh as the licence
asks. -/
def StartRequest.Reserved (L : Licence) (s : Store) (a : StartRequest) : Prop :=
  ∀ run, a.runId = some run → ∀ wf, StartRequest.Takes a wf → L.fresh.Holds s ⟨a.ns, wf, run⟩

section Start

variable (hdraws : L.Draws A) {a : StartRequest}
include hdraws

theorem startWorkflowFull_spec (hw : w.window = .settled)
    (hres : StartRequest.Reserved L w.store a)
    (hcloses : ∀ c, StartRequest.Supersedes a c → L.closes c superseded) :
    (startWorkflowFull a).spec A L.guard (fun _ w' => w'.window = .settled) w := by
  refine startWorkflowFull_rule (K := fun w => w.window = .settled ∧ w.store.Known a.ns ∧
    StartRequest.Reserved L w.store a) (fun _ => hw) ?_ (fun _ h => h.1) (fun h _ => h) ?_ ?_
  · unfold useWrites World.inUse
    split_ifs with hget
    · obtain ⟨n, hn⟩ := Option.isSome_iff_exists.mp hget
      exact ⟨trivial, hw, .inl ⟨n, hn⟩, hres⟩
    · exact ⟨⟨settled_guard hw (.register a.ns _), trivial⟩, rfl,
        .inl ⟨firstUse w.time, by simp⟩, fun run hrun wf hwf => (hres run hrun wf hwf).register⟩
  · rintro w' c row ⟨hw', hknown, hres'⟩ hrow hopen hsupersedes
    have hclose : CloseAlong L.guard w' c row .terminated superseded ∧
        (terminatedWorld w' c row .terminated superseded).window = .settled :=
      close_along hw' hrow hopen rfl rfl (hcloses c hsupersedes)
    exact ⟨hclose.1, hclose.2, hknown.terminated,
      fun run hrun wf hwf => (hres' run hrun wf hwf).terminated hrow⟩
  · rintro w' wf ⟨hw', hknown, hres'⟩ htype hne hwf
    exact ⟨fun run hrun => createRun_spec hw' hknown (hres' run hrun wf hwf) hne htype,
      fun hA => createRun_spec hw' hknown (hdraws w' hA a.ns wf).2 hne htype⟩

end Start

/-! ## Cancelling, signalling and metadata -/

theorem keeps_cancelWorkflowWithReason {t : Target}
    (hcloses : ∀ c, t.Names c → L.closes c (.workflowCanceled reason identity)) :
    Keeps L A (cancelWorkflowWithReason t reason identity) := by
  intro w hw
  simp only [cancelWorkflowWithReason, Go.spec_bind, Go.spec_attempt, spec_describeWorkflow]
  cases hres : w.store.resolve t with
  | none => exact hw
  | some p =>
    obtain ⟨c, row⟩ := p
    obtain ⟨hrow, hnames⟩ := Store.resolve_some hres
    dsimp only
    split_ifs with hterm hcanceling
    · exact hw
    · simp only [Go.spec_bind, Go.spec_pushCancelRequest]
      exact hw
    · have hopen : row.isOpen = true := by simpa [WorkflowExecution.isOpen] using hterm
      simp only [Go.spec_bind, spec_appendHistory, hres, Go.spec_attempt, spec_describeWorkflow]
      have hadm : w.tick.window.Admits c (.cancelRequested reason identity) := by
        simp [hw, Window.Admits, EventAttrs.closes]
      obtain ⟨halong, hw'⟩ := append_along (L := L) (w := w.tick) w.time hrow hadm
      refine ⟨halong, ?_⟩
      have hrow' : (w.tick.writes
          (appendWrites c row w.time (.cancelRequested reason identity))).store.get (.wf c) =
          some { row with historyLen := row.historyLen + 1 } := by
        simp [appendWrites]
      generalize w.tick.writes (appendWrites c row w.time (.cancelRequested reason identity)) = w'
        at hw' hrow' ⊢
      cases hres' : w'.store.resolve t with
      | none => exact hw'
      | some p =>
        obtain ⟨c', row'⟩ := p
        have hopen' : row'.isOpen = true := Store.resolve_open hrow' hopen hnames hres'
        simp only [Go.spec_bind, Go.spec_hasSubscribers]
        split_ifs
        · simp only [Go.spec_bind, Go.spec_put, Go.spec_mark, Go.spec_pushCancelRequest,
            Go.spec_pure]
          refine ⟨settled_guard hw' ?_, ?_⟩
          · exact .update (Store.resolve_some hres').1 rfl rfl rfl (.inr ⟨hopen', rfl⟩)
          · simp [Window.next, hw']
        · exact keeps_terminalTransition t _ rfl rfl hcloses w' hw'

theorem Target.Names.closes (h : L.closes r attrs) : ∀ c, r.target.Names c → L.closes c attrs := by
  intro c hc
  rwa [hc.eq]

theorem keeps_ackCanceled (hcloses : L.closes r (.workflowCanceled reason identity)) :
    Keeps L A (ackCanceled r reason identity) := by
  refine .bind (fun w hw => Go.spec_clear.mpr hw) fun _ => ?_
  exact keeps_terminalTransition _ _ rfl rfl (Target.Names.closes hcloses)

theorem keeps_sweepCanceling {expired : List RunRef}
    (hcloses : ∀ r ∈ expired, L.closes r (.workflowCanceled "sweep:cancel-timeout" "engine")) :
    Keeps L A (sweepCanceling expired) :=
  .forM fun r hr => (keeps_ackCanceled (hcloses r hr)).attempt.bind fun _ => .pure ()

theorem keeps_signalWorkflow (t : Target) (name : String) (payload : Json) (identity : String) :
    Keeps L A (signalWorkflow t name payload identity) := by
  refine (keeps_describeWorkflow t).attempt.bind ?_
  rintro (e | _ | ⟨c, row⟩)
  · exact .throw _
  · exact .throw _
  · refine .ite (fun _ => .throw _) fun _ => .withRun ?_
    refine (keeps_appendHistory _ rfl).bind fun _ => (keeps_describeWorkflow _).attempt.bind ?_
    rintro (e | _ | p)
    · exact .throw _
    · exact .throw _
    · exact keeps_scheduleWorkflowTask c

theorem keeps_updateWorkflowMetadata (t : Target) (m : WorkflowUserMetadata) :
    Keeps L A (updateWorkflowMetadata t m) := by
  intro w hw
  simp only [updateWorkflowMetadata, Go.spec_bind, Go.spec_attempt, spec_describeWorkflow]
  cases hres : w.store.resolve t with
  | none => exact hw
  | some p =>
    obtain ⟨c, row⟩ := p
    simp only [Go.spec_bind, Go.spec_now, Go.spec_put, Go.spec_pure]
    refine ⟨settled_guard hw ?_, ?_⟩
    · exact .update (Store.resolve_some hres).1 rfl rfl rfl (.inl rfl)
    · simp [Window.next, hw]

section Start

variable (hdraws : L.Draws A) {a : StartRequest}
include hdraws

theorem startThenSignal_spec (name : String) (payload : Json) (hw : w.window = .settled)
    (hres : StartRequest.Reserved L w.store a) :
    (startThenSignal a name payload).spec A L.guard (fun _ w' => w'.window = .settled) w := by
  unfold startThenSignal
  rw [Go.spec_bind]
  refine Go.spec_mono ?_ _ (startWorkflowFull_spec hdraws hw hres fun c hc => by cases hc.1)
  rintro (e | ⟨c, row⟩) w' hw'
  · exact hw'
  · refine Keeps.bind (keeps_signalWorkflow _ _ _ _) (fun _ => ?_) w' hw'
    refine (keeps_describeWorkflow _).attempt.bind ?_
    rintro (e | found)
    · exact .pure _
    · exact .pure _

theorem signalWithStartFull_spec (name : String) (payload : Json) (hw : w.window = .settled)
    (hres : StartRequest.Reserved L w.store a) :
    (signalWithStartFull a name payload).spec A L.guard
      (fun _ w' => w'.window = .settled) w := by
  simp only [signalWithStartFull, Go.spec_bind, Go.spec_attempt, spec_describeWorkflow]
  cases w.store.resolve ⟨a.ns, a.workflowId, none⟩ with
  | none => exact startThenSignal_spec hdraws name payload hw hres
  | some p =>
    obtain ⟨c, row⟩ := p
    dsimp only
    split_ifs
    · exact startThenSignal_spec hdraws name payload hw hres
    · exact Keeps.bind (keeps_signalWorkflow _ _ _ _) (fun _ => .pure _) w hw

end Start

/-! ## Reset -/

/-- Events are stored under their ids, and the first id is 1. -/
def Store.Keyed (s : Store) : Prop :=
  ∀ r id ev, s.get (.wfh r id) = some ev → ev.eventId = id ∧ 1 ≤ id

theorem ascending_decoded (hkeyed : s.Keyed) {l : List (Nat × HistoryEvent)}
    (hdec : decodeEvents (s.events r) = some l) :
    (0 :: (l.map Prod.snd).map HistoryEvent.eventId).Pairwise (· < ·) := by
  have hkeys : ∀ p ∈ s.events r, p.2.eventId = p.1 ∧ 0 < p.1 := fun p hp =>
    hkeyed r p.1 p.2 (Store.mem_events.mp hp)
  have hids : (l.map Prod.snd).map HistoryEvent.eventId = (s.events r).map Prod.fst := by
    rw [← map_fst_decodeEvents hdec, List.map_map]
    exact List.map_congr_left (numbered_decodeEvents hdec fun p hp => (hkeys p hp).1)
  rw [hids, List.pairwise_cons, List.pairwise_map]
  refine ⟨fun id hid => ?_, s.ascending_events r⟩
  obtain ⟨p, hp, rfl⟩ := List.mem_map.mp hid
  exact (hkeys p hp).2

/-- `l` is read from the history of another run of the workflow of `r`. -/
def Store.ReadFrom (s : Store) (src r : RunRef) (l : List HistoryEvent) : Prop :=
  src ≠ r ∧ src.ns = r.ns ∧ src.wf = r.wf ∧
    ∀ ev ∈ l, ∃ id ev', s.get (.wfh src id) = some ev' ∧ ev'.throughAny = some ev

/-- The window while events are being copied to `r`: all written so far have
ids up to `n`. -/
def Window.Copying (r : RunRef) (n : Nat) (win : Window) : Prop :=
  win = .settled ∨ ∃ id attrs, win = .event r id attrs ∧ id ≤ n

theorem copyEvents_spec {n m : Nat} {src : RunRef} {l : List HistoryEvent}
    {Q : Post Unit World} (hread : w.store.ReadFrom src r l) (hrow : w.store.get (.wf r) = some row)
    (hopen : row.isOpen = true) (hlen : row.historyLen ≤ m) (hmn : m ≤ n)
    (hbare : L.fresh = .unused → ∀ seq, w.store.get (.wfact r seq) = none) 
    (hasc : (m :: l.map HistoryEvent.eventId).Pairwise (· < ·))
    (hwin : w.window.Copying r m)
    (hQ : ∀ w' : World, w'.window.Copying r n → (∀ c, w'.store.get (.wf c) = w.store.get (.wf c)) →
      Q (.ok ()) w') :
    (copyEvents r n l).spec A L.guard Q w := by
  induction l generalizing w m with
  | nil =>
    refine hQ w ?_ fun _ => rfl
    rcases hwin with h | ⟨id, attrs, h, hid⟩
    · exact .inl h
    · exact .inr ⟨id, attrs, h, hid.trans hmn⟩
  | cons ev l ih =>
    unfold copyEvents
    split_ifs with hcut
    · refine hQ w ?_ fun _ => rfl
      rcases hwin with h | ⟨id, attrs, h, hid⟩
      · exact .inl h
      · exact .inr ⟨id, attrs, h, hid.trans hmn⟩
    · have hid : ev.eventId ≤ n := Nat.le_of_not_lt hcut
      simp only [Go.spec_bind, Go.spec_put]
      have hlt : m < ev.eventId := List.rel_of_pairwise_cons hasc List.mem_cons_self
      have hbeyond : row.historyLen < ev.eventId := lt_of_le_of_lt hlen hlt
      obtain ⟨hne, hns, hwf, hfrom⟩ := hread
      obtain ⟨id, ev', hev', hdec⟩ := hfrom ev List.mem_cons_self
      refine ⟨.copy hrow hopen hbeyond hbare ?_ rfl ⟨src, id, ev', hns, hwf, hev', hdec⟩,
        ih (m := ev.eventId) ⟨hne, hns, hwf, ?_⟩ ?_ hbeyond.le hid ?_ hasc.of_cons ?_ ?_⟩
      · rcases hwin with h | ⟨id', attrs, h, hid'⟩
        · exact .inl h
        · exact .inr ⟨id', attrs, h, lt_of_le_of_lt hid' hlt⟩
      · intro ev'' hmem
        obtain ⟨id'', hget⟩ := hfrom ev'' (List.mem_cons_of_mem _ hmem)
        exact ⟨id'', by simpa [Store.get_put_of_ne, hne] using hget⟩
      · simpa [Store.get_put_of_ne] using hrow
      · simpa [Store.get_put_of_ne] using hbare
      · exact .inr ⟨ev.eventId, ev.attrs, rfl, le_rfl⟩
      · intro w' hw' hsame
        refine hQ w' hw' fun c => ?_
        rw [hsame c]
        simp [Store.get_put_of_ne]

/-- Forking a run writes to a fresh run only. -/
theorem forkRun_spec (hdraws : L.Draws A) {src : RunRef} {l : List HistoryEvent} {n : Nat}
    {Q : Post RunRef World} (hw : w.window = .settled) (hsrc : w.store.get (.wf src) = some row)
    (hasc : (0 :: l.map HistoryEvent.eventId).Pairwise (· < ·))
    (hfrom : ∀ ev ∈ l, ∃ id ev', w.store.get (.wfh src id) = some ev' ∧ ev'.throughAny = some ev)
    (hQ : ∀ res (w' : World), w'.window = .settled →
      (∀ c row, w.store.get (.wf c) = some row → w'.store.get (.wf c) = some row) → Q res w') :
    (forkRun src row l n reason identity).spec A L.guard Q w := by
  simp only [forkRun, openRun, Go.spec_bind, Go.spec_newRunId, Go.spec_now, Go.spec_put]
  intro hA
  obtain ⟨hnone, hfresh⟩ := hdraws w hA src.ns src.wf
  set r : RunRef := ⟨src.ns, src.wf, w.nextId⟩ with hr
  set fork := forkRow src row n reason identity w.mint.time with hfork
  have hother : ∀ c row, w.store.get (.wf c) = some row → c ≠ r := by
    rintro c row hrow rfl
    simp [hnone] at hrow
  refine ⟨settled_guard hw (.enlist (.inr ⟨src, row, rfl, hsrc⟩)),
    settled_guard rfl (.create ?_ rfl rfl ?_ (.inr ⟨src, row, ?_, rfl, rfl⟩)), ?_⟩
  · simp
  · simpa using hfresh.put_entry
  · simpa [Store.get_put_of_ne] using hsrc
  have hstored : (((w.mint.tick.write (.put (.wfopen r) ())).write
      (.put (.wf r) fork)).store.get (.wf r)) = some fork := by simp
  have hbare : L.fresh = .unused → ∀ seq, ((w.mint.tick.write (.put (.wfopen r) ())).write
      (.put (.wf r) fork)).store.get (.wfact r seq) = none := by
    intro hunused seq
    rw [hunused] at hfresh
    simpa [Store.get_put_of_ne] using hfresh.2.2 seq
  have hread : ((w.mint.tick.write (.put (.wfopen r) ())).write (.put (.wf r) fork)).store.ReadFrom
      src r l := by
    refine ⟨hother src row hsrc, rfl, rfl, fun ev hev => ?_⟩
    obtain ⟨id, hget⟩ := hfrom ev hev
    exact ⟨id, by simpa [Store.get_put_of_ne] using hget⟩
  refine copyEvents_spec hread hstored rfl le_rfl (Nat.zero_le n) hbare hasc (.inl rfl) ?_
  intro w₁ hcopying hsame
  -- the row that counts the copied events
  have hstored₁ : w₁.store.get (.wf r) = some fork := (hsame r).trans hstored
  refine ⟨.count hstored₁ (Nat.zero_le n) hcopying, ?_⟩
  have hw₂ : (w₁.write (.put (.wf r) { fork with historyLen := n })).window = .settled := by
    rcases hcopying with h | ⟨id, attrs, h, -⟩ <;> simp [Window.next, h]
  have hkept : ∀ c row, w.store.get (.wf c) = some row →
      (w₁.write (.put (.wf r) { fork with historyLen := n })).store.get (.wf c) = some row := by
    intro c row hrow
    have hne := hother c row hrow
    simp [Store.get_put_of_ne, hne, hsame, hrow]
  have hrow₂ : (w₁.write (.put (.wf r) { fork with historyLen := n })).store.get (.wf r) =
      some { fork with historyLen := n } := by simp
  generalize w₁.write (.put (.wf r) { fork with historyLen := n }) = w₂ at hw₂ hkept hrow₂ ⊢
  simp only [spec_appendHistory, Store.resolve_coe, hrow₂, Option.map_some, Go.spec_pure]
  have hadm : w₂.tick.window.Admits r (.reset src.run n reason identity) := by
    simp [hw₂, Window.Admits, EventAttrs.closes]
  obtain ⟨halong, hw₃⟩ := append_along (L := L) (w := w₂.tick) w₂.time hrow₂ hadm
  refine ⟨halong, hQ _ _ hw₃ fun c row hrow => ?_⟩
  have hne := hother c row hrow
  simp [appendWrites, Store.get_put_of_ne, hne, hkept c row hrow]

theorem resetWorkflow_spec (hdraws : L.Draws A) {t : Target} {eventID : Int}
    (hw : w.window = .settled) (hkeyed : w.store.Keyed)
    (hopen : L.reclose ∨ ∀ c row, w.store.resolve t = some (c, row) → row.isOpen = true) :
    (resetWorkflow t eventID reason identity).spec A L.guard
      (fun _ w' => w'.window = .settled) w := by
  simp only [resetWorkflow, Go.spec_bind, Go.spec_attempt, spec_describeWorkflow]
  cases hres : w.store.resolve t with
  | none => exact hw
  | some p =>
    obtain ⟨src, row⟩ := p
    have hrow := (Store.resolve_some hres).1
    dsimp only
    split_ifs
    · exact hw
    simp only [Go.spec_bind, spec_listHistory]
    cases hdec : decodeEvents (w.store.events src) with
    | none => exact hw
    | some all =>
      dsimp only
      refine forkRun_spec hdraws hw hrow (ascending_decoded hkeyed hdec) (fun ev hev => ?_) ?_
      · obtain ⟨q, hq, rfl⟩ := List.mem_map.mp hev
        obtain ⟨p, hp, -, hread⟩ := mem_decodeEvents hdec hq
        exact ⟨p.1, p.2, Store.mem_events.mp hp, hread⟩
      rintro (e | fork) w₁ hw₁ hkept
      · exact hw₁
      have hrow₁ := hkept src row hrow
      have hclosable : Closable L .reset row := by
        rcases hopen with h | h
        · exact .inr ⟨rfl, h⟩
        · exact .inl (h src row hres)
      simp only [Go.spec_now, Go.spec_write, Go.spec_attempt, spec_closeRun,
        along_cons, along_nil, World.writes_cons, World.writes_nil]
      refine ⟨settled_guard hw₁ (.note hrow₁ hclosable rfl trivial trivial),
        ⟨.close hrow₁ hclosable rfl, .unlist (.of_row (Store.get_put_self _ (.wf src) _) rfl)
          (.inr ⟨.reset, ?_⟩), trivial⟩, ?_⟩
      · simp [Window.next]
      · refine Go.spec_mono ?_ _ (keeps_scheduleWorkflowTask fork _ (by simp [Window.next]))
        rintro (e | _) w₂ hw₂
        · exact hw₂
        simp only [spec_describeWorkflow]
        cases w₂.store.resolve fork.target <;> exact hw₂

end DurableTasks
