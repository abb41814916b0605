import DurableTasks.Engine.Specs

/-!
The write discipline: which writes an operation can make on a given store, and
in which order. Everything a crash can expose is a prefix of such a sequence, so
an invariant of the store has to be checked against these few cases only, and
not against every function of the engine.
-/

namespace DurableTasks

open Effects Engine

inductive Freshness where
  /-- Anything. -/
  | any
  /-- No row. -/
  | rowless
  /-- Nothing but an index entry. -/
  | unused

/-- What the run about to be created is known to have stored. -/
def Freshness.Holds (s : Store) (r : RunRef) : Freshness → Prop
  | any => True
  | rowless => s.get (.wf r) = none
  | unused => s.get (.wf r) = none ∧ (∀ id, s.get (.wfh r id) = none) ∧
      ∀ seq, s.get (.wfact r seq) = none

/-- What the operations of a run are licensed to do: start over a run id as
`fresh` says, close a run that is closed already, and close a run with a terminal
event. -/
structure Licence where
  fresh : Freshness
  reclose : Prop
  closes : RunRef → EventAttrs → Prop := fun _ _ => True

/-- Whether a command closes its run for another one to take over. -/
def Command.renews : Command → Bool
  | .continueAsNew _ _ _ => true
  | _ => false

/-- An id that `newRunId` draws from `w` on. -/
def World.Draws (w : World) (run : String) : Prop := ∃ n, w.minted ≤ n ∧ run = w.ids n

/-- The terminal event a command closes its run with, where ids drawn have `D`. -/
def Command.Closes (D : String → Prop) (attrs : EventAttrs) : Command → Prop
  | .complete result => attrs = .workflowCompleted result.text
  | .fail failure => attrs = .workflowFailed failure.text
  | .canceled failure => attrs = .workflowCanceled failure.text ""
  | .continueAsNew _ _ _ => ∃ run, D run ∧ attrs = .continuedAsNew run
  | _ => False

def Licence.Closing (L : Licence) (r : RunRef) : Closing → Prop
  | .event _ attrs => L.closes r attrs
  | .reset => True

/-- The event that records the outcome of a terminal activity record. -/
def WorkflowActivity.outcome (a : WorkflowActivity) (seq : Int) : EventAttrs :=
  match a.status with
  | .completed => .activityCompleted seq a.activityID a.result.value
  | _ => .activityFailed seq a.activityID a.failure.value

/-- The status a terminal event of a run says it ended with. -/
def EventAttrs.closes : EventAttrs → Option WorkflowStatus
  | .workflowCompleted _ => some .completed
  | .workflowFailed _ => some .failed
  | .workflowCanceled _ _ => some .canceled
  | .workflowTerminated _ _ => some .terminated
  | .continuedAsNew _ => some .continuedAsNew
  | _ => none

def Closing.Fits : Closing → Prop
  | .event status attrs => attrs.closes = some status
  | .reset => True

/-- The windows in which an event may be appended to `r`: none is open and the
event does not say how a run ended, or the one open calls for exactly this event. -/
def Window.Admits (r : RunRef) (attrs : EventAttrs) : Window → Prop
  | .settled => attrs.closes = none
  | .unlisted r' (.event _ attrs') => r' = r ∧ attrs' = attrs
  | .outcome r' seq a => r' = r ∧ a.outcome seq = attrs
  | _ => False

/-- The windows in which keys of `r` may be deleted for good. -/
def Window.Purges (r : RunRef) (win : Window) : Prop := win = .settled ∨ win = .purging r

def Store.NotOpen (s : Store) (r : RunRef) : Prop :=
  ∀ row, s.get (.wf r) = some row → row.isOpen = false

theorem Store.NotOpen.of_row {s : Store} {r : RunRef} {row : WorkflowExecution}
    (hrow : s.get (.wf r) = some row) (hshut : row.isOpen = false) : s.NotOpen r := by
  intro row' hrow'
  obtain rfl := Option.some.inj (hrow.symm.trans hrow')
  exact hshut

/-- A namespace that is registered, or holds a run. -/
def Store.Known (s : Store) (ns : String) : Prop :=
  (∃ n, s.get (.ns ns) = some n) ∨ ∃ r row, r.ns = ns ∧ s.get (.wf r) = some row

/-- What a start makes sure of: the run has a workflow id and its row a type. -/
def Named (r : RunRef) (row : WorkflowExecution) : Prop := r.wf ≠ "" ∧ row.type ≠ ""

/-- Whether the run may be closed, or closed again. -/
def Closable (L : Licence) (c : Closing) (row : WorkflowExecution) : Prop :=
  row.isOpen = true ∨ c = .reset ∧ L.reclose

/-- The attempts of a record are within its retry policy. -/
def WorkflowActivity.Patient (a : WorkflowActivity) : Prop :=
  1 ≤ a.attempt ∧ a.attempt ≤ (Temporal.effectiveRetryPolicy a.retryPolicy).maximumAttempts

/-- `a` stands for the same attempt as `b`, under the same policy. -/
def WorkflowActivity.Follows (a b : WorkflowActivity) : Prop :=
  a.attempt = b.attempt ∧ a.retryPolicy = b.retryPolicy

theorem WorkflowActivity.Patient.follows {a b : WorkflowActivity} (hb : b.Patient)
    (h : a.Follows b) : a.Patient := by
  rw [Patient, h.1, h.2]
  exact hb

/-- The event as a reader of another run of the workflow sees it. -/
def Store.Copied (s : Store) (r : RunRef) (ev : HistoryEvent) : Prop :=
  ∃ src id ev', src.ns = r.ns ∧ src.wf = r.wf ∧ s.get (.wfh src id) = some ev' ∧
    ev'.throughAny = some ev

/-- `Allowed L s win x`: with `s` stored and `win` unfinished, the next write
can be `x`. -/
inductive Allowed (L : Licence) (s : Store) : Window → Write → Prop
  | register (name : String) (n : Namespace) : Allowed L s .settled (.put (.ns name) n)
  | request (ns wf req run : String) : Allowed L s .settled (.put (.idem ns wf req) run)
  | enlist {r : RunRef} (known : s.Known r.ns) : Allowed L s .settled (.put (.wfopen r) ())
  | index {ns : String} (t : Nat)
      (all : ∀ r row, r.ns = ns → s.get (.wf r) = some row → row.isOpen = true →
        s.get (.wfopen r) = some ()) :
      Allowed L s .settled (.put (.wfidx ns) t)
  | create {r : RunRef} {row : WorkflowExecution} (entry : s.get (.wfopen r) = some ())
      (running : row.status = .running) (unwritten : row.historyLen = 0)
      (fresh : L.fresh.Holds s r)
      (named : Named r row ∨
        ∃ c row', s.get (.wf c) = some row' ∧ c.wf = r.wf ∧ row'.type = row.type) :
      Allowed L s .settled (.put (.wf r) row)
  | update {r : RunRef} {row row' : WorkflowExecution} (stored : s.get (.wf r) = some row)
      (type : row'.type = row.type)
      (len : row'.historyLen = row.historyLen) (time : row'.closeTime = row.closeTime)
      (status : row'.status = row.status ∨ row.isOpen = true ∧ row'.status = .canceling) :
      Allowed L s .settled (.put (.wf r) row')
  | record {r : RunRef} {seq : Int} {a : WorkflowActivity}
      (storable : a.storable = true)
      (pending : ∀ b, s.get (.wfact r seq) = some b → b.isTerminal = false)
      (running : a.isTerminal = true → ∀ row, s.get (.wf r) = some row → row.isOpen = true)
      (patient : a.Patient ∨ ∃ b, s.get (.wfact r seq) = some b ∧ a.Follows b) :
      Allowed L s .settled (.put (.wfact r seq) a)
  | append {win : Window} {r : RunRef} {row : WorkflowExecution} {ev : HistoryEvent}
      (stored : s.get (.wf r) = some row) (admits : win.Admits r ev.attrs)
      (numbered : ev.eventId = row.historyLen + 1) :
      Allowed L s win (.put (.wfh r (row.historyLen + 1)) ev)
  | copy {win : Window} {r : RunRef} {row : WorkflowExecution} {id : Nat} {ev : HistoryEvent}
      (stored : s.get (.wf r) = some row) (running : row.isOpen = true)
      (beyond : row.historyLen < id)
      (recordless : L.fresh = .unused → ∀ seq, s.get (.wfact r seq) = none)
      (following : win = .settled ∨ ∃ id' attrs, win = .event r id' attrs ∧ id' < id)
      (numbered : ev.eventId = id) (copied : s.Copied r ev) :
      Allowed L s win (.put (.wfh r id) ev)
  | count {win : Window} {r : RunRef} {row : WorkflowExecution} {n : Nat}
      (stored : s.get (.wf r) = some row) (more : row.historyLen ≤ n)
      (following : win = .settled ∨ ∃ id attrs, win = .event r id attrs ∧ id ≤ n) :
      Allowed L s win (.put (.wf r) { row with historyLen := n })
  | note {r : RunRef} {row : WorkflowExecution} {c : Closing}
      (stored : s.get (.wf r) = some row) (closable : Closable L c row)
      (terminal : c.status.isTerminal = true) (fits : c.Fits)
      (licensed : L.Closing r c) : Allowed L s .settled (.close r c)
  | close {r : RunRef} {row : WorkflowExecution} {c : Closing} {t : Nat}
      (stored : s.get (.wf r) = some row) (closable : Closable L c row)
      (terminal : c.status.isTerminal = true) :
      Allowed L s (.closing r c) (.put (.wf r) (closedRow row c.status t))
  | unlist {win : Window} {r : RunRef} (shut : s.NotOpen r)
      (following : win.Purges r ∨ ∃ c, win = .closed r c) :
      Allowed L s win (.del (.wfopen r))
  | purgeEvent {win : Window} {r : RunRef} {row : WorkflowExecution} (id : Nat)
      (following : win.Purges r) (stored : s.get (.wf r) = some row)
      (shut : row.isOpen = false) : Allowed L s win (.del (.wfh r id))
  | purgeRecord {win : Window} {r : RunRef} {row : WorkflowExecution} (seq : Int)
      (following : win.Purges r) (stored : s.get (.wf r) = some row)
      (shut : row.isOpen = false) : Allowed L s win (.del (.wfact r seq))
  | purgeRequest {win : Window} {r : RunRef} (ns wf req : String)
      (following : win.Purges r) : Allowed L s win (.del (.idem ns wf req))
  | purgeTrigger {win : Window} {r : RunRef} (ns sid req : String)
      (following : win.Purges r) : Allowed L s win (.del (.sctrig ns sid req))
  | purgeRow {win : Window} {r : RunRef} (following : win.Purges r) (shut : s.NotOpen r)
      (noEvents : ∀ id, s.get (.wfh r id) = none)
      (noRecords : ∀ seq, s.get (.wfact r seq) = none) : Allowed L s win (.del (.wf r))

def Licence.guard (L : Licence) (w : World) (x : Write) : Prop := Allowed L w.store w.window x

/-! ## Runs apart -/

@[simp] def Write.run : Write → Option RunRef
  | .put k _ | .del k => k.run
  | .close r _ => some r

@[simp] def Window.run : Window → Option RunRef
  | .settled => none
  | .event r _ _ | .closing r _ | .closed r _ | .unlisted r _ | .outcome r _ _ | .purging r =>
    some r

theorem Store.get_elsewhere {s : Store} {x : Write} {r : RunRef} {k : Key} (hx : x.run ≠ some r)
    (hk : k.run = some r) : (s.apply x).get k = s.get k := by
  refine s.get_apply_of_ne fun hkey => hx ?_
  cases x <;> simp_all

/-- With a group of writes of `r` unfinished, a write that is not about `r` can
only belong to its purge. -/
theorem Allowed.elsewhere {L : Licence} {s : Store} {win : Window} {x : Write} {r : RunRef}
    (hx : Allowed L s win x) (hr : x.run ≠ some r) :
    win.run ≠ some r ∨ win = .purging r ∧ win.next x = win := by
  cases hx with
  | append stored admits numbered =>
    cases win with
    | unlisted r' c => cases c <;> simp_all [Window.Admits]
    | _ => simp_all [Window.Admits]
  | copy _ _ _ _ following | count _ _ following =>
    rcases following with rfl | ⟨_, _, rfl, -⟩ <;> simp_all
  | unlist shut following => rcases following with (rfl | rfl) | ⟨c, rfl⟩ <;> simp_all
  | purgeEvent _ following | purgeRecord _ following | purgeRow following =>
    rcases following with rfl | rfl <;> simp_all
  | purgeRequest _ _ _ following | purgeTrigger _ _ _ following =>
    rcases following with rfl | rfl <;> simp [Window.next, em']
  | _ => simp_all

/-- An operation ends with nothing half written, except that the outcome of an
activity whose run is gone has no history to go to. -/
def World.AtRest (w : World) : Prop :=
  w.window = .settled ∨
    ∃ r seq a, w.window = .outcome r seq a ∧ w.store.get (.wf r) = none

end DurableTasks
