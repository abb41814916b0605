import DurableTasks.Engine.Recovery
import Mathlib.Logic.Function.Basic

/-!
The engine one level up. A ledger is what runs, their histories, their
activities and the work handed out come to, without the keys, indexes and
clocks they are kept with; a move is one transaction on it. Every operation
that is not cut short is a sequence of moves, so a property of whole operations
is proved against the moves alone.
-/

namespace DurableTasks

open Effects Engine

variable {evs : List (Nat × HistoryEvent)}

/-- What is kept of all runs. `tasks` are the workflow tasks ever handed out:
an answer to one of them may come at any time. -/
structure Ledger where
  row : RunRef → Option WorkflowExecution
  event : RunRef → Nat → Option HistoryEvent
  act : RunRef → Int → Option WorkflowActivity
  tasks : List WorkflowTask
  tokens : List (Nat × ActivityTask)
  nextToken : Nat
  timers : List (RunRef × Int)

variable {L : Ledger} {r : RunRef} {l l' : List (Nat × HistoryEvent)}

namespace Ledger

def setRow (L : Ledger) (r : RunRef) (row : WorkflowExecution) : Ledger :=
  { L with row := Function.update L.row r (some row) }

def setEvent (L : Ledger) (r : RunRef) (id : Nat) (ev : HistoryEvent) : Ledger :=
  { L with event := Function.update L.event r (Function.update (L.event r) id (some ev)) }

def setAct (L : Ledger) (r : RunRef) (seq : Int) (a : WorkflowActivity) : Ledger :=
  { L with act := Function.update L.act r (Function.update (L.act r) seq (some a)) }

/-- The next event of `r`, whose row is `row`, and the row that counts it. -/
def appendTo (L : Ledger) (r : RunRef) (row : WorkflowExecution) (t : Nat) (attrs : EventAttrs) :
    Ledger :=
  (L.setEvent r (row.historyLen + 1) (nextEvent row t attrs)).setRow r
    { row with historyLen := row.historyLen + 1 }

/-- The events of `evs` up to `n` are stored for `r` as well. -/
def copyTo (L : Ledger) (r : RunRef) (n : Nat) (evs : List (Nat × HistoryEvent)) : Ledger :=
  { L with event := Function.update L.event r fun id =>
      (if id ≤ n then evs.lookup id else none).or (L.event r id) }

def handOut (L : Ledger) (t : ActivityTask) : Ledger :=
  { L with tokens := (L.nextToken, t) :: L.tokens, nextToken := L.nextToken + 1 }

def without (L : Ledger) (token : Nat) : Ledger :=
  { L with tokens := L.tokens.filter fun p => p.1 ≠ token }

def enqueue (L : Ledger) (t : WorkflowTask) : Ledger :=
  { L with tasks := t :: L.tasks, nextToken := L.nextToken + 1 }

def arm (L : Ledger) (r : RunRef) (seq : Int) : Ledger :=
  { L with timers := (r, seq) :: L.timers }

def disarm (L : Ledger) (r : RunRef) (seq : Int) : Ledger :=
  { L with timers := L.timers.erase (r, seq) }

@[simp] theorem row_appendTo_self {row : WorkflowExecution} {t : Nat} {attrs : EventAttrs} :
    (L.appendTo r row t attrs).row r = some { row with historyLen := row.historyLen + 1 } := by
  simp [appendTo, setRow]

theorem row_appendTo_of_ne {c : RunRef} {row : WorkflowExecution} {t : Nat} {attrs : EventAttrs}
    (h : c ≠ r) : (L.appendTo r row t attrs).row c = L.row c := by
  simp [appendTo, setRow, setEvent, h]

@[simp] theorem setRow_appendTo (L : Ledger) (r : RunRef) (row row' : WorkflowExecution)
    (t : Nat) (attrs : EventAttrs) :
    (L.setRow r row).appendTo r row' t attrs = L.appendTo r row' t attrs := by
  simp [appendTo, setRow, setEvent]

/-- The row that counts an event is written again with another status. -/
theorem appendTo_setRow (L : Ledger) (r : RunRef) (row : WorkflowExecution)
    (status : WorkflowStatus) (t : Nat) (attrs : EventAttrs) :
    (L.appendTo r row t attrs).setRow r
        { row with status := status, historyLen := row.historyLen + 1 } =
      L.appendTo r { row with status := status } t attrs := by
  simp [appendTo, setRow, setEvent, nextEvent]

theorem setRow_copyTo (L : Ledger) (r : RunRef) (row : WorkflowExecution) (n : Nat)
    (evs : List (Nat × HistoryEvent)) :
    (L.setRow r row).copyTo r n evs = (L.copyTo r n evs).setRow r row := rfl

@[simp] theorem copyTo_nil (L : Ledger) (r : RunRef) (n : Nat) : L.copyTo r n [] = L := by
  simp [copyTo]

theorem copyTo_past {n : Nat} (h : ∀ p ∈ evs, n < p.1) : L.copyTo r n evs = L := by
  have hnone : ∀ id, (if id ≤ n then evs.lookup id else none) = none := by
    intro id
    split_ifs with hid
    · refine List.lookup_eq_none_iff.mpr fun p hp => ?_
      have := h p hp
      simp only [bne_iff_ne, ne_eq]
      omega
    · rfl
  simp [copyTo, hnone]

theorem copyTo_cons {n id : Nat} {ev : HistoryEvent} (hid : id ≤ n) (h : ∀ p ∈ evs, id < p.1) :
    (L.setEvent r id ev).copyTo r n evs = L.copyTo r n ((id, ev) :: evs) := by
  have hlookup : evs.lookup id = none := by
    refine List.lookup_eq_none_iff.mpr fun p hp => ?_
    have := h p hp
    simp only [bne_iff_ne, ne_eq]
    omega
  have hevents : (fun j => (if j ≤ n then evs.lookup j else none).or
      (Function.update (L.event r) id (some ev) j)) =
      fun j => (if j ≤ n then ((id, ev) :: evs).lookup j else none).or (L.event r j) := by
    funext j
    by_cases hj : j = id
    · subst hj
      simp [hid, hlookup]
    · have hbeq : (j == id) = false := by simpa using hj
      simp [hj, List.lookup_cons, hbeq]
  simp only [copyTo, setEvent, Function.update_self, Function.update_idem, hevents]

@[simp] theorem setAct_setAct (L : Ledger) (r : RunRef) (seq : Int) (a b : WorkflowActivity) :
    (L.setAct r seq a).setAct r seq b = L.setAct r seq b := by
  simp [setAct]

theorem setEvent_some {r' : RunRef} {id id' : Nat} {ev ev' : HistoryEvent}
    (h : (L.setEvent r id ev).event r' id' = some ev') :
    (r' = r ∧ id' = id ∧ ev' = ev) ∨ L.event r' id' = some ev' := by
  simp only [setEvent, Function.update_apply] at h
  split_ifs at h with hr
  · grind
  · exact .inr h

theorem setAct_some {r' : RunRef} {seq seq' : Int} {a b : WorkflowActivity}
    (h : (L.setAct r seq a).act r' seq' = some b) :
    (r' = r ∧ seq' = seq ∧ b = a) ∨ L.act r' seq' = some b := by
  simp only [setAct, Function.update_apply] at h
  split_ifs at h with hr
  · grind
  · exact .inr h

theorem setAct_appendTo (L : Ledger) (r r' : RunRef) (seq : Int) (a : WorkflowActivity)
    (row : WorkflowExecution) (t : Nat) (attrs : EventAttrs) :
    (L.setAct r seq a).appendTo r' row t attrs = (L.appendTo r' row t attrs).setAct r seq a := rfl

/-- What is known to be kept of a run about to be created. -/
def Fresh (L : Ledger) (r : RunRef) : Freshness → Prop
  | .any => True
  | .rowless => L.row r = none
  | .unused => L.row r = none ∧ (∀ id, L.event r id = none) ∧ ∀ seq, L.act r seq = none

theorem Fresh.row {f : Freshness} (h : L.Fresh r f) (hf : f ≠ .any) : L.row r = none := by
  cases f with
  | any => exact absurd rfl hf
  | rowless => exact h
  | unused => exact h.1

structure Lists (L : Ledger) (r : RunRef) (evs : List (Nat × HistoryEvent)) : Prop where
  mem : ∀ id ev, (id, ev) ∈ evs ↔ L.event r id = some ev
  ascending : evs.Pairwise fun p q => p.1 < q.1

end Ledger

/-! ## Decoded histories -/

theorem pairwise_decodeEvents (h : decodeEvents l = some l')
    (hasc : l.Pairwise fun p q => p.1 < q.1) : l'.Pairwise fun p q => p.1 < q.1 := by
  rw [← List.pairwise_map] at hasc ⊢
  rwa [map_fst_decodeEvents h]

theorem lookup_decodeEvents (h : decodeEvents l = some l') (id : Nat) :
    l'.lookup id = (l.lookup id).bind HistoryEvent.throughAny := by
  replace h := forall₂_decodeEvents h
  induction h with
  | nil => rfl
  | @cons p q l l' hread hrest ih =>
    obtain ⟨k, ev⟩ := p
    obtain ⟨_, ev'⟩ := q
    obtain ⟨rfl, hev⟩ := hread
    simp only [List.lookup_cons, ih]
    split
    · exact hev.symm
    · rfl

theorem isSome_lookup_decodeEvents (h : decodeEvents l = some l') (id : Nat) :
    (l'.lookup id).isSome = (l.lookup id).isSome := by
  have hkeys : ∀ l : List (Nat × HistoryEvent), (l.lookup id).isSome ↔ id ∈ l.map Prod.fst := by
    intro l
    rw [← Option.ne_none_iff_isSome, ne_eq, List.lookup_eq_none_iff]
    simp
  rw [Bool.eq_iff_iff, hkeys, hkeys, map_fst_decodeEvents h]

theorem Ledger.Lists.lookup (h : L.Lists r evs) (id : Nat) : evs.lookup id = L.event r id := by
  cases hev : L.event r id with
  | none => grind [h.mem]
  | some ev =>
    obtain ⟨before, after, rfl⟩ := List.append_of_mem ((h.mem id ev).mpr hev)
    refine List.lookup_eq_some_iff.mpr ⟨before, after, rfl, fun p hp => ?_⟩
    have hlt := (List.pairwise_append.mp h.ascending).2.2 p hp (id, ev) List.mem_cons_self
    simp only [bne_iff_ne, ne_eq]
    exact hlt.ne'

def WorkflowActivity.task (a : WorkflowActivity) (r : RunRef) (seq : Int) : ActivityTask :=
  { ref := r, seq := seq, queue := a.taskQueue, activityID := a.activityID
    activityType := a.activityType, input := a.input
    startToCloseMs := a.startToCloseMs, heartbeatMs := a.heartbeatMs }

/-- The events that are about neither an activity nor the beginning or end of a
run, nor about its cancellation. -/
def EventAttrs.passing : EventAttrs → Bool
  | .signaled _ _ _ | .childStarted _ _ _ => true
  | _ => false

def EventAttrs.IsCancelRequest : EventAttrs → Prop
  | .cancelRequested _ _ => True
  | _ => False

def EventAttrs.IsCanceled : EventAttrs → Prop
  | .workflowCanceled _ _ => True
  | _ => False

instance : DecidablePred EventAttrs.IsCancelRequest := fun attrs =>
  decidable_of_iff (attrs matches .cancelRequested _ _)
    (by cases attrs <;> simp [EventAttrs.IsCancelRequest])

instance : DecidablePred EventAttrs.IsCanceled := fun attrs =>
  decidable_of_iff (attrs matches .workflowCanceled _ _)
    (by cases attrs <;> simp [EventAttrs.IsCanceled])

/-- What callers and workers do: which run ids starts are given, which commands
answer a workflow task, which bytes an activity reports, whether there are
purges and recoveries, and whether a run is cancelled, and forked, only as the
cancel handshake has it. -/
structure Scope where
  fresh : RunRef → Freshness := fun _ => .unused
  command : WorkflowTask → Command → Prop := fun _ _ => True
  payload : Raw → Prop := fun _ => True
  purge : Prop := True
  recover : Prop := True
  handshake : Prop := False
  apart : handshake → ∀ r, fresh r ≠ .any := by simp

/-- A closing event that says a run completed gives the result a worker
answered with. -/
def Scope.Closes (S : Scope) (L : Ledger) (r : RunRef) (attrs : EventAttrs) : Prop :=
  ∀ text, attrs = .workflowCompleted text →
    ∃ t ∈ L.tasks, t.ref = r ∧ ∃ result : Raw, result.text = text ∧ S.command t (.complete result)

/-- A run is closed as cancelled once that was asked for. -/
def Scope.Asked (S : Scope) (row : WorkflowExecution) (attrs : EventAttrs) : Prop :=
  S.handshake → attrs.IsCanceled → row.status = .canceling

/-- The events of `src` that a reset to `n` copies ask for no cancellation. -/
def Scope.Copies (S : Scope) (event : Nat → Option HistoryEvent) (n : Nat) : Prop :=
  S.handshake → ∀ id ev, id ≤ n → event id = some ev → ¬ev.attrs.IsCancelRequest

/-- From `L` to `L'` only records, tokens and timers of `r` changed, and no
token was minted. -/
structure Strays (L : Ledger) (r : RunRef) (L' : Ledger) : Prop where
  row : L'.row = L.row
  event : L'.event = L.event
  tasks : L'.tasks = L.tasks
  next : L'.nextToken = L.nextToken
  act : ∀ c, c ≠ r → L'.act c = L.act c
  tokens : L'.tokens = L.tokens ∨ ∃ token task, (token, task) ∈ L.tokens ∧ task.ref = r ∧
    L'.tokens = (L.without token).tokens
  timers : ∀ c seq, c ≠ r → L'.timers.count (c, seq) = L.timers.count (c, seq)

namespace Strays

variable {L L' : Ledger} {r : RunRef}

theorem refl (L : Ledger) (r : RunRef) : Strays L r L :=
  ⟨rfl, rfl, rfl, rfl, fun _ _ => rfl, .inl rfl, fun _ _ _ => rfl⟩

theorem without {token : Nat} {task : ActivityTask} (h : (token, task) ∈ L.tokens)
    (hr : task.ref = r) : Strays L r (L.without token) :=
  ⟨rfl, rfl, rfl, rfl, fun _ _ => rfl, .inr ⟨token, task, h, hr, rfl⟩, fun _ _ _ => rfl⟩

theorem setAct (h : Strays L r L') (seq : Int) (a : WorkflowActivity) :
    Strays L r (L'.setAct r seq a) where
  row := h.row
  event := h.event
  tasks := h.tasks
  next := h.next
  act c hc := by simp [Ledger.setAct, hc, h.act c hc]
  tokens := h.tokens
  timers := h.timers

theorem arm (h : Strays L r L') (seq : Int) : Strays L r (L'.arm r seq) where
  row := h.row
  event := h.event
  tasks := h.tasks
  next := h.next
  act := h.act
  tokens := h.tokens
  timers c seq' hc := by
    have hne : (r, seq) ≠ (c, seq') := fun heq => hc (Prod.ext_iff.mp heq).1.symm
    rw [← h.timers c seq' hc, Ledger.arm, List.count_cons_of_ne hne]

theorem disarm (h : Strays L r L') (seq : Int) : Strays L r (L'.disarm r seq) where
  row := h.row
  event := h.event
  tasks := h.tasks
  next := h.next
  act := h.act
  tokens := h.tokens
  timers c seq' hc := by
    have hne : (c, seq') ≠ (r, seq) := fun heq => hc (Prod.ext_iff.mp heq).1
    rw [← h.timers c seq' hc, Ledger.disarm, List.count_erase_of_ne hne]

end Strays

inductive Move (S : Scope) (L : Ledger) : Ledger → Prop
  | enqueue {r : RunRef} {row : WorkflowExecution} {evs dec : List (Nat × HistoryEvent)}
      (hrow : L.row r = some row) (hopen : row.isOpen = true) (hlist : L.Lists r evs)
      (hdec : decodeEvents evs = some dec) : Move S L (L.enqueue (taskOf r row dec))
  | append {r : RunRef} {row : WorkflowExecution} {t : Nat} {attrs : EventAttrs}
      (hrow : L.row r = some row) (hpass : attrs.passing = true) :
      Move S L (L.appendTo r row t attrs)
  | revise {r : RunRef} {row row' : WorkflowExecution} (hrow : L.row r = some row)
      (hlen : row'.historyLen = row.historyLen) (htype : row'.type = row.type)
      (hstatus : row'.status = row.status) :
      Move S L (L.setRow r row')
  | request {r : RunRef} {row : WorkflowExecution} {t : Nat} {reason identity : String}
      (hrow : L.row r = some row) (hopen : row.isOpen = true) (hfirst : row.status ≠ .canceling) :
      Move S L (L.appendTo r { row with status := .canceling } t (.cancelRequested reason identity))
  | close {r : RunRef} {row : WorkflowExecution} {status : WorkflowStatus} {attrs : EventAttrs}
      {t t' : Nat} (hrow : L.row r = some row) (hopen : row.isOpen = true)
      (hterm : status.isTerminal = true) (hfits : attrs.closes = some status)
      (hcause : S.Closes L r attrs) (hasked : S.Asked row attrs) :
      Move S L (L.appendTo r (closedRow row status t) t' attrs)
  | create {r : RunRef} {row : WorkflowExecution} {type queue : String} {input : Json} {t : Nat}
      (hfresh : L.Fresh r (S.fresh r)) (hopen : row.status = .running) (hlen : row.historyLen = 0) :
      Move S L (L.appendTo r row t (.workflowStarted type queue input))
  | fork {src r : RunRef} {row new : WorkflowExecution} {n t t' : Nat}
      {evs dec : List (Nat × HistoryEvent)} {reason identity : String}
      (hrow : L.row src = some row) (hn : 1 ≤ n) (hle : n ≤ row.historyLen)
      (hlist : L.Lists src evs) (hdec : decodeEvents evs = some dec)
      (hfresh : L.Fresh r (S.fresh r))
      (hopen : new.status = .running) (hlen : new.historyLen = n)
      (hcopies : S.Copies (L.event src) n) :
      Move S L (((L.copyTo r n dec).appendTo r new t (.reset src.run n reason identity)).setRow src
        (closedRow row .terminated t'))
  | schedule {task : WorkflowTask} {row : WorkflowExecution} {seq : Int} {type : String}
      {input : Raw} {taskQueue queue : String} {startToCloseMs heartbeatMs : Int}
      {rp : Option Temporal.RetryPolicyJSON} {a : WorkflowActivity} {t t' : Nat}
      (htask : task ∈ L.tasks)
      (hcommand : S.command task
        (.scheduleActivity seq type input taskQueue startToCloseMs heartbeatMs rp))
      (hrow : L.row task.ref = some row) (hnone : L.act task.ref seq = none)
      (ha : a = scheduledActivity task.ref seq type input queue startToCloseMs heartbeatMs rp) :
      Move S L ((((L.setAct task.ref seq a.restarted).appendTo task.ref row
        t (.activityScheduled seq a.activityID type input.value queue rp 1)).appendTo task.ref
          { row with historyLen := row.historyLen + 1 }
            t' (.activityStarted seq a.activityID a.attempt)).handOut (a.task task.ref seq))
  | ignore {token : Nat} {task : ActivityTask} (htoken : (token, task) ∈ L.tokens)
      (hwhy : L.act task.ref task.seq = none ∨
        (∃ a, L.act task.ref task.seq = some a ∧ a.isTerminal = true) ∨
        (∃ row, L.row task.ref = some row ∧ row.isOpen = false) ∨
        ∃ raw : Raw, S.payload raw ∧ raw.storable = false) : Move S L (L.without token)
  | retry {token : Nat} {task : ActivityTask} {row : WorkflowExecution} {a : WorkflowActivity}
      {failure : Raw} (htoken : (token, task) ∈ L.tokens)
      (hrow : L.row task.ref = some row) (hopen : row.isOpen = true)
      (hact : L.act task.ref task.seq = some a) (hpending : a.isTerminal = false)
      (hpayload : S.payload failure) (hfailed : failure.isEmpty = false)
      (hretry : (Temporal.effectiveRetryPolicy a.retryPolicy).shouldRetry
        (Temporal.decode failure) a.attempt = true) :
      Move S L (((L.without token).setAct task.ref task.seq
        { a with attempt := a.attempt + 1, status := .scheduled, failure := failure }).arm
          task.ref task.seq)
  | complete {token : Nat} {task : ActivityTask} {row : WorkflowExecution} {a : WorkflowActivity}
      {result : Raw} {t : Nat} (htoken : (token, task) ∈ L.tokens)
      (hrow : L.row task.ref = some row) (hopen : row.isOpen = true)
      (hact : L.act task.ref task.seq = some a) (hpending : a.isTerminal = false)
      (hpayload : S.payload result) :
      Move S L (((L.without token).setAct task.ref task.seq
        { a with status := .completed, result := result }).appendTo task.ref row
          t (.activityCompleted task.seq a.activityID result.value))
  | fail {token : Nat} {task : ActivityTask} {row : WorkflowExecution} {a : WorkflowActivity}
      {failure : Raw} {t : Nat} (htoken : (token, task) ∈ L.tokens)
      (hrow : L.row task.ref = some row) (hopen : row.isOpen = true)
      (hact : L.act task.ref task.seq = some a) (hpending : a.isTerminal = false)
      (hpayload : S.payload failure) (hfailed : failure.isEmpty = false)
      (hretry : (Temporal.effectiveRetryPolicy a.retryPolicy).shouldRetry
        (Temporal.decode failure) a.attempt = false) :
      Move S L (((L.without token).setAct task.ref task.seq
        { a with status := .failed, failure := failure }).appendTo task.ref row
          t (.activityFailed task.seq a.activityID failure.value))
  | lapse {r : RunRef} {seq : Int} (htimer : (r, seq) ∈ L.timers)
      (hwhy : L.act r seq = none ∨ ∃ a, L.act r seq = some a ∧ a.isTerminal = true) :
      Move S L (L.disarm r seq)
  | refire {r : RunRef} {seq : Int} {row : WorkflowExecution} {a : WorkflowActivity} {t : Nat}
      (htimer : (r, seq) ∈ L.timers) (hrow : L.row r = some row) (hact : L.act r seq = some a)
      (hpending : a.isTerminal = false) :
      Move S L ((((L.disarm r seq).setAct r seq a.restarted).appendTo r row
        t (.activityStarted seq a.activityID a.attempt)).handOut (a.task r seq))
  | redispatch {r : RunRef} {seq : Int} {a : WorkflowActivity} (hrecover : S.recover)
      (hact : L.act r seq = some a) (hpending : a.isTerminal = false) :
      Move S L ((L.setAct r seq a.restarted).handOut (a.task r seq))
  | purge {r : RunRef} {row : WorkflowExecution} (hpurge : S.purge) (hrow : L.row r = some row)
      (hshut : row.isOpen = false) :
      Move S L { L with
        row := Function.update L.row r none
        event := Function.update L.event r fun _ => none
        act := Function.update L.act r fun _ => none }
  /-- Work that was handed out for a run that is gone leaves records, timers and
  tokens behind. -/
  | stray {r : RunRef} {L' : Ledger} (hrow : L.row r = none)
      (hfrom : (∃ t ∈ L.tasks, t.ref = r) ∨ (∃ p ∈ L.tokens, p.2.ref = r) ∨
        ∃ seq, (r, seq) ∈ L.timers) (hleaves : Strays L r L') :
      Move S L L'

abbrev Moves (S : Scope) : Ledger → Ledger → Prop := Relation.ReflTransGen (Move S)

end DurableTasks
