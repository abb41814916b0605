import DurableTasks.Engine.DurableMoves
import DurableTasks.Safety.History

/-!
Activity records and the history: what the record of an activity says, and what
the events of its run say about it.
-/

namespace DurableTasks

open Effects Engine

variable {seq : Int} {attrs : EventAttrs} {r : RunRef}

/-! ## Events about an activity -/

namespace EventAttrs

def Schedules (seq : Int) : EventAttrs → Prop
  | .activityScheduled s _ _ _ _ _ _ => s = seq
  | _ => False

def Completes (seq : Int) : EventAttrs → Prop
  | .activityCompleted s _ _ => s = seq
  | _ => False

def CompletesWith (seq : Int) (result : Json) : EventAttrs → Prop
  | .activityCompleted s _ v => s = seq ∧ v = result
  | _ => False

def Fails (seq : Int) : EventAttrs → Prop
  | .activityFailed s _ _ => s = seq
  | _ => False

def FailsWith (seq : Int) (failure : Json) : EventAttrs → Prop
  | .activityFailed s _ v => s = seq ∧ v = failure
  | _ => False

def IsReset : EventAttrs → Prop
  | .reset _ _ _ _ => True
  | _ => False

instance : DecidablePred IsReset := fun attrs => by
  cases attrs <;> unfold IsReset <;> infer_instance

instance (seq : Int) : DecidablePred (Schedules seq) := fun attrs => by
  cases attrs <;> unfold Schedules <;> infer_instance

instance (seq : Int) : DecidablePred (Completes seq) := fun attrs => by
  cases attrs <;> unfold Completes <;> infer_instance

instance (seq : Int) : DecidablePred (Fails seq) := fun attrs => by
  cases attrs <;> unfold Fails <;> infer_instance

def about : EventAttrs → Option Int
  | .activityScheduled s _ _ _ _ _ _ | .activityCompleted s _ _ | .activityFailed s _ _ => some s
  | _ => none

theorem CompletesWith.completes {v : Json} (h : attrs.CompletesWith seq v) :
    attrs.Completes seq := by
  cases attrs <;> first | exact h.elim | exact h.1

theorem FailsWith.fails {v : Json} (h : attrs.FailsWith seq v) : attrs.Fails seq := by
  cases attrs <;> first | exact h.elim | exact h.1

theorem not_of_about (h : attrs.about ≠ some seq) :
    ¬attrs.Schedules seq ∧ ¬attrs.Completes seq ∧ ¬attrs.Fails seq := by
  cases attrs <;> simp_all [about, Schedules, Completes, Fails]

end EventAttrs

def EventsAt (h : Nat → Option HistoryEvent) (p : EventAttrs → Prop) : Set Nat :=
  {id | ∃ ev, h id = some ev ∧ p ev.attrs}

section EventsAt

variable {h : Nat → Option HistoryEvent} {p q : EventAttrs → Prop} {k : Nat} {ev : HistoryEvent}

theorem eventsAt_eq_empty (hnone : ∀ id ev, h id = some ev → ¬p ev.attrs) : EventsAt h p = ∅ := by
  refine Set.eq_empty_iff_forall_notMem.mpr ?_
  rintro id ⟨ev, hev, hp⟩
  exact hnone id ev hev hp

theorem EventsAt.mono (hpq : ∀ attrs, p attrs → q attrs) : EventsAt h p ⊆ EventsAt h q := by
  rintro id ⟨ev, hev, hp⟩
  exact ⟨ev, hev, hpq _ hp⟩

theorem eventsAt_append (hk : h k = none) (hp : p ev.attrs) :
    EventsAt (Function.update h k (some ev)) p = insert k (EventsAt h p) := by
  ext id
  by_cases hid : id = k
  · subst hid
    simp [EventsAt, hp]
  · simp [EventsAt, hid]

theorem eventsAt_first (hk : h k = none) (hnone : EventsAt h p = ∅) (hp : p ev.attrs) :
    EventsAt (Function.update h k (some ev)) p = {k} := by
  rw [eventsAt_append hk hp, hnone, insert_empty_eq]

theorem eventsAt_append_of_not (hk : h k = none) (hp : ¬p ev.attrs) :
    EventsAt (Function.update h k (some ev)) p = EventsAt h p := by
  ext id
  by_cases hid : id = k
  · subst hid
    simp [EventsAt, hk, hp]
  · simp [EventsAt, hid]

end EventsAt

open EventAttrs

inductive Told (h : Nat → Option HistoryEvent) (seq : Int) : Option WorkflowActivity → Prop
  | unknown (hs : EventsAt h (Schedules seq) = ∅) (hc : EventsAt h (Completes seq) = ∅)
      (hf : EventsAt h (Fails seq) = ∅) : Told h seq none
  | pending {a : WorkflowActivity} {i : Nat} (ha : a.isTerminal = false)
      (hs : EventsAt h (Schedules seq) = {i}) (hc : EventsAt h (Completes seq) = ∅)
      (hf : EventsAt h (Fails seq) = ∅) : Told h seq (some a)
  | completed {a : WorkflowActivity} {i j : Nat} (ha : a.status = .completed)
      (hs : EventsAt h (Schedules seq) = {i}) (hc : EventsAt h (Completes seq) = {j})
      (hv : EventsAt h (CompletesWith seq a.result.value) = {j})
      (hf : EventsAt h (Fails seq) = ∅) : Told h seq (some a)
  | failed {a : WorkflowActivity} {i j : Nat} (ha : a.status = .failed)
      (hs : EventsAt h (Schedules seq) = {i}) (hc : EventsAt h (Completes seq) = ∅)
      (hf : EventsAt h (Fails seq) = {j})
      (hv : EventsAt h (FailsWith seq a.failure.value) = {j}) : Told h seq (some a)

namespace Told

variable {h : Nat → Option HistoryEvent} {seq : Int} {rec : Option WorkflowActivity}
  {a b : WorkflowActivity} {k : Nat} {ev : HistoryEvent}

theorem append (ht : Told h seq rec) (hk : h k = none) (hev : ev.attrs.about ≠ some seq) :
    Told (Function.update h k (some ev)) seq rec := by
  obtain ⟨hs, hc, hf⟩ := EventAttrs.not_of_about hev
  have hcw : ∀ v, ¬ev.attrs.CompletesWith seq v := fun v hv => hc hv.completes
  have hfw : ∀ v, ¬ev.attrs.FailsWith seq v := fun v hv => hf hv.fails
  have hsame : ∀ {p : EventAttrs → Prop}, ¬p ev.attrs →
      EventsAt (Function.update h k (some ev)) p = EventsAt h p := eventsAt_append_of_not hk
  cases ht with
  | unknown hs' hc' hf' =>
    exact .unknown ((hsame hs).trans hs') ((hsame hc).trans hc') ((hsame hf).trans hf')
  | pending ha hs' hc' hf' =>
    exact .pending ha ((hsame hs).trans hs') ((hsame hc).trans hc') ((hsame hf).trans hf')
  | completed ha hs' hc' hv' hf' =>
    exact .completed ha ((hsame hs).trans hs') ((hsame hc).trans hc')
      ((hsame (hcw _)).trans hv') ((hsame hf).trans hf')
  | failed ha hs' hc' hf' hv' =>
    exact .failed ha ((hsame hs).trans hs') ((hsame hc).trans hc') ((hsame hf).trans hf')
      ((hsame (hfw _)).trans hv')

theorem schedule (ht : Told h seq none) (hk : h k = none) (ha : a.isTerminal = false)
    {j t n : Nat} {id type queue : String} {input : Json} {rp : Option Temporal.RetryPolicyJSON} :
    Told (Function.update h k (some ⟨j, t, .activityScheduled seq id type input queue rp n⟩)) seq
      (some a) := by
  cases ht with
  | unknown hs hc hf =>
    refine .pending (i := k) ha ?_ ?_ ?_
    · exact eventsAt_first hk hs rfl
    · rwa [eventsAt_append_of_not hk fun hp => hp]
    · rwa [eventsAt_append_of_not hk fun hp => hp]

theorem rewrite (ht : Told h seq (some a)) (ha : a.isTerminal = false)
    (hb : b.isTerminal = false) : Told h seq (some b) := by
  cases ht with
  | pending _ hs hc hf => exact .pending hb hs hc hf
  | completed hstatus =>
      simp [WorkflowActivity.isTerminal, hstatus, ActivityStatus.isTerminal] at ha
  | failed hstatus => simp [WorkflowActivity.isTerminal, hstatus, ActivityStatus.isTerminal] at ha

theorem outcome (ht : Told h seq (some a)) (ha : a.isTerminal = false) (hb : b.isTerminal = true)
    (hk : h k = none) {j t : Nat} :
    Told (Function.update h k (some ⟨j, t, b.outcome seq⟩)) seq (some b) := by
  have hvalue : ∀ {p q : EventAttrs → Prop}, (∀ attrs, p attrs → q attrs) → EventsAt h q = ∅ →
      EventsAt h p = ∅ := fun hpq hq => Set.subset_eq_empty (EventsAt.mono hpq) hq
  cases ht with
  | completed hstatus =>
      simp [WorkflowActivity.isTerminal, hstatus, ActivityStatus.isTerminal] at ha
  | failed hstatus => simp [WorkflowActivity.isTerminal, hstatus, ActivityStatus.isTerminal] at ha
  | @pending _ i _ hs hc hf =>
    cases hstatus : b.status with
    | scheduled | started =>
      simp [WorkflowActivity.isTerminal, hstatus, ActivityStatus.isTerminal] at hb
    | completed =>
      simp only [WorkflowActivity.outcome, hstatus]
      refine .completed (i := i) (j := k) hstatus ?_ ?_ ?_ ?_
      · rwa [eventsAt_append_of_not hk fun hp => hp]
      · exact eventsAt_first hk hc rfl
      · exact eventsAt_first hk (hvalue (fun _ => CompletesWith.completes) hc) ⟨rfl, rfl⟩
      · rwa [eventsAt_append_of_not hk fun hp => hp]
    | failed =>
      simp only [WorkflowActivity.outcome, hstatus]
      refine .failed (i := i) (j := k) hstatus ?_ ?_ ?_ ?_
      · rwa [eventsAt_append_of_not hk fun hp => hp]
      · rwa [eventsAt_append_of_not hk fun hp => hp]
      · exact eventsAt_first hk hf rfl
      · exact eventsAt_first hk (hvalue (fun _ => FailsWith.fails) hf) ⟨rfl, rfl⟩

end Told

/-! ## One run -/

/-- Unless a reset made the run, its history tells what its records say. -/
def RunView.Orderly (v : RunView) : Prop :=
  ∀ row, v.row = some row → EventsAt v.event IsReset = ∅ → ∀ seq, Told v.event seq (v.act seq)

namespace RunView.Orderly

variable {v : RunView} {row : WorkflowExecution} {t : Nat} {attrs : EventAttrs}

theorem append (hv : v.Orderly) (hrow : v.row = some row)
    (hnone : v.event (row.historyLen + 1) = none) {row' : WorkflowExecution}
    (hlen : row'.historyLen = row.historyLen) (hev : attrs.about = none ∧ ¬attrs.IsReset) :
    (v.append row' t attrs).Orderly := by
  intro row₁ _ hreset seq
  rw [← hlen] at hnone
  refine (hv row hrow ?_ seq).append hnone (by simp [nextEvent, hev.1])
  rwa [RunView.append, eventsAt_append_of_not hnone hev.2] at hreset

theorem tell (hv : v.Orderly) (hrow : v.row = some row) {b : WorkflowActivity}
    (hnone : v.event (row.historyLen + 1) = none) (hreset : ¬attrs.IsReset)
    (hothers : ∀ s, s ≠ seq → attrs.about ≠ some s)
    (htold : Told v.event seq (v.act seq) → Told (Function.update v.event (row.historyLen + 1)
      (some (nextEvent row t attrs))) seq (some b)) :
    ((v.setAct seq b).append row t attrs).Orderly := by
  intro row₁ _ hreset' s
  have hfree : EventsAt v.event IsReset = ∅ := by
    have hsame : EventsAt (Function.update v.event (row.historyLen + 1)
        (some (nextEvent row t attrs))) IsReset = EventsAt v.event IsReset :=
      eventsAt_append_of_not hnone hreset
    exact hsame.symm.trans hreset'
  by_cases hs : s = seq
  · subst hs
    simpa [RunView.append, RunView.setAct] using htold (hv row hrow hfree s)
  · simpa [RunView.append, RunView.setAct, hs] using
      (hv row hrow hfree s).append hnone (hothers s hs)

theorem rewrite (hv : v.Orderly) {a b : WorkflowActivity} (hact : v.act seq = some a)
    (ha : a.isTerminal = false) (hb : b.isTerminal = false) : (v.setAct seq b).Orderly := by
  intro row hrow hreset s
  have htold := hv row hrow hreset s
  by_cases hs : s = seq
  · subst hs
    rw [hact] at htold
    simpa [RunView.setAct] using htold.rewrite ha hb
  · simpa [RunView.setAct, hs] using htold

end RunView.Orderly

def Store.eventsAt (s : Store) (r : RunRef) (p : EventAttrs → Prop) : Set Nat :=
  EventsAt (fun id => s.get (.wfh r id)) p

/-- The record of the activity `seq` and the history of its run agree. -/
structure Store.Agrees (s : Store) (r : RunRef) (seq : Int) : Prop where
  scheduled : (∃ a, s.get (.wfact r seq) = some a) ↔ ∃! id, id ∈ s.eventsAt r (Schedules seq)
  completed : (∃ a, s.get (.wfact r seq) = some a ∧ a.status = .completed) ↔
    ∃! id, id ∈ s.eventsAt r (Completes seq)
  result : ∀ a, s.get (.wfact r seq) = some a → a.status = .completed →
    s.eventsAt r (CompletesWith seq a.result.value) = s.eventsAt r (Completes seq)
  failed : (∃ a, s.get (.wfact r seq) = some a ∧ a.status = .failed) ↔
    ∃! id, id ∈ s.eventsAt r (Fails seq)
  failure : ∀ a, s.get (.wfact r seq) = some a → a.status = .failed →
    s.eventsAt r (FailsWith seq a.failure.value) = s.eventsAt r (Fails seq)
  oneOutcome : s.eventsAt r (Completes seq) = ∅ ∨ s.eventsAt r (Fails seq) = ∅

/-- Everything callers, workers, timers and the background loops can do, with
the one restriction that the id of the run `r` is not used for a second run. -/
def Scope.once (r : RunRef) : Scope := { fresh := fun c => if c = r then .unused else .any }

end DurableTasks
