import DurableTasks.Engine.Moves

/-!
What a move does to one run: its row, its history and its activity records.
What is kept of a run by every run step is kept by every operation.
-/

namespace DurableTasks

open Effects Engine

variable {S : Scope} {L : Ledger} {r : RunRef}

structure RunView where
  row : Option WorkflowExecution
  event : Nat → Option HistoryEvent
  act : Int → Option WorkflowActivity

namespace RunView

def append (v : RunView) (row : WorkflowExecution) (t : Nat) (attrs : EventAttrs) : RunView :=
  { v with
    row := some { row with historyLen := row.historyLen + 1 }
    event := Function.update v.event (row.historyLen + 1) (some (nextEvent row t attrs)) }

def setAct (v : RunView) (seq : Int) (a : WorkflowActivity) : RunView :=
  { v with act := Function.update v.act seq (some a) }

end RunView

namespace Ledger

def view (L : Ledger) (r : RunRef) : RunView := ⟨L.row r, L.event r, L.act r⟩

variable {L : Ledger} {r c : RunRef}

@[simp] theorem view_row : (L.view r).row = L.row r := rfl
@[simp] theorem view_event : (L.view r).event = L.event r := rfl
@[simp] theorem view_appendTo_self (row : WorkflowExecution) (t : Nat) (attrs : EventAttrs) :
    (L.appendTo r row t attrs).view r = (L.view r).append row t attrs := by
  simp [view, appendTo, setRow, setEvent, RunView.append]

@[simp] theorem view_appendTo_of_ne (row : WorkflowExecution) (t : Nat) (attrs : EventAttrs)
    (h : c ≠ r) :
    (L.appendTo r row t attrs).view c = L.view c := by
  simp [view, appendTo, setRow, setEvent, h]

@[simp] theorem view_setAct_self (seq : Int) (a : WorkflowActivity) :
    (L.setAct r seq a).view r = (L.view r).setAct seq a := by
  simp [view, setAct, RunView.setAct]

@[simp] theorem view_setAct_of_ne (seq : Int) (a : WorkflowActivity) (h : c ≠ r) :
    (L.setAct r seq a).view c = L.view c := by
  simp [view, setAct, h]

@[simp] theorem view_setRow_self (row : WorkflowExecution) :
    (L.setRow r row).view r = { L.view r with row := some row } := by
  simp [view, setRow]

@[simp] theorem view_setRow_of_ne (row : WorkflowExecution) (h : c ≠ r) :
    (L.setRow r row).view c = L.view c := by
  simp [view, setRow, h]

@[simp] theorem view_copyTo_self (n : Nat) (evs : List (Nat × HistoryEvent)) :
    (L.copyTo r n evs).view r = { L.view r with
      event := fun id => (if id ≤ n then evs.lookup id else none).or (L.event r id) } := by
  simp [view, copyTo]

@[simp] theorem view_copyTo_of_ne (n : Nat) (evs : List (Nat × HistoryEvent)) (h : c ≠ r) :
    (L.copyTo r n evs).view c = L.view c := by
  simp [view, copyTo, h]

@[simp] theorem view_handOut (t : ActivityTask) : (L.handOut t).view r = L.view r := rfl
@[simp] theorem view_without (token : Nat) : (L.without token).view r = L.view r := rfl
@[simp] theorem view_enqueue (t : WorkflowTask) : (L.enqueue t).view r = L.view r := rfl
@[simp] theorem view_arm (seq : Int) : (L.arm c seq).view r = L.view r := rfl
@[simp] theorem view_disarm (seq : Int) : (L.disarm c seq).view r = L.view r := rfl

end Ledger

inductive RunStep (S : Scope) (L : Ledger) (r : RunRef) : RunView → Prop
  | same : RunStep S L r (L.view r)
  | revise {row row' : WorkflowExecution} (hrow : L.row r = some row)
      (hlen : row'.historyLen = row.historyLen)
      (hstatus : row'.status = row.status ∨ row'.status.isTerminal = true) :
      RunStep S L r { L.view r with row := some row' }
  | note {row : WorkflowExecution} {t : Nat} {attrs : EventAttrs}
      (hrow : L.row r = some row) (hpass : attrs.passing = true) :
      RunStep S L r ((L.view r).append row t attrs)
  | request {row : WorkflowExecution} {t : Nat} {reason identity : String}
      (hrow : L.row r = some row) (hopen : row.isOpen = true) (hfirst : row.status ≠ .canceling) :
      RunStep S L r ((L.view r).append { row with status := .canceling } t
        (.cancelRequested reason identity))
  | close {row : WorkflowExecution} {status : WorkflowStatus} {attrs : EventAttrs} {t t' : Nat}
      (hrow : L.row r = some row) (hterm : status.isTerminal = true)
      (hfits : attrs.closes = some status) (hasked : S.Asked row attrs) :
      RunStep S L r ((L.view r).append (closedRow row status t) t' attrs)
  | create {row : WorkflowExecution} {type queue : String} {input : Json} {t : Nat}
      (hfresh : L.Fresh r (S.fresh r)) (hopen : row.status = .running)
      (hlen : row.historyLen = 0) :
      RunStep S L r ((L.view r).append row t (.workflowStarted type queue input))
  | fork {src : RunRef} {row new : WorkflowExecution} {n t : Nat}
      {evs dec : List (Nat × HistoryEvent)} {reason identity : String}
      (hrow : L.row src = some row) (hn : 1 ≤ n) (hle : n ≤ row.historyLen)
      (hlist : L.Lists src evs) (hdec : decodeEvents evs = some dec)
      (hfresh : L.Fresh r (S.fresh r)) (hopen : new.status = .running) (hlen : new.historyLen = n)
      (hcopies : S.Copies (L.event src) n) :
      RunStep S L r ({ L.view r with
        event := fun id => (if id ≤ n then dec.lookup id else none).or (L.event r id) }.append new
          t (.reset src.run n reason identity))
  | schedule {row : WorkflowExecution} {seq : Int} {a : WorkflowActivity} {type id : String}
      {input : Json} {queue : String} {rp : Option Temporal.RetryPolicyJSON} {t t' n : Nat}
      (hrow : L.row r = some row) (hnone : L.act r seq = none) (ha : a.isTerminal = false) :
      RunStep S L r ((((L.view r).setAct seq a).append row
        t (.activityScheduled seq id type input queue rp 1)).append
          { row with historyLen := row.historyLen + 1 } t' (.activityStarted seq id n))
  | rewrite {seq : Int} {a b : WorkflowActivity} (hact : L.act r seq = some a)
      (ha : a.isTerminal = false) (hb : b.isTerminal = false) (hle : a.attempt ≤ b.attempt) :
      RunStep S L r ((L.view r).setAct seq b)
  | refire {row : WorkflowExecution} {seq : Int} {a b : WorkflowActivity} {id : String}
      {t n : Nat} (hrow : L.row r = some row) (hact : L.act r seq = some a)
      (ha : a.isTerminal = false) (hb : b.isTerminal = false) (hle : a.attempt ≤ b.attempt) :
      RunStep S L r (((L.view r).setAct seq b).append row t (.activityStarted seq id n))
  | outcome {row : WorkflowExecution} {seq : Int} {a b : WorkflowActivity} {t : Nat}
      (hrow : L.row r = some row) (hact : L.act r seq = some a) (ha : a.isTerminal = false)
      (hb : b.isTerminal = true) (hle : a.attempt ≤ b.attempt) :
      RunStep S L r (((L.view r).setAct seq b).append row t (b.outcome seq))
  | purge (hpurge : S.purge) : RunStep S L r ⟨none, fun _ => none, fun _ => none⟩
  | stray {act : Int → Option WorkflowActivity} (hrow : L.row r = none)
      (hfrom : (∃ t ∈ L.tasks, t.ref = r) ∨ (∃ p ∈ L.tokens, p.2.ref = r) ∨
        ∃ seq, (r, seq) ∈ L.timers) :
      RunStep S L r { L.view r with act := act }

/-- A move steps the run it is about, and leaves the others as they are. -/
theorem RunStep.at {v : RunView} (c : RunRef) (hself : r = c → RunStep S L r v)
    (hother : r ≠ c → v = L.view r) : RunStep S L r v := by
  by_cases hc : r = c
  · exact hself hc
  · rw [hother hc]
    exact .same

/-- A run whose id is not used twice takes one step, or none, in a move. -/
theorem Move.runStep {L' : Ledger} (h : Move S L L') (hr : S.fresh r ≠ .any) :
    RunStep S L r (L'.view r) := by
  cases h with
  | enqueue | ignore | lapse => exact .same
  | @append c row t attrs hrow hpass =>
    refine .at c ?_ (by simp +contextual)
    rintro rfl
    simpa using .note hrow hpass
  | @revise c row row' hrow hlen htype hstatus =>
    refine .at c ?_ (by simp +contextual)
    rintro rfl
    simpa using .revise hrow hlen (.inl hstatus)
  | @request c row t reason identity hrow hopen hfirst =>
    refine .at c ?_ (by simp +contextual)
    rintro rfl
    rw [Ledger.view_appendTo_self]
    exact .request hrow hopen hfirst
  | @close c row status attrs t t' hrow hopen hterm hfits hcause hasked =>
    refine .at c ?_ (by simp +contextual)
    rintro rfl
    simpa using .close hrow hterm hfits hasked
  | @create c row type queue input t hfresh hopen hlen =>
    refine .at c ?_ (by simp +contextual)
    rintro rfl
    simpa using .create hfresh hopen hlen
  | @fork src c row new n t t' evs dec reason identity hrow hn hle hlist hdec hfresh hopen hlen
      hcopies =>
      by_cases hc : r = c
      · subst hc
        have hsrc : r ≠ src := by
          rintro rfl
          rw [hfresh.row hr] at hrow
          cases hrow
        rw [Ledger.view_setRow_of_ne _ hsrc]
        simpa using .fork hrow hn hle hlist hdec hfresh hopen hlen hcopies
      · refine .at src ?_ (by simp +contextual [hc])
        rintro rfl
        simpa [hc] using .revise hrow rfl (.inr rfl)
  | @schedule task row seq type input taskQueue queue close beat rp a t t' htask hcommand hrow
      hnone ha =>
      subst ha
      refine .at task.ref ?_ (by simp +contextual)
      rintro rfl
      simpa using .schedule hrow hnone rfl
  | @retry token task row a failure htoken hrow hopen hact hpending =>
    refine .at task.ref ?_ (by simp +contextual)
    rintro rfl
    simpa using .rewrite hact hpending rfl (Nat.le_succ _)
  | @complete token task row a result t htoken hrow hopen hact hpending =>
    refine .at task.ref ?_ (by simp +contextual)
    rintro rfl
    simpa using .outcome (b := { a with status := .completed, result := result }) hrow hact
      hpending rfl le_rfl
  | @fail token task row a failure t htoken hrow hopen hact hpending =>
    refine .at task.ref ?_ (by simp +contextual)
    rintro rfl
    simpa using .outcome (b := { a with status := .failed, failure := failure }) hrow hact
      hpending rfl le_rfl
  | @refire c seq row a t htimer hrow hact hpending =>
    refine .at c ?_ (by simp +contextual)
    rintro rfl
    simpa using .refire hrow hact hpending rfl le_rfl
  | @redispatch c seq a hrecover hact hpending =>
    refine .at c ?_ (by simp +contextual)
    rintro rfl
    simpa using .rewrite hact hpending rfl le_rfl
  | @purge c row hpurge hrow hshut =>
    refine .at c ?_ (by simp +contextual [Ledger.view])
    rintro rfl
    simpa [Ledger.view] using .purge hpurge
  | @stray c _ hrow hfrom hleaves =>
    have hview : L'.view r = { L.view r with act := L'.act r } := by
      simp [Ledger.view, hleaves.row, hleaves.event]
    rw [hview]
    refine .at c ?_ fun hc => by rw [hleaves.act r hc]; rfl
    rintro rfl
    exact .stray hrow hfrom

/-! ## Counted events -/

/-- No event of the run lies beyond what its row counts. -/
def RunView.Counted (v : RunView) : Prop :=
  ∀ id ev, v.event id = some ev → ∃ row, v.row = some row ∧ id ≤ row.historyLen

section Counted

variable {v : RunView} {row : WorkflowExecution}

theorem RunView.Counted.le (hv : v.Counted) (hrow : v.row = some row) {id : Nat}
    {ev : HistoryEvent} (hev : v.event id = some ev) : id ≤ row.historyLen := by
  obtain ⟨row', hrow', hle⟩ := hv id ev hev
  exact Option.some.inj (hrow'.symm.trans hrow) ▸ hle

theorem RunView.Counted.next_none (hv : v.Counted) (hrow : v.row = some row) :
    v.event (row.historyLen + 1) = none := by
  refine Option.eq_none_iff_forall_ne_some.mpr fun ev hev => ?_
  exact absurd (hv.le hrow hev) (Nat.not_succ_le_self _)

theorem RunView.counted_append {t : Nat} {attrs : EventAttrs}
    (h : ∀ id ev, v.event id = some ev → id ≤ row.historyLen) : (v.append row t attrs).Counted := by
  refine fun id ev hev => ⟨_, rfl, ?_⟩
  by_cases hid : id = row.historyLen + 1
  · exact hid.le
  · exact (h id ev (by simpa [append, hid] using hev)).trans (Nat.le_succ _)

theorem RunStep.counted (hr : S.fresh r = .unused) (hL : (L.view r).Counted) (h : RunStep S L r v) :
    v.Counted := by
  have hold : ∀ {row}, L.row r = some row → ∀ id ev, L.event r id = some ev →
      id ≤ row.historyLen := fun hrow _ _ => hL.le hrow
  cases h with
  | same | rewrite | stray => exact hL
  | revise hrow hlen hstatus => exact fun id ev hev => ⟨_, rfl, hlen ▸ hold hrow id ev hev⟩
  | note hrow | request hrow | close hrow | refire hrow | outcome hrow =>
    have hle := hold hrow
    exact RunView.counted_append hle
  | create hfresh hopen hlen =>
    rw [hr] at hfresh
    exact RunView.counted_append fun id ev hev => by simp [hfresh.2.1] at hev
  | fork hrow hn hle hlist hdec hfresh hopen hlen =>
    rw [hr] at hfresh
    refine RunView.counted_append fun id ev hev => ?_
    simp only [hfresh.2.1, Option.or_none, Option.ite_none_right_eq_some] at hev
    exact hlen ▸ hev.1
  | @schedule row seq a type id input queue rp t t' n hrow =>
    refine RunView.counted_append fun id ev hev => ?_
    exact (RunView.counted_append (v := (L.view r).setAct seq a) (hold hrow)).le rfl hev
  | purge => exact fun _ _ hev => by cases hev

theorem Moves.counted {L' : Ledger} (hr : S.fresh r = .unused) (hL : (L.view r).Counted)
    (h : Moves S L L') : (L'.view r).Counted := by
  induction h with
  | refl => exact hL
  | tail _ hmove ih => exact (hmove.runStep (by simp [hr])).counted hr ih

end Counted

end DurableTasks
