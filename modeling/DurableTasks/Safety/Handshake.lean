import DurableTasks.Safety.Records

/-!
The cancel handshake: a run is asked to be cancelled at most once, it is
cancelled only after that, and it is CANCELING only in between.
-/

namespace DurableTasks

open Effects Engine EventAttrs

namespace EventAttrs

def Apart (attrs : EventAttrs) : Prop := ¬attrs.IsCancelRequest ∧ ¬attrs.IsCanceled

theorem apart_of_passing {attrs : EventAttrs} (h : attrs.passing = true) : attrs.Apart := by
  cases attrs <;> simp_all [passing, Apart, IsCancelRequest, IsCanceled]

theorem not_isCancelRequest_of_closes {attrs : EventAttrs} {status : WorkflowStatus}
    (h : attrs.closes = some status) : ¬attrs.IsCancelRequest := by
  cases attrs <;> simp_all [closes, IsCancelRequest]

theorem apart_outcome (b : WorkflowActivity) (seq : Int) : (b.outcome seq).Apart := by
  unfold WorkflowActivity.outcome
  split <;> exact ⟨fun hp => hp, fun hp => hp⟩

theorem isCancelRequest_throughAny {ev ev' : HistoryEvent} (h : ev.throughAny = some ev') :
    (ev'.attrs.IsCancelRequest ↔ ev.attrs.IsCancelRequest) ∧
      (ev'.attrs.IsCanceled ↔ ev.attrs.IsCanceled) := by
  obtain ⟨attrs', hattrs, rfl⟩ := Option.map_eq_some_iff.mp h
  cases hev : ev.attrs <;> rw [hev] at hattrs <;>
    simp only [EventAttrs.throughAny, Option.map_eq_some_iff, Option.some.injEq] at hattrs
  all_goals
    obtain ⟨j, -, rfl⟩ := hattrs
    exact ⟨Iff.rfl, Iff.rfl⟩

end EventAttrs

/-! ## The phases of a run -/

/-- How far the handshake has come, with `R` the ids of the requests, `C` the
ids of the cancellations, and the status of the run. -/
inductive Phase (R C : Set Nat) (status : WorkflowStatus) : Prop
  | unasked (hR : R = ∅) (hC : C = ∅) (hstatus : status ≠ .canceling)
  | asked {i : Nat} (hR : R = {i}) (hC : C = ∅) (hstatus : status ≠ .running)
  | acked {i j : Nat} (hR : R = {i}) (hC : C = {j}) (hlt : i < j)
      (hstatus : status.isTerminal = true)

namespace Phase

variable {R C : Set Nat} {status status' : WorkflowStatus}

theorem close (h : Phase R C status) (hterm : status'.isTerminal = true) : Phase R C status' := by
  cases h with
  | unasked hR hC hstatus =>
    refine .unasked hR hC ?_
    rintro rfl
    cases hterm
  | asked hR hC hstatus =>
    refine .asked hR hC ?_
    rintro rfl
    cases hterm
  | acked hR hC hlt hstatus => exact .acked hR hC hlt hterm

theorem of_running (h : Phase R C .running) : R = ∅ ∧ C = ∅ := by
  cases h with
  | unasked hR hC hstatus => exact ⟨hR, hC⟩
  | asked hR hC hstatus => exact absurd rfl hstatus
  | acked hR hC hlt hstatus => cases hstatus

theorem of_canceling (h : Phase R C .canceling) : ∃ i, R = {i} ∧ C = ∅ := by
  cases h with
  | unasked hR hC hstatus => exact absurd rfl hstatus
  | asked hR hC hstatus => exact ⟨_, hR, hC⟩
  | acked hR hC hlt hstatus => cases hstatus

theorem after (h : Phase R C status) {j : Nat} (hj : j ∈ C) : ∃ i ∈ R, i < j := by
  cases h with
  | unasked hR hC hstatus =>
    rw [hC] at hj
    exact hj.elim
  | asked hR hC hstatus =>
    rw [hC] at hj
    exact hj.elim
  | @acked i j' hR hC hlt hstatus =>
    rw [hC] at hj
    obtain rfl := Set.mem_singleton_iff.mp hj
    exact ⟨i, by simp [hR], hlt⟩

theorem subsingleton (h : Phase R C status) : R.Subsingleton := by
  cases h with
  | unasked hR hC hstatus => simp [hR]
  | asked hR hC hstatus => simp [hR]
  | acked hR hC hlt hstatus => simp [hR]

end Phase

/-- The run is in one of the phases. -/
def RunView.Handshake (v : RunView) : Prop :=
  ∀ row, v.row = some row →
    Phase (EventsAt v.event IsCancelRequest) (EventsAt v.event IsCanceled) row.status

namespace RunView.Handshake

variable {v : RunView} {row row' : WorkflowExecution} {t : Nat} {attrs : EventAttrs}

theorem append (hv : v.Handshake) (hrow : v.row = some row)
    (hphase : Phase (EventsAt v.event IsCancelRequest) (EventsAt v.event IsCanceled) row.status →
      Phase (EventsAt (v.append row' t attrs).event IsCancelRequest)
        (EventsAt (v.append row' t attrs).event IsCanceled) row'.status) :
    (v.append row' t attrs).Handshake := by
  intro row₁ hrow₁
  obtain rfl := Option.some.inj hrow₁
  exact hphase (hv row hrow)

theorem append_apart (hv : v.Handshake) (hcounted : v.Counted) (hrow : v.row = some row)
    (hattrs : attrs.Apart) : (v.append row t attrs).Handshake := by
  have hnone := hcounted.next_none hrow
  refine hv.append hrow fun hphase => ?_
  rw [RunView.append, eventsAt_append_of_not hnone hattrs.1,
    eventsAt_append_of_not hnone hattrs.2]
  exact hphase

theorem request (hv : v.Handshake) (hcounted : v.Counted) (hrow : v.row = some row)
    (hopen : row.isOpen = true) (hfirst : row.status ≠ .canceling) {reason identity : String} :
    (v.append { row with status := .canceling } t
      (.cancelRequested reason identity)).Handshake := by
  have hnone := hcounted.next_none hrow
  refine hv.append hrow fun hphase => ?_
  have hrunning : row.status = .running := by
    cases hstatus : row.status with
    | running => rfl
    | canceling => exact absurd hstatus hfirst
    | _ => simp [WorkflowExecution.isOpen, hstatus, WorkflowStatus.isTerminal] at hopen
  rw [hrunning] at hphase
  obtain ⟨hR, hC⟩ := hphase.of_running
  refine .asked (eventsAt_first hnone hR trivial) ?_ (by simp)
  rwa [RunView.append, eventsAt_append_of_not hnone fun hp => hp]

theorem close (hv : v.Handshake) (hcounted : v.Counted) (hrow : v.row = some row)
    {status : WorkflowStatus} {t' : Nat}
    (hterm : status.isTerminal = true) (hfits : attrs.closes = some status)
    (hasked : attrs.IsCanceled → row.status = .canceling) :
    (v.append (closedRow row status t) t' attrs).Handshake := by
  have hnone := hcounted.next_none hrow
  refine hv.append hrow fun hphase => ?_
  have hR : EventsAt (v.append (closedRow row status t) t' attrs).event IsCancelRequest =
      EventsAt v.event IsCancelRequest :=
    eventsAt_append_of_not hnone (not_isCancelRequest_of_closes hfits)
  rw [hR]
  by_cases hcanceled : attrs.IsCanceled
  · rw [hasked hcanceled] at hphase
    obtain ⟨i, hi, hC⟩ := hphase.of_canceling
    refine .acked hi (eventsAt_first hnone hC hcanceled) ?_ hterm
    -- the request is among the events the row has counted
    obtain ⟨ev, hev, -⟩ : i ∈ EventsAt v.event IsCancelRequest := by simp [hi]
    exact Nat.lt_succ_of_le (hcounted.le hrow hev)
  · have hC : EventsAt (v.append (closedRow row status t) t' attrs).event IsCanceled =
        EventsAt v.event IsCanceled := eventsAt_append_of_not hnone hcanceled
    rw [hC]
    exact hphase.close hterm

end RunView.Handshake

/-- A copy of events among which there is no request has no part of the
handshake: a cancellation would come after a request. -/
theorem RunView.Handshake.apart_copied {L : Ledger} {src : RunRef} {row : WorkflowExecution}
    {n id : Nat} {evs dec : List (Nat × HistoryEvent)} {ev : HistoryEvent}
    (hL : (L.view src).Handshake) (hrow : L.row src = some row)
    (hcopies : ∀ id ev, id ≤ n → L.event src id = some ev → ¬ev.attrs.IsCancelRequest)
    (hlist : L.Lists src evs) (hdec : decodeEvents evs = some dec) (hid : id ≤ n)
    (hev : dec.lookup id = some ev) : ev.attrs.Apart := by
  rw [lookup_decodeEvents hdec, hlist.lookup, Option.bind_eq_some_iff] at hev
  obtain ⟨ev₀, hev₀, hthrough⟩ := hev
  obtain ⟨hrequest, hcanceled⟩ := isCancelRequest_throughAny hthrough
  refine ⟨fun hp => hcopies id ev₀ hid hev₀ (hrequest.mp hp), fun hp => ?_⟩
  obtain ⟨i, ⟨ev₁, hev₁, hasked⟩, hlt⟩ :=
    (hL row hrow).after (j := id) ⟨ev₀, hev₀, hcanceled.mp hp⟩
  exact hcopies i ev₁ (hlt.le.trans hid) hev₁ hasked

/-- Every step of a run that is cancelled and forked as the handshake has it
keeps the handshake. -/
theorem RunStep.handshake {S : Scope} {L : Ledger} {r : RunRef} {v : RunView} (hS : S.handshake)
    (hr : S.fresh r = .unused) (hcounted : (L.view r).Counted) (hL : ∀ c, (L.view c).Handshake)
    (h : RunStep S L r v) : v.Handshake := by
  have hv := hL r
  cases h with
  | same => exact hv
  | @revise row row' hrow hlen hstatus =>
    intro row₁ hrow₁
    obtain rfl := Option.some.inj hrow₁
    rcases hstatus with heq | hterm
    · rw [heq]
      exact hv row hrow
    · exact (hv row hrow).close hterm
  | note hrow hpass => exact hv.append_apart hcounted hrow (apart_of_passing hpass)
  | request hrow hopen hfirst => exact hv.request hcounted hrow hopen hfirst
  | close hrow hterm hfits hasked => exact hv.close hcounted hrow hterm hfits (hasked hS)
  | @create row type queue input t hfresh hopen hlen =>
    rw [hr] at hfresh
    have hnone : ∀ p, EventsAt (L.event r) p = ∅ :=
      fun p => eventsAt_eq_empty fun id ev hev => by simp [hfresh.2.1] at hev
    refine RunView.Handshake.append_apart (v := { L.view r with row := some row }) ?_
      (fun id ev hev => by simp [hfresh.2.1] at hev) rfl ⟨fun hp => hp, fun hp => hp⟩
    intro row₁ hrow₁
    obtain rfl := Option.some.inj hrow₁
    exact .unasked (hnone _) (hnone _) (by simp [hopen])
  | @fork src row new n t evs dec reason identity hrow hn hle hlist hdec hfresh hopen hlen
      hcopies =>
    rw [hr] at hfresh
    obtain ⟨-, hevents, -⟩ := hfresh
    let copied : RunView := { L.view r with
      row := some new
      event := fun id => (if id ≤ n then dec.lookup id else none).or (L.event r id) }
    have hevent : ∀ id ev, copied.event id = some ev → id ≤ n ∧ ev.attrs.Apart := by
      intro id ev hev
      simp only [copied, hevents, Option.or_none, Option.ite_none_right_eq_some] at hev
      exact ⟨hev.1, (hL src).apart_copied hrow (hcopies hS) hlist hdec hev.1 hev.2⟩
    refine RunView.Handshake.append_apart (v := copied) ?_
      (fun id ev hev => ⟨new, rfl, hlen ▸ (hevent id ev hev).1⟩) rfl ⟨fun hp => hp, fun hp => hp⟩
    intro row₁ hrow₁
    obtain rfl := Option.some.inj hrow₁
    refine .unasked (eventsAt_eq_empty ?_) (eventsAt_eq_empty ?_) (by simp [hopen])
    · exact fun id ev hev => (hevent id ev hev).2.1
    · exact fun id ev hev => (hevent id ev hev).2.2
  | @schedule row seq a type id input queue rp t t' n hrow hnone ha =>
    have hfirst : (((L.view r).setAct seq a).append row t
        (.activityScheduled seq id type input queue rp 1)).Handshake :=
      RunView.Handshake.append_apart (v := (L.view r).setAct seq a) hv hcounted hrow
        ⟨fun hp => hp, fun hp => hp⟩
    exact hfirst.append_apart (RunView.counted_append fun _ _ => hcounted.le hrow) rfl
      ⟨fun hp => hp, fun hp => hp⟩
  | rewrite hact ha hb => exact hv
  | @refire row seq a b id t n hrow hact ha hb =>
    exact RunView.Handshake.append_apart (v := (L.view r).setAct seq b) hv hcounted hrow
      ⟨fun hp => hp, fun hp => hp⟩
  | @outcome row seq a b t hrow hact ha hb =>
    exact RunView.Handshake.append_apart (v := (L.view r).setAct seq b) hv hcounted hrow
      (apart_outcome _ _)
  | purge => exact fun _ hrow => by cases hrow
  | stray hrow => exact hv

theorem Moves.handshake {S : Scope} {L L' : Ledger} (hS : S.handshake)
    (hfresh : ∀ r, S.fresh r = .unused) (hcounted : ∀ r, (L.view r).Counted)
    (hL : ∀ r, (L.view r).Handshake) (h : Moves S L L') : ∀ r, (L'.view r).Handshake := by
  induction h with
  | refl => exact hL
  | tail hmoves hmove ih =>
    exact fun r => (hmove.runStep (by simp [hfresh])).handshake hS (hfresh r)
      (Moves.counted (hfresh r) (hcounted r) hmoves) ih

/-! ## Every run of the engine -/

/-- The cancel handshake, as the store tells it: a run is asked at most once to
be cancelled, every cancellation comes after a request, and a run is CANCELING
only between the two. -/
structure Store.Handshake (s : Store) (r : RunRef) : Prop where
  once : (s.eventsAt r IsCancelRequest).Subsingleton
  after : ∀ j ∈ s.eventsAt r IsCanceled, ∃ i ∈ s.eventsAt r IsCancelRequest, i < j
  between : ∀ row, s.get (.wf r) = some row → row.status = .canceling →
    (s.eventsAt r IsCancelRequest).Nonempty ∧ s.eventsAt r IsCanceled = ∅

theorem RunView.Handshake.store {s : Store} {r : RunRef} {v : RunView} (hv : v.Handshake)
    (hcounted : v.Counted) (hrow : s.get (.wf r) = v.row)
    (hevent : (fun id => s.get (.wfh r id)) = v.event) :
    s.Handshake r := by
  have hat : ∀ p, s.eventsAt r p = EventsAt v.event p := fun p => by
    rw [Store.eventsAt, hevent]
  cases hv' : v.row with
  | none =>
    have hnone : ∀ p, s.eventsAt r p = ∅ := fun p => by
      rw [hat]
      refine eventsAt_eq_empty fun id ev hev => ?_
      obtain ⟨row, hrow', -⟩ := hcounted id ev hev
      rw [hv'] at hrow'
      cases hrow'
    refine ⟨by simp [hnone], by simp [hnone], fun row hrow' => ?_⟩
    rw [hrow, hv'] at hrow'
    cases hrow'
  | some row =>
    have hphase := hv row hv'
    rw [← hat, ← hat] at hphase
    refine ⟨hphase.subsingleton, fun j hj => hphase.after hj, fun row' hrow' hstatus => ?_⟩
    obtain rfl : row = row' := Option.some.inj ((hrow.trans hv').symm.trans hrow')
    rw [hstatus] at hphase
    obtain ⟨i, hR, hC⟩ := hphase.of_canceling
    exact ⟨⟨i, by simp [hR]⟩, hC⟩

def asked : List (System.Turn Operation) :=
  [.whole startRun, .whole (.subscribe "n" "default"), .whole (.cancel ⟨"n", "wf", some "r"⟩ "" "")]

def Store.handshake (s : Store) (r : RunRef) : Option WorkflowStatus × List Nat × List Nat :=
  ((s.get (.wf r)).map (·.status),
    ((s.events r).filter fun q => decide q.2.attrs.IsCancelRequest).map (·.1),
    ((s.events r).filter fun q => decide q.2.attrs.IsCanceled).map (·.1))

end DurableTasks
