import DurableTasks.Effects.Interleave
import DurableTasks.Schedules.Sweeps

/-!
Sweeps and calls on one schedule that run at the same time. Every access to the
host is one step: a sweep lists the rows, starts runs, and writes the rows back
as it has listed them.
-/

namespace DurableTasks

open Std Effects Engine

variable {I : Type} [DecidableEq I]

/-! ## The shared host -/

/-- The host of several threads, as far as the schedule `r` is concerned:
whether its row is still what thread `i` last read or wrote, the threads that
wrote it, the last one first, and those that have started a run of it and not
counted it yet. -/
structure SharedHost (I : Type) where
  host : Host
  current : I → Bool := fun _ => false
  writers : List I := []
  owing : List I := []

namespace SharedHost

variable (r : ScheduleRef)

def watch (i : I) (current : I → Bool) : HostEffect → I → Bool
  | .get c => if c = r then Function.update current i true else current
  | .rowsOf tenant => if r.tenant = tenant then Function.update current i true else current
  | .put c _ => if c = r then fun j => decide (j = i) else current
  | .del c => if c = r then fun j => decide (j = i) else current
  | _ => current

def write (i : I) (writers : List I) : HostEffect → List I
  | .put c _ => if c = r then i :: writers else writers
  | _ => writers

def owe (i : I) (owing : List I) : HostEffect → List I
  | .put c _ => if c = r then owing.erase i else owing
  | .started f => if f.schedule = r then i :: owing else owing
  | _ => owing

def after (s : SharedHost I) (i : I) (e : HostEffect) : SharedHost I where
  host := (hostHandler e s.host).2
  current := watch r i s.current e
  writers := write r i s.writers e
  owing := owe r i s.owing e

def access : Effects.Act I HostEffect HostEffect.Answer (SharedHost I) :=
  fun i e s => some ((hostHandler e s.host).1, s.after r i e)

/-- The row is written only by a thread that has read it since another thread
wrote or deleted it. -/
def attentive (s : SharedHost I) (i : I) : HostEffect → Bool
  | .put c _ => decide (c ≠ r) || s.current i
  | _ => true

end SharedHost

namespace Schedules

/-! ## Calls -/

def told {α : Type} (x : Scheduling α) :
    Program HostEffect HostEffect.Answer (Except String Unit) :=
  x.run >>= fun res => pure (res.map fun _ => ())

namespace ScheduleOperation

def call (cal : Calendar) (now : Int) :
    ScheduleOperation → Program HostEffect HostEffect.Answer (Except String Unit)
  | create r s => told (createSchedule cal now r s)
  | delete r => told (deleteSchedule r)
  | pause r paused note => told (pauseSchedule now r paused note)
  | update r new => told (updateSchedule cal now r new)
  | trigger r requestID => told (triggerSchedule cal now r requestID)
  | sweep => told (sweepSchedules cal now)

def setsState : ScheduleOperation → Option ScheduleState
  | pause _ paused note => some { paused := paused, note := note }
  | update _ new => some new.state
  | _ => none

def setsSpec : ScheduleOperation → Option (ScheduleSpec × ScheduleAction)
  | update _ new => some (new.spec, new.action)
  | _ => none

def target : ScheduleOperation → Option ScheduleRef
  | pause r _ _ => some r
  | update r _ => some r
  | _ => none

end ScheduleOperation

def together (cal : Calendar) (h : Host) (times : I → Int) (ops : I → ScheduleOperation) :
    Pool I HostEffect HostEffect.Answer (SharedHost I) (Except String Unit) :=
  ⟨{ host := h }, fun i => (ops i).call cal (times i)⟩

/-! ## The protocol -/

/-- What an operation knows of the schedule `r`: its row as last read or
written, whether a run was started that is not counted yet, and whether the row
was written or deleted. -/
structure ScheduleView where
  op : ScheduleOperation
  row : Option Schedule := none
  owes : Bool := false
  wrote : Bool := false
  deleted : Bool := false

variable {Q : Post Unit ScheduleView}

namespace ScheduleView

variable (r : ScheduleRef)

/-- A row as the operation turns it: with the state, the spec and the action it
asks for, and with the run it has started counted. -/
structure Turns (k : ScheduleView) (s s' : Schedule) : Prop where
  state : s'.state = k.op.setsState.getD s.state
  spec : (s'.spec, s'.action) = k.op.setsSpec.getD (s.spec, s.action)
  count : s'.info.actionCount = s.info.actionCount + if k.owes then 1 else 0

def guard (k : ScheduleView) : HostEffect → Prop
  | .put c s' => c = r → ∃ s, k.row = some s ∧ k.Turns s s'
  | .started f => f.schedule = r → k.owes = false
  | _ => True

def learn (k : ScheduleView) : (e : HostEffect) → e.Answer → ScheduleView
  | .get c, .ok o => if c = r then { k with row := o } else k
  | .rowsOf tenant, .ok l => if r.tenant = tenant then { k with row := l.lookup r } else k
  | .put c s, _ => if c = r then { k with row := some s, owes := false, wrote := true } else k
  | .del c, _ => if c = r then { k with row := none, deleted := true } else k
  | .started f, _ => if f.schedule = r then { k with owes := true } else k
  | _, _ => k

end ScheduleView

structure ListsSchedules (tenant : String) (l : List (ScheduleRef × Schedule)) : Prop where
  tenant : ∀ p ∈ l, p.1.tenant = tenant
  nodup : (l.map Prod.fst).Nodup

def Sound : (e : HostEffect) → e.Answer → Prop
  | .tenants, a => ∃ l, a = .ok l ∧ l.Nodup
  | .rowsOf tenant, a => ∃ l, a = .ok l ∧ ListsSchedules tenant l
  | .get _, a => ∃ o, a = .ok o
  | .put _ _, a => a = .ok ()
  | .del _, a => a = .ok ()
  | _, _ => True

def scheduleProtocol (r : ScheduleRef) : Protocol HostEffect HostEffect.Answer ScheduleView where
  guard := ScheduleView.guard r
  valid := Sound
  learn := ScheduleView.learn r

theorem listsSchedules_rowsOf (h : Host) (tenant : String) :
    ListsSchedules tenant (h.rowsOf tenant) where
  tenant := fun _ hp => (Host.mem_rowsOf.mp hp).1
  nodup := h.nodup_rowsOf tenant

theorem lookup_rowsOf (h : Host) (r : ScheduleRef) : (h.rowsOf r.tenant).lookup r = h.row r := by
  refine Listing.lookup_eq (h.nodup_rowsOf r.tenant) fun s => ?_
  rw [Host.mem_rowsOf]
  exact ⟨fun h => h.2, fun h => ⟨rfl, h⟩⟩

theorem hostHandler_sound (e : HostEffect) (h : Host) : Sound e (hostHandler e h).1 := by
  cases e with
  | workflow tenant e => trivial
  | tenants => exact ⟨_, rfl, List.nodup_dedup _⟩
  | rowsOf tenant => exact ⟨_, rfl, listsSchedules_rowsOf h tenant⟩
  | get c => exact ⟨_, rfl⟩
  | put c s => rfl
  | del c => rfl
  | started f => trivial
  | reportFire c failed => trivial

def Scheduling.follows {α : Type} (r : ScheduleRef) (x : Scheduling α)
    (Q : Except String α → ScheduleView → Prop) (k : ScheduleView) : Prop :=
  x.run.conforms (scheduleProtocol r) Q k

namespace Scheduling

variable {α β : Type} {r c : ScheduleRef} {k : ScheduleView}

theorem follows_bind {Q : Post β ScheduleView} (x : Scheduling α) (f : α → Scheduling β) :
    (x >>= f).follows r Q k ↔
      x.follows r (fun res k' => match res with
        | .ok a => (f a).follows r Q k'
        | .error e => Q (.error e) k') k :=
  FollowsOf.bind_iff x f (fun _ _ => Iff.rfl) fun _ _ => Iff.rfl

theorem follows_mono {Q Q' : Post α ScheduleView}
    (hQ : ∀ a k, Q a k → Q' a k) {x : Scheduling α} (hx : x.follows r Q k) :
    x.follows r Q' k :=
  Program.conforms_mono hQ _ hx

theorem follows_attempt {x : Scheduling α} {Q : Post (Except String α) ScheduleView} :
    (attempt x).follows r Q k ↔ x.follows r (fun res k' => Q (.ok res) k') k :=
  FollowsOf.lift_run_iff

/-- The workflow engine leaves the schedules alone. -/
theorem follows_onTenant {tenant : String} {x : Go α}
    {Q : Post α ScheduleView} (hQ : ∀ res, Q res k) :
    (onTenant tenant x).follows r Q k :=
  Program.conforms_embed (fun _ => trivial) (fun _ _ => rfl) hQ x.run

theorem follows_tenants {Q : Post (List String) ScheduleView} :
    tenants.follows r Q k ↔ ∀ l : List String, l.Nodup → Q (.ok l) k := ok_listing

theorem follows_rowsOf {tenant : String} {Q : Post (List (ScheduleRef × Schedule)) ScheduleView} :
    (rowsOf tenant).follows r Q k ↔ ∀ l, ListsSchedules tenant l →
      Q (.ok l) (if r.tenant = tenant then { k with row := l.lookup r } else k) := ok_listing

theorem follows_describeSchedule {Q : Post (Option Schedule) ScheduleView} :
    (describeSchedule c).follows r Q k ↔
      ∀ o, Q (.ok o) (if c = r then { k with row := o } else k) := ok_answer

theorem follows_putSchedule {s : Schedule} :
    (putSchedule c s).follows r Q k ↔
      (c = r → ∃ old, k.row = some old ∧ k.Turns old s) ∧
        Q (.ok ()) (if c = r then { k with row := some s, owes := false, wrote := true } else k) :=
  and_congr_right fun _ => forall_eq

theorem follows_delSchedule :
    (delSchedule c).follows r Q k ↔
      Q (.ok ()) (if c = r then { k with row := none, deleted := true } else k) :=
  (and_congr_right fun _ => forall_eq).trans (iff_of_eq (true_and _))

theorem follows_started {f : Fire} :
    (started f).follows r Q k ↔
      (f.schedule = r → k.owes = false) ∧
        Q (.ok ()) (if f.schedule = r then { k with owes := true } else k) := unit_answer

theorem follows_reportFire {failed : Bool} : (reportFire c failed).follows r Q k ↔ Q (.ok ()) k :=
  unit_answer.trans (iff_of_eq (true_and _))

end Scheduling

/-! ## The operations follow it -/

open Scheduling

section Functions

variable {α : Type} {cal : Calendar} {now : Int} {r c : ScheduleRef} {k : ScheduleView}
  {s new : Schedule} {op : ScheduleOperation}

@[simp] theorem action_withNext : (withNext cal now s).action = s.action := by
  unfold withNext
  split <;> rfl

@[simp] theorem actionCount_withNext :
    (withNext cal now s).info.actionCount = s.info.actionCount := by
  unfold withNext
  split <;> rfl

theorem turns_pausedRow {paused : Bool} {note : String} (hop : k.op = .pause c paused note)
    (hk : k.owes = false) : k.Turns s (pausedRow now paused note s) where
  state := by simp [hop, pausedRow, ScheduleOperation.setsState]
  spec := by simp [hop, pausedRow, ScheduleOperation.setsSpec]
  count := by simp [hk, pausedRow]

theorem turns_updatedRow (hop : k.op = .update c new) (hk : k.owes = false) :
    k.Turns s (updatedRow cal now new s) where
  state := by simp [hop, updatedRow, ScheduleOperation.setsState]
  spec := by simp [hop, updatedRow, ScheduleOperation.setsSpec]
  count := by simp [hk, updatedRow]

theorem turns_countedRow (hstate : k.op.setsState = none) (hspec : k.op.setsSpec = none)
    (hk : k.owes = true) : k.Turns s (countedRow now s) where
  state := by simp [hstate, countedRow]
  spec := by simp [hspec, countedRow]
  count := by simp [hk, countedRow]

theorem turns_anchored (hop : k.op = .sweep) (hk : k.owes = true) :
    k.Turns s (anchored cal now s) where
  state := by simp [hop, anchored, countedRow, ScheduleOperation.setsState]
  spec := by simp [hop, anchored, countedRow, ScheduleOperation.setsSpec]
  count := by simp [hk, anchored, countedRow]

structure Ends (r : ScheduleRef) (op : ScheduleOperation) (res : Except String α)
  (k : ScheduleView) : Prop where
  same : k.op = op
  settled : k.owes = false
  wrote : op.target = some r → (∃ a, res = .ok a) → k.wrote = true
  deleted : op = .delete r → (∃ a, res = .ok a) → k.deleted = true

/-- Operations that neither set nor delete a row have nothing to show for it. -/
theorem Ends.of_none {res : Except String α} (hop : k.op = op) (hk : k.owes = false)
    (htarget : op.target ≠ some r) (hdelete : op ≠ .delete r) : Ends r op res k :=
  ⟨hop, hk, fun h => absurd h htarget, fun h => absurd h hdelete⟩

theorem Ends.of_error {e : String} (hop : k.op = op) (hk : k.owes = false) :
    Ends r op (.error e : Except String α) k where
  same := hop
  settled := hk
  wrote := by
    rintro - ⟨a, ha⟩
    cases ha
  deleted := by
    rintro - ⟨a, ha⟩
    cases ha

theorem createSchedule_follows (hop : k.op = .create c s) (hk : k.owes = false) (hc : c ≠ r) :
    (createSchedule cal now c s).follows r (Ends r (.create c s)) k := by
  have hends : ∀ res : Except String Unit, Ends r (.create c s) res k := fun res =>
    .of_none hop hk (by simp [ScheduleOperation.target]) (by simp)
  unfold createSchedule
  split_ifs
  · exact hends _
  · exact hends _
  · rw [follows_putSchedule, if_neg hc]
    exact ⟨fun h => absurd h hc, hends _⟩

theorem deleteSchedule_follows (hop : k.op = .delete c) (hk : k.owes = false) :
    (deleteSchedule c).follows r (Ends r (.delete c)) k := by
  rw [deleteSchedule, follows_delSchedule]
  split_ifs with hc
  · exact ⟨hop, hk, fun h => (by cases h), fun _ _ => rfl⟩
  · exact .of_none hop hk (by simp [ScheduleOperation.target]) (by simpa using hc)

/-- A row is written that turns the one that was read. -/
theorem putSchedule_follows {new : Schedule} (hop : k.op = op) (hk : k.owes = false)
    (hdelete : op ≠ .delete r) (htarget : op.target = some c) (hturns : k.Turns s new) :
    (putSchedule c new).follows r (Ends r op)
      (if c = r then { k with row := some s } else k) := by
  rw [follows_putSchedule]
  by_cases hc : c = r
  · simp only [hc, if_true]
    exact ⟨fun _ => ⟨s, rfl, hturns.state, hturns.spec, hturns.count⟩, hop, rfl, fun _ _ => rfl,
      fun h => absurd h hdelete⟩
  · simp only [hc, if_false]
    refine ⟨fun h => h.elim, .of_none hop hk ?_ hdelete⟩
    rw [htarget]
    simpa using hc

theorem op_read {o : Option Schedule} :
    (if c = r then { k with row := o } else k).op = k.op ∧
      (if c = r then { k with row := o } else k).owes = k.owes := by
  split_ifs <;> exact ⟨rfl, rfl⟩

theorem pauseSchedule_follows {paused : Bool} {note : String} (hop : k.op = .pause c paused note)
    (hk : k.owes = false) :
    (pauseSchedule now c paused note).follows r (Ends r (.pause c paused note)) k := by
  rw [pauseSchedule, follows_bind, follows_attempt, follows_describeSchedule]
  intro o
  cases o with
  | none => exact .of_error (op_read.1.trans hop) (op_read.2.trans hk)
  | some s =>
    exact putSchedule_follows hop hk (by simp) rfl (turns_pausedRow hop hk)

theorem updateSchedule_follows (hop : k.op = .update c new) (hk : k.owes = false) :
    (updateSchedule cal now c new).follows r (Ends r (.update c new)) k := by
  rw [updateSchedule, follows_bind, follows_describeSchedule]
  intro o
  cases o with
  | none => exact .of_error (op_read.1.trans hop) (op_read.2.trans hk)
  | some s =>
    dsimp only
    rw [follows_bind]
    refine follows_mono ?_ (putSchedule_follows hop hk (by simp) rfl (turns_updatedRow hop hk))
    rintro (e | u) k' hends
    · exact .of_error hends.same hends.settled
    · exact ⟨hends.same, hends.settled, fun h _ => hends.wrote h ⟨_, rfl⟩,
        fun h => (by cases h)⟩

/-- The run is started and is owed to the schedule, or it is not started. -/
theorem startRun_follows {tick : Option Int} (hk : k.owes = false) :
    (startRun cal c tick s).follows r (fun res k' => match res with
      | .ok _ => k' = if c = r then { k with owes := true } else k
      | .error _ => k' = k) k := by
  rw [startRun, follows_bind]
  refine follows_onTenant fun res => ?_
  cases res with
  | error e => rfl
  | ok p =>
    dsimp only
    rw [follows_bind, follows_started]
    exact ⟨fun _ => hk, rfl⟩

theorem priorTrigger_follows {requestID : String} {Q : Post _ ScheduleView}
    (hQ : ∀ found, Q (.ok found) k) : (priorTrigger c requestID).follows r Q k := by
  unfold priorTrigger
  split_ifs
  · exact hQ none
  rw [follows_bind, follows_attempt]
  refine follows_onTenant fun res => ?_
  rcases res with e | _ | ⟨wf, run⟩
  · exact hQ none
  · exact hQ none
  · dsimp only
    split_ifs
    · exact hQ none
    rw [follows_bind, follows_attempt]
    refine follows_onTenant fun res => ?_
    cases res with
    | error e => exact hQ none
    | ok found => exact hQ found

theorem triggerSchedule_follows {requestID : String} (hop : k.op = .trigger c requestID)
    (hk : k.owes = false) :
    (triggerSchedule cal now c requestID).follows r (Ends r (.trigger c requestID)) k := by
  have hends : ∀ (k' : ScheduleView) (res : Except String (RunRef × WorkflowExecution)),
      k'.op = k.op → k'.owes = false → Ends r (.trigger c requestID) res k' :=
    fun k' res hop' hk' => .of_none (hop'.trans hop) hk' (by simp [ScheduleOperation.target])
      (by simp)
  -- the entry of the request is written to the store of the tenant
  have hentry : ∀ {p : RunRef × WorkflowExecution} (k' : ScheduleView), k'.op = k.op →
      k'.owes = false → Scheduling.follows r (if requestID = "" then pure p
        else do
          let _ ← attempt
            (onTenant c.tenant (put (.sctrig c.ns c.id requestID) (p.1.wf, p.1.run)))
          return p) (Ends r (.trigger c requestID)) k' := by
    intro p k' hop' hk'
    split_ifs
    · exact hends _ _ hop' hk'
    · rw [follows_bind, follows_attempt]
      exact follows_onTenant fun res => hends _ _ hop' hk'
  rw [triggerSchedule, follows_bind, follows_describeSchedule]
  intro o
  have hread := op_read (r := r) (c := c) (k := k) (o := o)
  cases o with
  | none => exact hends _ _ hread.1 (hread.2.trans hk)
  | some s =>
    dsimp only
    rw [follows_bind]
    refine priorTrigger_follows fun found => ?_
    cases found with
    | some p => exact hends _ _ hread.1 (hread.2.trans hk)
    | none =>
      dsimp only
      rw [follows_bind]
      refine follows_mono ?_ (startRun_follows (hread.2.trans hk))
      rintro (e | p) k' hk'
      · subst hk'
        exact hends _ _ hread.1 (hread.2.trans hk)
      · dsimp only at hk' ⊢
        subst hk'
        rw [follows_bind, follows_putSchedule]
        by_cases hc : c = r
        · simp only [if_pos hc]
          refine ⟨fun _ => ⟨s, rfl, turns_countedRow ?_ ?_ rfl⟩, ?_⟩
          · show k.op.setsState = none
            rw [hop]
            rfl
          · show k.op.setsSpec = none
            rw [hop]
            rfl
          · refine hentry _ ?_ ?_ <;> rfl
        · simp only [if_neg hc]
          exact ⟨fun h => absurd h hc, hentry _ rfl hk⟩

/-! ### The sweep -/

theorem collect_follows {ps : List String} (hps : ps.Nodup) :
    (collect ps).follows r (fun res k' => ∃ l, res = .ok l ∧ (l.map Prod.fst).Nodup ∧
      (∀ p ∈ l, p.1.tenant ∈ ps) ∧ (∀ s, (r, s) ∈ l → k'.row = some s) ∧
      k'.op = k.op ∧ k'.owes = k.owes ∧ (r.tenant ∉ ps → k' = k)) k := by
  induction ps generalizing k with
  | nil => exact ⟨[], rfl, by simp, by simp, by simp, rfl, rfl, fun _ => rfl⟩
  | cons tenant ps ih =>
    rw [List.nodup_cons] at hps
    rw [collect, follows_bind, follows_rowsOf]
    intro l hl
    dsimp only
    rw [follows_bind]
    refine follows_mono ?_ (ih hps.2)
    rintro res k' ⟨later, rfl, hnodup, htenants, hrow, hop, howes, hsame⟩
    refine ⟨l ++ later, rfl, ?_, ?_, ?_, ?_, ?_, ?_⟩
    · rw [List.map_append, List.nodup_append]
      refine ⟨hl.nodup, hnodup, ?_⟩
      rintro a ha b hb rfl
      obtain ⟨p, hp, rfl⟩ := List.mem_map.mp ha
      obtain ⟨q, hq, heq⟩ := List.mem_map.mp hb
      have hmem := htenants q hq
      rw [heq, hl.tenant p hp] at hmem
      exact hps.1 hmem
    · intro p hp
      rcases List.mem_append.mp hp with hp | hp
      · simp [hl.tenant p hp]
      · simp [htenants p hp]
    · intro s hs
      rcases List.mem_append.mp hs with hs | hs
      · have htenant : r.tenant = tenant := hl.tenant _ hs
        rw [hsame (htenant ▸ hps.1), if_pos htenant]
        exact Listing.lookup_of_nodup hl.nodup hs
      · exact hrow s hs
    · rw [hop]
      split_ifs <;> rfl
    · rw [howes]
      split_ifs <;> rfl
    · intro hr
      rw [List.mem_cons, not_or] at hr
      rw [hsame hr.2, if_neg hr.1]

theorem fire_follows {d : Due} (hop : k.op = .sweep) (hk : k.owes = false)
    (hrow : d.schedule = r → k.row = some d.row) :
    (fire cal now d).follows r (fun res k' => res = .ok () ∧ k'.op = .sweep ∧ k'.owes = false ∧
      (d.schedule ≠ r → k'.row = k.row)) k := by
  rw [fire, follows_bind, follows_attempt]
  refine follows_mono ?_ (startRun_follows hk)
  rintro (e | p) k' hk'
  · subst hk'
    dsimp only
    rw [follows_reportFire]
    exact ⟨rfl, hop, hk, fun _ => rfl⟩
  · dsimp only at hk' ⊢
    subst hk'
    rw [follows_bind, follows_reportFire]
    dsimp only
    rw [follows_putSchedule]
    by_cases hd : d.schedule = r
    · rw [if_pos hd, if_pos hd]
      exact ⟨fun _ => ⟨d.row, hrow hd, turns_anchored hop rfl⟩, rfl, hop, rfl,
        fun h => absurd hd h⟩
    · rw [if_neg hd, if_neg hd]
      exact ⟨fun h => absurd h hd, rfl, hop, hk, fun _ => rfl⟩

theorem fires_follows {ds : List Due} (hds : (ds.map Due.schedule).Nodup) (hop : k.op = .sweep)
    (hk : k.owes = false) (hrow : ∀ d ∈ ds, d.schedule = r → k.row = some d.row) :
    (ds.forM (fire cal now)).follows r (fun _ k' => k'.op = .sweep ∧ k'.owes = false) k := by
  induction ds generalizing k with
  | nil => exact ⟨hop, hk⟩
  | cons d ds ih =>
    rw [List.map_cons, List.nodup_cons] at hds
    change (fire cal now d >>= fun _ => ds.forM (fire cal now)).follows r _ k
    rw [follows_bind]
    refine follows_mono ?_ (fire_follows hop hk (hrow d (by simp)))
    rintro res k' ⟨rfl, hop', hk', hsame⟩
    refine ih hds.2 hop' hk' fun d' hd' hr => ?_
    have hne : d.schedule ≠ r := by
      rintro rfl
      exact hds.1 (hr ▸ List.mem_map_of_mem hd')
    rw [hsame hne]
    exact hrow d' (by simp [hd']) hr

theorem sweepSchedules_follows (hop : k.op = .sweep) (hk : k.owes = false) :
    (sweepSchedules cal now).follows r (Ends r .sweep) k := by
  rw [sweepSchedules, follows_bind, follows_tenants]
  intro ps hps
  dsimp only
  rw [follows_bind]
  refine follows_mono ?_ (collect_follows hps)
  rintro res k' ⟨l, rfl, hnodup, -, hrow, hop', hk', -⟩
  refine follows_mono ?_ (fires_follows (nodup_due hnodup) (hop'.trans hop) (hk'.trans hk) ?_)
  · rintro res k'' ⟨hop'', hk''⟩
    exact .of_none hop'' hk'' (by simp [ScheduleOperation.target]) (by simp)
  · rintro d hd rfl
    obtain ⟨⟨c, s⟩, hmem, hd⟩ := List.mem_filterMap.mp hd
    obtain ⟨rfl, rfl⟩ := due_eq hd
    exact hrow _ hmem

end Functions

/-- Every operation follows the protocol, if it does not create the schedule. -/
theorem call_follows {cal : Calendar} {now : Int} {r : ScheduleRef} {op : ScheduleOperation}
    (hop : ∀ s, op ≠ .create r s) :
    (op.call cal now).conforms (scheduleProtocol r) (Ends r op) { op := op } := by
  have htold : ∀ {α : Type} {x : Scheduling α}, x.follows r (Ends r op) { op := op } →
      (told x).conforms (scheduleProtocol r) (Ends r op) { op := op } := by
    intro α x hx
    rw [told, Program.conforms_bind]
    refine Program.conforms_mono ?_ _ hx
    rintro (e | a) k hends
    · exact .of_error hends.same hends.settled
    · exact ⟨hends.same, hends.settled, fun h _ => hends.wrote h ⟨a, rfl⟩,
        fun h _ => hends.deleted h ⟨a, rfl⟩⟩
  cases op with
  | create c s =>
    refine htold (createSchedule_follows rfl rfl ?_)
    rintro rfl
    exact hop s rfl
  | delete c => exact htold (deleteSchedule_follows rfl rfl)
  | pause c paused note => exact htold (pauseSchedule_follows rfl rfl)
  | update c new => exact htold (updateSchedule_follows rfl rfl)
  | trigger c requestID => exact htold (triggerSchedule_follows rfl rfl)
  | sweep => exact htold (sweepSchedules_follows rfl rfl)

/-! ## The invariant -/

/-- The row has the state of the last pause or update that wrote it, and the spec
and the action of the last update; where there is none, those of `s₀`. -/
structure InForce (s₀ : Schedule) (ops : I → ScheduleOperation) (writers : List I)
  (s : Schedule) : Prop where
  state : s.state = (writers.findSome? fun i => (ops i).setsState).getD s₀.state
  spec : (s.spec, s.action) =
    (writers.findSome? fun i => (ops i).setsSpec).getD (s₀.spec, s₀.action)

def runsOf (h : Host) (r : ScheduleRef) : Nat := (h.account r).fires.length

theorem runsOf_started (h : Host) (f : Fire) (r : ScheduleRef) :
    runsOf { h with fires := h.fires ++ [f] } r =
      runsOf h r + if f.schedule = r then 1 else 0 := by
  simp only [runsOf, Host.account, List.filter_append, List.length_append]
  split_ifs with hf <;> simp [hf]

omit [DecidableEq I] in
theorem getD_findSome?_cons {β : Type} (f : I → Option β) (i : I) (l : List I) (b : β) :
    ((i :: l).findSome? f).getD b = (f i).getD ((l.findSome? f).getD b) := by
  rw [List.findSome?_cons]
  cases f i <;> rfl

/-- What a thread knows of the schedule is so. -/
structure Knows (r : ScheduleRef) (op : ScheduleOperation) (s : SharedHost I) (i : I)
  (k : ScheduleView) : Prop where
  same : k.op = op
  known : s.current i = true → s.host.row r = k.row
  wrote : k.wrote = true → i ∈ s.writers
  deleted : k.deleted = true → s.host.row r = none
  owes : k.owes = true ↔ i ∈ s.owing

structure ScheduleInv (r : ScheduleRef) (h₀ : Host) (s₀ : Schedule) (ops : I → ScheduleOperation)
  (s : SharedHost I) (know : I → ScheduleView) : Prop where
  knows : ∀ i, Knows r (ops i) s i (know i)
  once : s.owing.Nodup
  stands : ∀ c, s.host.row r = some c → InForce s₀ ops s.writers c
  counted : ∀ c, s.host.row r = some c →
    c.info.actionCount + s.owing.length =
      s₀.info.actionCount + (runsOf s.host r - runsOf h₀ r : Int)

namespace ScheduleInv

variable {r : ScheduleRef} {h₀ : Host} {s₀ : Schedule} {ops : I → ScheduleOperation}
  {s s' : SharedHost I} {know : I → ScheduleView} {i : I}

/-- An access that leaves the row and the runs alone. What the thread knows of
the row afterwards is what is stored, or what it knew before. -/
theorem read {o : Option Schedule} (h : ScheduleInv r h₀ s₀ ops s know)
    (hrow : s'.host.row r = s.host.row r) (hruns : runsOf s'.host r = runsOf s.host r)
    (hwriters : s'.writers = s.writers) (howing : s'.owing = s.owing)
    (hcurrent : ∀ j, j ≠ i → s'.current j = s.current j)
    (hknown : s'.current i = true → s.host.row r = o) :
    ScheduleInv r h₀ s₀ ops s' (Function.update know i { know i with row := o }) := by
  refine ⟨(Function.forall_update_iff know _).mpr ⟨?_, fun j hj => ?_⟩, ?_, ?_, ?_⟩
  · have hi := h.knows i
    exact ⟨hi.same, hrow ▸ hknown, hwriters ▸ hi.wrote, hrow ▸ hi.deleted, howing ▸ hi.owes⟩
  · have hk := h.knows j
    exact ⟨hk.same, hrow ▸ hcurrent j hj ▸ hk.known, hwriters ▸ hk.wrote, hrow ▸ hk.deleted,
      howing ▸ hk.owes⟩
  · exact howing ▸ h.once
  · exact hrow ▸ hwriters ▸ h.stands
  · exact hrow ▸ howing ▸ hruns ▸ h.counted

theorem frame (h : ScheduleInv r h₀ s₀ ops s know) (hrow : s'.host.row r = s.host.row r)
    (hruns : runsOf s'.host r = runsOf s.host r) (hwriters : s'.writers = s.writers)
    (howing : s'.owing = s.owing) (hcurrent : s'.current = s.current) :
    ScheduleInv r h₀ s₀ ops s' (Function.update know i (know i)) :=
  h.read hrow hruns hwriters howing (fun _ _ => by rw [hcurrent])
    (hcurrent ▸ (h.knows i).known)

/-- The row is written by a thread that knows what is stored. -/
theorem put (h : ScheduleInv r h₀ s₀ ops s know) {old new : Schedule}
    (hold : (know i).row = some old) (hturns : (know i).Turns old new)
    (hcurrent : s.current i = true) :
    ScheduleInv r h₀ s₀ ops (s.after r i (.put r new))
      (Function.update know i { know i with row := some new, owes := false, wrote := true }) := by
  have hrow : s.host.row r = some old := ((h.knows i).known hcurrent).trans hold
  have hnew : (s.after r i (.put r new)).host.row r = some new := Host.row_insert_self
  have hwriters : (s.after r i (.put r new)).writers = i :: s.writers := if_pos rfl
  have howing : (s.after r i (.put r new)).owing = s.owing.erase i := if_pos rfl
  have hdeleted : ∀ j, (know j).deleted ≠ true := by
    intro j hj
    rw [(h.knows j).deleted hj] at hrow
    cases hrow
  refine ⟨(Function.forall_update_iff know _).mpr ⟨?_, fun j hj => ?_⟩, ?_, ?_, ?_⟩
  · refine ⟨(h.knows i).same, fun _ => hnew, fun _ => ?_, fun hd => absurd hd (hdeleted i), ?_⟩
    · simp [hwriters]
    · simp [howing, h.once.not_mem_erase]
  · have hk := h.knows j
    refine ⟨hk.same, fun hc => ?_, fun hw => ?_, fun hd => absurd hd (hdeleted j), ?_⟩
    · exact absurd (by simpa [SharedHost.after, SharedHost.watch] using hc) hj
    · exact hwriters ▸ List.mem_cons_of_mem i (hk.wrote hw)
    · rw [howing, List.mem_erase_of_ne hj]
      exact hk.owes
  · rw [howing]
    exact h.once.erase i
  · intro c hc
    obtain rfl : new = c := Option.some.inj (hnew.symm.trans hc)
    have hforce := h.stands old hrow
    rw [hwriters]
    refine ⟨?_, ?_⟩
    · rw [getD_findSome?_cons, ← hforce.state, ← (h.knows i).same]
      exact hturns.state
    · rw [getD_findSome?_cons, ← hforce.spec, ← (h.knows i).same]
      exact hturns.spec
  · intro c hc
    obtain rfl : new = c := Option.some.inj (hnew.symm.trans hc)
    have hcount := h.counted old hrow
    change new.info.actionCount + ((s.after r i (.put r new)).owing.length : Int) =
      s₀.info.actionCount + (runsOf s.host r - runsOf h₀ r : Int)
    rw [howing, hturns.count, ← hcount]
    by_cases hi : (know i).owes = true
    · have hmem := (h.knows i).owes.mp hi
      have hpos := List.length_pos_of_mem hmem
      rw [if_pos hi, List.length_erase_of_mem hmem]
      omega
    · have hmem : i ∉ s.owing := fun hmem => hi ((h.knows i).owes.mpr hmem)
      rw [if_neg hi, List.erase_of_not_mem hmem, add_zero]

theorem del (h : ScheduleInv r h₀ s₀ ops s know) :
    ScheduleInv r h₀ s₀ ops (s.after r i (.del r))
      (Function.update know i { know i with row := none, deleted := true }) := by
  have hrow : (s.after r i (.del r)).host.row r = none := Host.row_erase_self
  refine ⟨(Function.forall_update_iff know _).mpr ⟨?_, fun j hj => ?_⟩, h.once, ?_, ?_⟩
  · have hi := h.knows i
    exact ⟨hi.same, fun _ => hrow, hi.wrote, fun _ => hrow, hi.owes⟩
  · have hk := h.knows j
    refine ⟨hk.same, fun hc => ?_, hk.wrote, fun _ => hrow, hk.owes⟩
    exact absurd (by simpa [SharedHost.after, SharedHost.watch] using hc) hj
  · simp [hrow]
  · simp [hrow]

theorem started (h : ScheduleInv r h₀ s₀ ops s know) {f : Fire} (hf : f.schedule = r)
    (hidle : (know i).owes = false) :
    ScheduleInv r h₀ s₀ ops (s.after r i (.started f))
      (Function.update know i { know i with owes := true }) := by
  have howing : (s.after r i (.started f)).owing = i :: s.owing := if_pos hf
  have hmem : i ∉ s.owing := by
    intro hmem
    rw [(h.knows i).owes.mpr hmem] at hidle
    cases hidle
  refine ⟨(Function.forall_update_iff know _).mpr ⟨?_, fun j hj => ?_⟩, ?_, h.stands, ?_⟩
  · have hi := h.knows i
    exact ⟨hi.same, hi.known, hi.wrote, hi.deleted, by simp [howing]⟩
  · have hk := h.knows j
    exact ⟨hk.same, hk.known, hk.wrote, hk.deleted, by simp [howing, hj, hk.owes]⟩
  · rw [howing]
    exact h.once.cons hmem
  · intro c hc
    have hcount := h.counted c hc
    have hruns : runsOf (s.after r i (.started f)).host r = runsOf s.host r + 1 := by
      show runsOf { s.host with fires := s.host.fires ++ [f] } r = _
      rw [runsOf_started, if_pos hf]
    rw [howing, hruns, List.length_cons]
    push_cast
    omega

/-- Every access a thread makes on the ground of what it knows keeps the
invariant, if it is attentive. -/
theorem keep (h : ScheduleInv r h₀ s₀ ops s know) {e : HostEffect}
    (hguard : (know i).guard r e) (hattentive : s.attentive r i e = true) :
    ScheduleInv r h₀ s₀ ops (s.after r i e)
      (Function.update know i ((know i).learn r e (hostHandler e s.host).1)) := by
  cases e with
  | workflow tenant e => exact h.frame rfl rfl rfl rfl rfl
  | tenants => exact h.frame rfl rfl rfl rfl rfl
  | rowsOf tenant =>
    by_cases ht : r.tenant = tenant
    · subst ht
      simp only [ScheduleView.learn, hostHandler, if_true, lookup_rowsOf]
      refine h.read rfl rfl rfl rfl (fun j hj => ?_) fun _ => rfl
      simp [SharedHost.after, SharedHost.watch, hj]
    · simp only [ScheduleView.learn, hostHandler, if_neg ht]
      exact h.frame rfl rfl rfl rfl (if_neg ht)
  | get c =>
    by_cases hc : c = r
    · subst hc
      simp only [ScheduleView.learn, hostHandler, if_true]
      refine h.read rfl rfl rfl rfl (fun j hj => ?_) fun _ => rfl
      simp [SharedHost.after, SharedHost.watch, hj]
    · simp only [ScheduleView.learn, hostHandler, if_neg hc]
      exact h.frame rfl rfl rfl rfl (if_neg hc)
  | put c new =>
    by_cases hc : c = r
    · subst hc
      obtain ⟨old, hold, hturns⟩ := hguard rfl
      simp only [ScheduleView.learn, if_true]
      exact h.put hold hturns (by simpa [SharedHost.attentive] using hattentive)
    · simp only [ScheduleView.learn, if_neg hc]
      exact h.frame (Host.row_insert_of_ne (Ne.symm hc)) rfl (if_neg hc) (if_neg hc) (if_neg hc)
  | del c =>
    by_cases hc : c = r
    · subst hc
      simp only [ScheduleView.learn, if_true]
      exact h.del
    · simp only [ScheduleView.learn, if_neg hc]
      exact h.frame (Host.row_erase_of_ne (Ne.symm hc)) rfl rfl rfl (if_neg hc)
  | started f =>
    by_cases hf : f.schedule = r
    · simp only [ScheduleView.learn, if_pos hf]
      exact h.started hf (hguard hf)
    · simp only [ScheduleView.learn, if_neg hf]
      refine h.frame rfl ?_ rfl (if_neg hf) rfl
      show runsOf { s.host with fires := s.host.fires ++ [f] } r = _
      rw [runsOf_started, if_neg hf, Nat.add_zero]
  | reportFire c failed => exact h.frame rfl rfl rfl rfl rfl

end ScheduleInv

theorem access_eq_some {r : ScheduleRef} {i : I} {e : HostEffect} {s s' : SharedHost I}
    {a : e.Answer} (h : SharedHost.access r i e s = some (a, s')) :
    a = (hostHandler e s.host).1 ∧ s' = s.after r i e := by
  obtain ⟨rfl, rfl⟩ := Prod.mk.inj (Option.some.inj h)
  exact ⟨rfl, rfl⟩

/-- However sweeps and calls are interleaved, as long as the row is written only
by threads that have read it since another thread wrote or deleted it: once a
delete has returned the schedule is gone, a pause or an update that has returned
is in force until another one writes the row, and when all have returned every
run that was started is counted. -/
theorem sweep_undoes_nothing {cal : Calendar} {r : ScheduleRef} {h : Host} {s₀ : Schedule}
    (hrow : h.row r = some s₀) {times : I → Int} {ops : I → ScheduleOperation}
    (hops : ∀ i s, ops i ≠ .create r s)
    {p : Pool I HostEffect HostEffect.Answer (SharedHost I) (Except String Unit)}
    (hreach : Pool.Reaches (SharedHost.access r) (fun s i e => s.attentive r i e = true)
      (together cal h times ops) p) :
    (∀ i, ops i = .delete r → (p.code i).succeeded = true → p.world.host.row r = none) ∧
      (∀ i, (ops i).target = some r → (p.code i).succeeded = true → i ∈ p.world.writers) ∧
      ∀ s, p.world.host.row r = some s → InForce s₀ ops p.world.writers s ∧
        (p.Finished → s.info.actionCount - s₀.info.actionCount =
          (runsOf p.world.host r - runsOf h r : Int)) := by
  have hinit : ScheduleInv r h s₀ ops (together cal h times ops).world
      fun i => { op := ops i } := by
    refine ⟨fun i => ?_, List.nodup_nil, ?_, ?_⟩
    · constructor <;> simp [together]
    · intro c hc
      obtain rfl : s₀ = c := Option.some.inj (hrow.symm.trans hc)
      exact ⟨rfl, rfl⟩
    · intro c hc
      obtain rfl : s₀ = c := Option.some.inj (hrow.symm.trans hc)
      simp [together]
  obtain ⟨know, hinv, hconf⟩ := Pool.invariant (T := scheduleProtocol r)
    (Q := fun i (res : Except String Unit) (k : ScheduleView) => Ends r (ops i) res k)
    (fun {i e s a s'} hact => by
      obtain ⟨rfl, -⟩ := access_eq_some hact
      exact hostHandler_sound e s.host)
    (fun {s know i e a s'} hinv hguard hP hact => by
      obtain ⟨rfl, rfl⟩ := access_eq_some hact
      exact hinv.keep hguard hP)
    hreach hinit fun i => call_follows (hops i)
  have hends : ∀ i, (p.code i).succeeded = true →
      Ends r (ops i) (.ok () : Except String Unit) (know i) := by
    intro i hok
    obtain ⟨_, hi⟩ := (hconf i).of_succeeded hok
    exact hi
  refine ⟨?_, ?_, fun s hs => ⟨hinv.stands s hs, fun hfin => ?_⟩⟩
  · intro i hop hok
    exact (hinv.knows i).deleted ((hends i hok).deleted hop ⟨_, rfl⟩)
  · intro i hop hok
    exact (hinv.knows i).wrote ((hends i hok).wrote hop ⟨_, rfl⟩)
  · have hsettled : p.world.owing = [] := by
      refine List.eq_nil_iff_forall_not_mem.mpr fun i hi => ?_
      have howes := (hinv.knows i).owes.mpr hi
      have hnot : (know i).owes = false :=
        Pool.Finished.know (Q := fun _ k => k.owes = false) hfin
          (fun j => Program.conforms_mono (fun _ _ h => h.settled) _ (hconf j)) i
      rw [hnot] at howes
      cases howes
    have hcount := hinv.counted s hs
    rw [hsettled, List.length_nil] at hcount
    omega

def reportHost : Host := freshHost.after minutely 0 (.create report (everyMinute false))

def besideSweep (op : ScheduleOperation) : Bool → ScheduleOperation
  | true => .sweep
  | false => op

def sweepAndCall (op : ScheduleOperation) :
    Pool Bool HostEffect HostEffect.Answer (SharedHost Bool) (Except String Unit) :=
  together minutely reportHost (fun _ => 61 * second) (besideSweep op)

/-- What is left of the schedule: whether it is paused, its count of actions, and
the runs that were started; and whether the sweep and the call have returned. -/
def reported (p : Pool Bool HostEffect HostEffect.Answer (SharedHost Bool) (Except String Unit)) :
    Option (Bool × Int) × Nat × Bool × Bool :=
  ((p.world.host.row report).map fun s => (s.state.paused, s.info.actionCount),
    runsOf p.world.host report, (p.code true).succeeded, (p.code false).succeeded)

/-- The sweep fires the schedule before a pause. -/
theorem sweep_undoes_nothing_pause :
    ∃ p s s₀, Pool.Reaches (SharedHost.access report)
        (fun s i e => SharedHost.attentive report s i e = true)
        (sweepAndCall (.pause report true "")) p ∧
      p.world.host.row report = some s ∧ s.info.actionCount = 1 ∧ false ∈ p.world.writers ∧
      InForce s₀ (besideSweep (.pause report true "")) p.world.writers s := by
  have hrun : (Pool.exec (SharedHost.access report) (SharedHost.attentive report)
      (List.replicate 23 true ++ List.replicate 2 false)
      (sweepAndCall (.pause report true ""))).map reported =
        some (some (true, 1), 1, true, true) := by
    decide +kernel
  obtain ⟨p, hreach, hobs⟩ := Pool.observed (fun _ _ _ h => h) _ hrun
  obtain ⟨hleft, hcalls⟩ := Prod.mk.inj hobs
  obtain ⟨s, hs, hcount⟩ := Option.map_eq_some_iff.mp hleft
  obtain ⟨s₀, hs₀⟩ : ∃ s₀, reportHost.row report = some s₀ :=
    Option.isSome_iff_exists.mp (by decide +kernel)
  have hall := sweep_undoes_nothing hs₀ (fun i s => by cases i <;> simp [besideSweep]) hreach
  have hdone : (p.code false).succeeded = true := (Prod.mk.inj (Prod.mk.inj hcalls).2).2
  exact ⟨p, s, s₀, hreach, hs, (Prod.mk.inj hcount).2, hall.2.1 false rfl hdone, (hall.2.2 s hs).1⟩

/-- Without such care the sweep writes back the row it has listed: a schedule is
there although its delete has returned, it is not paused although its pause has
returned, and it counts one action although the sweep and a trigger have started
two runs. -/
theorem sweep_undoes_calls :
    (∃ p, Pool.Reaches (SharedHost.access report) (fun _ _ _ => True)
      (sweepAndCall (.delete report)) p ∧ reported p = (some (false, 1), 1, true, true)) ∧
    (∃ p, Pool.Reaches (SharedHost.access report) (fun _ _ _ => True)
      (sweepAndCall (.pause report true "")) p ∧ reported p = (some (false, 1), 1, true, true)) ∧
    ∃ p, Pool.Reaches (SharedHost.access report) (fun _ _ _ => True)
      (sweepAndCall (.trigger report "")) p ∧ reported p = (some (false, 1), 2, true, true) := by
  -- each time the sweep has listed the row when the call is made
  refine ⟨Pool.observed_any ([true, true] ++ [false] ++ List.replicate 21 true) ?_,
    Pool.observed_any ([true, true] ++ [false, false] ++ List.replicate 21 true) ?_,
    Pool.observed_any ([true, true] ++ List.replicate 21 false ++ List.replicate 18 true) ?_⟩
  · decide +kernel
  · decide +kernel
  · decide +kernel

end Schedules

end DurableTasks
