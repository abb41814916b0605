import DurableTasks.Schedules.Specs

/-!
Sequences of sweeps and calls. The anchor of a schedule moves to the time of
every fire and of every call, so fires do not come in a storm, and the ticks
between a fire and a later call are lost.
-/

namespace DurableTasks

open Std Effects

def Host.after (cal : Calendar) (now : Int) (op : Schedules.ScheduleOperation) (h : Host) : Host :=
  ((op.program cal now).run hostHandler h).2

namespace Schedules

variable {cal : Calendar} {now t T : Int} {r : ScheduleRef} {s s' : Schedule} {d : Due}

def anchorOf (s : Schedule) : Option Int := s.info.updateTime <|> s.info.createTime

theorem anchorTime_eq {k : Int} (h : anchorOf s = some k) (fallback : Int) :
    anchorTime s fallback = k * second := by
  unfold anchorOf at h
  unfold anchorTime
  rw [h]

@[simp] theorem spec_withNext : (withNext cal now s).spec = s.spec := by
  unfold withNext
  cases nextScheduleFire cal s.spec now <;> rfl

@[simp] theorem state_withNext : (withNext cal now s).state = s.state := by
  unfold withNext
  cases nextScheduleFire cal s.spec now <;> rfl

@[simp] theorem anchorOf_withNext : anchorOf (withNext cal now s) = anchorOf s := by
  unfold withNext anchorOf
  cases nextScheduleFire cal s.spec now <;> rfl

@[simp] theorem spec_anchored : (anchored cal now s).spec = s.spec := by
  simp [anchored, countedRow]

@[simp] theorem state_anchored : (anchored cal now s).state = s.state := by
  simp [anchored, countedRow]

@[simp] theorem anchorOf_anchored : anchorOf (anchored cal now s) = some (seconds now) := by
  rw [anchored, anchorOf_withNext]
  rfl

theorem anchorOf_createdRow :
    anchorOf (createdRow cal now s) = some (s.info.updateTime.getD (seconds now)) := by
  rw [createdRow, anchorOf_withNext, anchorOf]
  cases s.info.updateTime <;> rfl

theorem seconds_mono (h : t ≤ now) : seconds t ≤ seconds now :=
  Int.ediv_le_ediv (by decide) h

theorem seconds_mul_le : seconds t * second ≤ t := Int.ediv_mul_le t (by decide)

theorem lt_succ_seconds : t < (seconds t + 1) * second := by
  simp only [seconds, second]
  omega

theorem due_iff : due cal now (r, s) = some d ↔
    s.state.paused = false ∧ nextScheduleFire cal s.spec (anchorTime s now) = some d.tick ∧
      d.tick ≤ now ∧ d = ⟨r, s, d.tick⟩ := by
  simp only [due]
  cases hp : s.state.paused with
  | true => simp
  | false => grind

/-! ## No storm -/

theorem account_create {h : Host} (hid : r.id ≠ "") (hns : r.ns ≠ "") :
    (h.after cal now (.create r s)).account r =
      { h.account r with row := some (createdRow cal now s) } := by
  have hout : (h.after cal now (.create r s)).account r = _ :=
    operation_outcome cal now (.create r s) h r
  rwa [if_pos ⟨rfl, hid, hns⟩] at hout

def ticks (l : List Fire) : List Int := l.filterMap Fire.tick

/-- A schedule since it was created, with the runs `base` started for it before:
the ticks of its own runs increase, up to the second it is anchored at and to the
one of the last operation. -/
structure Steady (cal : Calendar) (base : List Fire) (t : Int) (a : Account) (s : Schedule)
  (k : Int) (l : List Fire) : Prop where
  row : a.row = some s
  spec : Unhurried cal s.spec
  anchor : anchorOf s = some k
  fires : a.fires = base ++ l
  increasing : (ticks l).Pairwise (· < ·)
  anchored : ∀ x ∈ ticks l, x ≤ k
  past : ∀ x ∈ ticks l, x ≤ seconds t

namespace Steady

variable {base l : List Fire} {a a' : Account} {k : Int}

/-- A call that leaves another row, anchored at its time, and starts no run for a
tick. -/
theorem reanchor (h : Steady cal base t a s k l) (ht : t ≤ now) (hrow : a'.row = some s')
    (hspec : Unhurried cal s'.spec) (hanchor : anchorOf s' = some (seconds now)) {l' : List Fire}
    (hfires : a'.fires = base ++ l') (hl : ticks l' = ticks l) :
    Steady cal base now a' s' (seconds now) l' := by
  have hpast : ∀ x ∈ ticks l', x ≤ seconds now := by
    rw [hl]
    exact fun x hx => Int.le_trans (h.past x hx) (seconds_mono ht)
  exact ⟨hrow, hspec, hanchor, hfires, hl ▸ h.increasing, hpast, hpast⟩

theorem later (h : Steady cal base t a s k l) (ht : t ≤ now) : Steady cal base now a s k l :=
  { h with past := fun x hx => Int.le_trans (h.past x hx) (seconds_mono ht) }

/-- What is due is due for a tick after those of the runs before. -/
theorem tick_gt (h : Steady cal base t a s k l) (hcal : WholeSeconds cal)
    (hd : due cal now (r, s) = some d) {x : Int} (hx : x ∈ ticks l) : x < seconds d.tick := by
  obtain ⟨-, hnext, -⟩ := due_iff.mp hd
  rw [anchorTime_eq h.anchor] at hnext
  have hle := second_le_next hcal h.spec hnext
  have hk := h.anchored x hx
  have hsec : (k + 1) ≤ seconds d.tick := by
    rw [seconds, Int.le_ediv_iff_mul_le (by decide)]
    exact hle
  omega

theorem fired (h : Steady cal base t a s k l) (hcal : WholeSeconds cal) (ht : t ≤ now)
    (hd : due cal now (r, s) = some d) (run : RunRef) :
    Steady cal base now
      { a with
        row := some (Schedules.anchored cal now d.row)
        fires := a.fires ++ [⟨d.schedule, some (seconds d.tick), run⟩] }
      (Schedules.anchored cal now d.row) (seconds now)
      (l ++ [⟨d.schedule, some (seconds d.tick), run⟩]) := by
  obtain ⟨-, rfl⟩ := due_eq hd
  have hle : seconds d.tick ≤ seconds now := seconds_mono (due_iff.mp hd).2.2.1
  have hticks : ∀ x ∈ ticks (l ++ [⟨d.schedule, some (seconds d.tick), run⟩]),
      x ≤ seconds now := by
    intro x hx
    simp only [ticks, List.filterMap_append, List.mem_append] at hx
    rcases hx with hx | hx
    · exact Int.le_trans (h.past x hx) (seconds_mono ht)
    · simp only [List.filterMap_cons, List.filterMap_nil, List.mem_singleton] at hx
      exact hx ▸ hle
  refine ⟨rfl, by simpa using h.spec, by simp, by simp [h.fires], ?_, hticks, hticks⟩
  simp only [ticks, List.filterMap_append]
  refine List.pairwise_append.mpr ⟨h.increasing, by simp, fun x hx y hy => ?_⟩
  simp only [List.filterMap_cons, List.filterMap_nil, List.mem_singleton] at hy
  exact hy ▸ h.tick_gt hcal hd hx

end Steady

def ScheduleOperation.Avoids (r : ScheduleRef) : ScheduleOperation → Prop
  | create c _ => c ≠ r
  | delete c => c ≠ r
  | pause c _ _ => c ≠ r
  | update c _ => c ≠ r
  | trigger c _ => c ≠ r
  | sweep => False

theorem ScheduleOperation.Avoids.outcome {op : ScheduleOperation} (hop : op.Avoids r)
    {a a' : Account} (hout : op.Outcome cal now r a a') : a' = a := by
  cases op with
  | create c s => exact hout.trans (if_neg fun hc => hop hc.1)
  | delete c => exact hout.trans (if_neg hop)
  | pause c paused note => exact hout.trans (if_neg hop)
  | update c new => exact hout.trans (if_neg hop)
  | trigger c requestID =>
    simp only [ScheduleOperation.Outcome] at hout
    rwa [if_neg hop] at hout
  | sweep => exact hop.elim

/-- The operation is no creation or deletion of `r`, and no update of it to a
spec with shorter intervals than a second. -/
def ScheduleOperation.Keeps (cal : Calendar) (r : ScheduleRef) : ScheduleOperation → Prop
  | create c _ => c ≠ r
  | delete c => c ≠ r
  | update c new => c = r → Unhurried cal new.spec
  | _ => True

theorem steady_step {base l : List Fire} {a a' : Account} {k : Int} (hcal : WholeSeconds cal)
    (ht : t ≤ now) {op : ScheduleOperation} (hop : op.Keeps cal r)
    (hout : op.Outcome cal now r a a') (h : Steady cal base t a s k l) :
    ∃ s' k' l', Steady cal base now a' s' k' l' := by
  have hsame : a' = a → ∃ s' k' l', Steady cal base now a' s' k' l' := by
    rintro rfl
    exact ⟨s, k, l, h.later ht⟩
  cases op with
  | create c new =>
    refine hsame (hout.trans (if_neg ?_))
    exact fun hc => hop hc.1
  | delete c => exact hsame (hout.trans (if_neg hop))
  | pause c paused note =>
    by_cases hc : c = r
    · refine ⟨pausedRow now paused note s, seconds now, l, h.reanchor ht ?_ ?_ rfl ?_ rfl⟩
      · rw [hout, if_pos hc, h.row]
        rfl
      · exact h.spec
      · rw [hout, if_pos hc]
        exact h.fires
    · exact hsame (hout.trans (if_neg hc))
  | update c new =>
    by_cases hc : c = r
    · refine ⟨updatedRow cal now new s, seconds now, l, h.reanchor ht ?_ ?_ ?_ ?_ rfl⟩
      · rw [hout, if_pos hc, h.row]
        rfl
      · simpa [updatedRow] using hop hc
      · rw [updatedRow, anchorOf_withNext]
        rfl
      · rw [hout, if_pos hc]
        exact h.fires
    · exact hsame (hout.trans (if_neg hc))
  | trigger c requestID =>
    simp only [ScheduleOperation.Outcome] at hout
    split_ifs at hout
    · cases hout with
      | idle => exact hsame rfl
      | fired hs run =>
        obtain rfl := Option.some.inj (h.row.symm.trans hs)
        refine ⟨countedRow now s, seconds now, l ++ [⟨r, none, run⟩],
          h.reanchor ht rfl ?_ rfl ?_ ?_⟩
        · exact h.spec
        · rw [h.fires, List.append_assoc]
        · simp [ticks]
    · exact hsame hout
  | sweep =>
    simp only [ScheduleOperation.Outcome, SweepOutcome, h.row, Option.bind_some] at hout
    cases hd : due cal now (r, s) with
    | none =>
      rw [hd] at hout
      exact hsame hout
    | some d =>
      rw [hd] at hout
      cases hout with
      | failed => exact ⟨s, k, l, { h.later ht with }⟩
      | fired run => exact ⟨_, _, _, h.fired hcal ht hd run⟩

/-- Where operations lead at times that do not decrease, from the host `h₁` at the
time `c`, with the time of the last of them. -/
inductive Since (cal : Calendar) (r : ScheduleRef) (c : Int) (h₁ : Host) : Int → Host → Prop
  | start : Since cal r c h₁ c h₁
  | step {t now : Int} {h : Host} {op : ScheduleOperation} (hs : Since cal r c h₁ t h)
      (ht : t ≤ now) (hop : op.Keeps cal r) : Since cal r c h₁ now (h.after cal now op)

structure CalmSweep (cal : Calendar) (now : Int) (r : ScheduleRef) (h h' : Host) : Prop where
  /-- It starts at most one run. -/
  one : ∃ l, (h'.account r).fires = (h.account r).fires ++ l ∧ l.length ≤ 1
  /-- Where it starts one, nothing is due any more at the same instant. -/
  settled : (h'.account r).fires ≠ (h.account r).fires →
    ∀ s, h'.row r = some s → due cal now (r, s) = none
  paused : ∀ s, h.row r = some s → s.state.paused = true →
    (h'.account r).fires = (h.account r).fires
  /-- Where it starts none, a failed start among those cases, the row stays. -/
  failed : (h'.account r).fires = (h.account r).fires → h'.row r = h.row r

theorem due_anchored (hcal : WholeSeconds cal) (hspec : Unhurried cal s.spec) :
    due cal now (r, anchored cal now s) = none := by
  cases hd : due cal now (r, anchored cal now s) with
  | none => rfl
  | some d =>
    obtain ⟨-, hnext, hle, -⟩ := due_iff.mp hd
    rw [anchorTime_eq anchorOf_anchored, spec_anchored] at hnext
    have hlater := second_le_next hcal hspec hnext
    have hlt : now < (seconds now + 1) * second := lt_succ_seconds
    omega

theorem calmSweep {h : Host} (hcal : WholeSeconds cal)
    (hspec : ∀ s, h.row r = some s → Unhurried cal s.spec) :
    CalmSweep cal now r h (h.after cal now .sweep) := by
  have hout := operation_outcome cal now .sweep h r
  change SweepOutcome cal now r (h.account r) ((h.after cal now .sweep).account r) at hout
  have hrow : ∀ h : Host, (h.account r).row = h.row r := fun _ => rfl
  unfold SweepOutcome at hout
  cases hdue : (h.account r).row.bind fun s => due cal now (r, s) with
  | none =>
    rw [hdue] at hout
    refine ⟨⟨[], by simp [hout], by simp⟩, ?_, ?_, ?_⟩
    · rw [hout]
      exact fun hne => absurd rfl hne
    · rw [hout]
      exact fun _ _ _ => rfl
    · rw [← hrow, ← hrow h, hout]
      exact fun _ => rfl
  | some d =>
    rw [hdue] at hout
    obtain ⟨s, hs, hd⟩ := Option.bind_eq_some_iff.mp hdue
    have hunpaused := (due_iff.mp hd).1
    generalize hacc : (h.after cal now .sweep).account r = a' at hout
    cases hout with
    | failed =>
      refine ⟨⟨[], by simp [hacc], by simp⟩, ?_, ?_, ?_⟩
      · rw [hacc]
        exact fun hne => absurd rfl hne
      · rw [hacc]
        exact fun _ _ _ => rfl
      · rw [← hrow, ← hrow h, hacc]
        exact fun _ => rfl
    | fired run =>
      refine ⟨⟨_, by rw [hacc], by simp⟩, ?_, ?_, ?_⟩
      · rw [← hrow, hacc]
        intro _ s' hs'
        obtain rfl := Option.some.inj hs'
        rw [(due_eq hd).2]
        exact due_anchored hcal (hspec s hs)
      · grind
      · rw [hacc]
        intro heq
        simp at heq

theorem row_of_idle {a a' : Account} (hout : TriggerOutcome now r a a')
    (hfires : a'.fires = a.fires) : a'.row = a.row := by
  cases hout with
  | idle => rfl
  | fired hs run => simp at hfires

/-- A schedule between its creation and its deletion does not storm, and a trigger
that starts no run leaves its row as it is. -/
theorem schedules_do_not_storm (cal : Calendar) (hcal : WholeSeconds cal) (r : ScheduleRef)
    (hid : r.id ≠ "") (hns : r.ns ≠ "") (h₀ : Host) (s : Schedule) (hspec : Unhurried cal s.spec)
    (c t : Int) (h : Host) (hsince : Since cal r c (h₀.after cal c (.create r s)) t h) :
    (∃ l, (h.account r).fires = (h₀.account r).fires ++ l ∧ (ticks l).Pairwise (· < ·)) ∧
      ∀ now, t ≤ now → CalmSweep cal now r h (h.after cal now .sweep) ∧
        ∀ requestID, ((h.after cal now (.trigger r requestID)).account r).fires =
          (h.account r).fires → (h.after cal now (.trigger r requestID)).row r = h.row r := by
  have hsteady : ∃ s k l, Steady cal (h₀.account r).fires t (h.account r) s k l := by
    induction hsince with
    | start =>
      rw [account_create hid hns]
      refine ⟨createdRow cal c s, s.info.updateTime.getD (seconds c), [], rfl, ?_, ?_, ?_,
        List.Pairwise.nil, by simp [ticks], by simp [ticks]⟩
      · simpa [createdRow] using hspec
      · exact anchorOf_createdRow
      · exact (List.append_nil _).symm
    | step hs ht hop ih =>
      obtain ⟨s, k, l, hsteady⟩ := ih
      exact steady_step hcal ht hop (operation_outcome cal _ _ _ r) hsteady
  obtain ⟨s', k, l, hsteady⟩ := hsteady
  refine ⟨⟨l, hsteady.fires, hsteady.increasing⟩, fun now _ => ⟨calmSweep hcal ?_, ?_⟩⟩
  · intro s'' hs''
    obtain rfl := Option.some.inj (hsteady.row.symm.trans hs'')
    exact hsteady.spec
  · intro requestID hfires
    have hout := operation_outcome cal now (.trigger r requestID) h r
    simp only [ScheduleOperation.Outcome, if_true] at hout
    exact row_of_idle hout hfires

/-! ## A schedule that fires every minute -/

def minutely : Calendar :=
  { parseCron := fun cs =>
      if cs = "* * * * *" then some fun t => some ((t / (60 * second) + 1) * (60 * second))
      else none
    parseDuration := fun _ => none
    format := fun _ => "" }

theorem wholeSeconds_minutely : WholeSeconds minutely := by
  intro cs next hnext t
  simp only [minutely] at hnext
  split_ifs at hnext
  obtain rfl := Option.some.inj hnext
  refine ⟨_, rfl, ?_, ?_⟩
  · simp only [second]
    omega
  · simp only [second]
    omega

def report : ScheduleRef := ⟨"acme", "default", "report"⟩

def everyMinute (paused : Bool) : Schedule :=
  { spec := { cronString := ["* * * * *"] }, action := { workflowType := "Report" }
    state := { paused := paused } }

def freshHost : Host :=
  { worlds := fun _ => { clock := fun _ => 0, ids := fun i => toString i, orgs := fun _ => true } }

theorem unhurried_everyMinute (paused : Bool) : Unhurried minutely (everyMinute paused).spec :=
  fun iv hiv => absurd hiv (by simp [everyMinute])

/-- After a first fire, the next sweep is calm too. -/
theorem schedules_do_not_storm_report :
    CalmSweep minutely (62 * second) report
      ((freshHost.after minutely 0 (.create report (everyMinute false))).after minutely
        (61 * second) .sweep)
      (((freshHost.after minutely 0 (.create report (everyMinute false))).after minutely
        (61 * second) .sweep).after minutely (62 * second) .sweep) :=
  (schedules_do_not_storm minutely wholeSeconds_minutely report (by decide) (by decide) freshHost
    (everyMinute false) (unhurried_everyMinute false) 0 (61 * second) _
    (.step .start (by decide) (show ScheduleOperation.sweep.Keeps minutely report from trivial))).2
    (62 * second) (by decide) |>.1

/-- A paused schedule starts a run where it is triggered. -/
theorem paused_schedule_triggered :
    let h := freshHost.after minutely 0 (.create report (everyMinute true))
    let h' := h.after minutely second (.trigger report "")
    (h.row report).map (fun s => s.state.paused) = some true ∧
      (h.account report).fires.length = 0 ∧ (h'.account report).fires.length = 1 := by
  decide +kernel

/-! ## Ticks -/

/-- Where sweeps before `T` and triggers lead from `h₁`, with calls to other
schedules among them. Whenever `r` is triggered, nothing of it is due. -/
inductive Undisturbed (cal : Calendar) (r : ScheduleRef) (T : Int) (h₁ : Host) : Host → Prop
  | start : Undisturbed cal r T h₁ h₁
  | sweep {h : Host} {now : Int} (hs : Undisturbed cal r T h₁ h) (hnow : now < T) :
      Undisturbed cal r T h₁ (h.after cal now .sweep)
  | trigger {h : Host} {now : Int} {requestID : String} (hs : Undisturbed cal r T h₁ h)
      (hquiet : ∀ s, h.row r = some s → due cal now (r, s) = none) :
      Undisturbed cal r T h₁ (h.after cal now (.trigger r requestID))
  | other {h : Host} {now : Int} {op : ScheduleOperation} (hs : Undisturbed cal r T h₁ h)
      (hop : op.Avoids r) : Undisturbed cal r T h₁ (h.after cal now op)

/-- An unpaused schedule with the spec `spec` that is anchored before `T`. -/
def Awaits (spec : ScheduleSpec) (T : Int) (a : Account) : Prop :=
  ∃ s k, a.row = some s ∧ s.spec = spec ∧ s.state.paused = false ∧ anchorOf s = some k ∧
    k * second < T

section Awaits

variable {spec : ScheduleSpec} {a a' : Account}

/-- A schedule that waits for `T` is due from then on, for `T` or a tick before. -/
theorem Awaits.due_of_le (h : Awaits spec T a) (hcal : FirstAfter cal spec)
    (hspec : Endless cal spec) (hT : Tick cal spec T) (hnow : T ≤ now) :
    ∃ s d, a.row = some s ∧ due cal now (r, s) = some d ∧ d.tick ≤ T := by
  obtain ⟨s, k, hs, rfl, hpaused, hanchor, hk⟩ := h
  obtain ⟨u, hu, hle⟩ := next_le_tick hcal hspec hT hk
  refine ⟨s, ⟨r, s, u⟩, hs, due_iff.mpr ⟨hpaused, ?_, Int.le_trans hle hnow, rfl⟩, hle⟩
  rw [anchorTime_eq hanchor]
  exact hu

theorem Awaits.sweep (h : Awaits spec T a) (hnow : now < T)
    (hout : SweepOutcome cal now r a a') : Awaits spec T a' := by
  obtain ⟨s, k, hs, hspec, hpaused, hanchor, hk⟩ := h
  simp only [SweepOutcome, hs, Option.bind_some] at hout
  cases hd : due cal now (r, s) with
  | none =>
    rw [hd] at hout
    rw [hout]
    exact ⟨s, k, hs, hspec, hpaused, hanchor, hk⟩
  | some d =>
    rw [hd] at hout
    cases hout with
    | failed => exact ⟨s, k, hs, hspec, hpaused, hanchor, hk⟩
    | fired run =>
      obtain ⟨-, rfl⟩ := due_eq hd
      refine ⟨anchored cal now d.row, seconds now, rfl, ?_, ?_, anchorOf_anchored, ?_⟩
      · rw [spec_anchored, hspec]
      · rw [state_anchored, hpaused]
      · exact Int.lt_of_le_of_lt seconds_mul_le hnow

/-- A trigger while nothing is due comes before `T`. -/
theorem Awaits.trigger (h : Awaits spec T a) (hcal : FirstAfter cal spec)
    (hspec : Endless cal spec) (hT : Tick cal spec T)
    (hquiet : ∀ s, a.row = some s → due cal now (r, s) = none)
    (hout : TriggerOutcome now r a a') : Awaits spec T a' := by
  have hnow : now < T := by
    by_contra hge
    obtain ⟨s, d, hs, hd, -⟩ := h.due_of_le (r := r) hcal hspec hT (Int.not_lt.mp hge)
    rw [hquiet s hs] at hd
    cases hd
  obtain ⟨s, k, hs, hsame, hpaused, hanchor, hk⟩ := h
  cases hout with
  | idle => exact ⟨s, k, hs, hsame, hpaused, hanchor, hk⟩
  | fired hs' run =>
    obtain rfl := Option.some.inj (hs.symm.trans hs')
    exact ⟨countedRow now s, seconds now, rfl, hsame, hpaused, rfl,
      Int.lt_of_le_of_lt seconds_mul_le hnow⟩

theorem Awaits.of_undisturbed {h₁ h : Host} (h₁s : Awaits spec T (h₁.account r))
    (hcal : FirstAfter cal spec) (hspec : Endless cal spec) (hT : Tick cal spec T)
    (hreach : Undisturbed cal r T h₁ h) : Awaits spec T (h.account r) := by
  induction hreach with
  | start => exact h₁s
  | sweep hs hnow ih => exact ih.sweep hnow (operation_outcome cal _ .sweep _ r)
  | @trigger h now requestID hs hquiet ih =>
    have hout := operation_outcome cal now (.trigger r requestID) h r
    simp only [ScheduleOperation.Outcome, if_true] at hout
    exact ih.trigger hcal hspec hT hquiet hout
  | @other h now op hs hop ih =>
    have hsame : (h.after cal now op).account r = h.account r :=
      hop.outcome (operation_outcome cal now op h r)
    rwa [hsame]

end Awaits

/-- A manual trigger that finds nothing due swallows no tick: the first sweep at
or after a tick starts a run for it, or for an earlier one. -/
theorem trigger_swallows_no_tick (cal : Calendar) (r : ScheduleRef) (hid : r.id ≠ "")
    (hns : r.ns ≠ "") (h₀ : Host) (s : Schedule) (hcal : FirstAfter cal s.spec)
    (hpaused : s.state.paused = false) (hspec : Endless cal s.spec) (c T now : Int)
    (hT : Tick cal s.spec T) (hc : c < T) (hupdate : ∀ k ∈ s.info.updateTime, k * second < T)
    (h : Host) (hreach : Undisturbed cal r T (h₀.after cal c (.create r s)) h) (hnow : T ≤ now)
    (hstarts : ((h.after cal now .sweep).account r).failed = (h.account r).failed) :
    ∃ tick run, tick * second ≤ T ∧
      ((h.after cal now .sweep).account r).fires =
        (h.account r).fires ++ [⟨r, some tick, run⟩] := by
  have hcreated : Awaits s.spec T ((h₀.after cal c (.create r s)).account r) := by
    rw [account_create hid hns]
    refine ⟨createdRow cal c s, _, rfl, by simp [createdRow], by simpa [createdRow] using hpaused,
      anchorOf_createdRow, ?_⟩
    cases hu : s.info.updateTime with
    | none => exact Int.lt_of_le_of_lt seconds_mul_le hc
    | some k => exact hupdate k hu
  obtain ⟨s', d, hs', hd, hle⟩ :=
    (hcreated.of_undisturbed hcal hspec hT hreach).due_of_le (r := r) hcal hspec hT hnow
  have hout : SweepOutcome cal now r (h.account r) ((h.after cal now .sweep).account r) :=
    operation_outcome cal now .sweep h r
  simp only [SweepOutcome, hs', Option.bind_some, hd] at hout
  generalize (h.after cal now .sweep).account r = a' at hout hstarts ⊢
  cases hout with
  | failed => simp at hstarts
  | fired run =>
    refine ⟨seconds d.tick, run, Int.le_trans seconds_mul_le hle, ?_⟩
    rw [(due_eq hd).1]

theorem firstAfter_minutely (spec : ScheduleSpec) : FirstAfter minutely spec := by
  intro cs _ next hnext t u hu
  simp only [minutely] at hnext
  split_ifs at hnext
  obtain rfl := Option.some.inj hnext
  obtain rfl := Option.some.inj hu
  obtain ⟨v, hv, hlt, hdvd⟩ := wholeSeconds_minutely "* * * * *" _ rfl t
  obtain rfl := Option.some.inj hv
  refine ⟨hlt, hdvd, fun t' T hT htT => ?_⟩
  obtain rfl := Option.some.inj hT
  simp only [second] at htT ⊢
  omega

theorem endless_minutely (spec : ScheduleSpec) : Endless minutely spec := by
  intro cs _ next hnext t
  obtain ⟨u, hu, -⟩ := wholeSeconds_minutely cs next hnext t
  rw [hu]
  exact Option.some_ne_none u

/-- A trigger half a minute before the tick leaves it to the sweep. -/
theorem trigger_swallows_no_tick_report :
    let h := (freshHost.after minutely 0 (.create report (everyMinute false))).after minutely
      (30 * second) (.trigger report "")
    ∃ tick run, tick * second ≤ 60 * second ∧
      ((h.after minutely (62 * second) .sweep).account report).fires =
        (h.account report).fires ++ [⟨report, some tick, run⟩] := by
  refine trigger_swallows_no_tick minutely report (by decide) (by decide) freshHost
    (everyMinute false) (firstAfter_minutely _) rfl (endless_minutely _) 0 (60 * second)
    (62 * second)
    ⟨"* * * * *", by simp [everyMinute], _, rfl, 0, by decide⟩ (by decide) (by simp [everyMinute])
    _ (.trigger .start ?_) (by decide) (by decide +kernel)
  intro s hs
  have hrow : (freshHost.after minutely 0 (.create report (everyMinute false))).row report =
      some (createdRow minutely 0 (everyMinute false)) :=
    congrArg Account.row (account_create (by decide) (by decide))
  obtain rfl := Option.some.inj (hrow.symm.trans hs)
  exact Option.isNone_iff_eq_none.mp (by decide +kernel)

/-- The descriptor `@every 1h`. -/
def hourly : Calendar :=
  { minutely with parseCron := fun _ => some fun t => some (seconds t * second + 3600 * second) }

/-- A trigger a second after the tick, ahead of the sweep, and one between two
ticks of a descriptor, which are counted anew from it. -/
theorem trigger_swallows_tick :
    (let h := freshHost.after minutely 0 (.create report (everyMinute false))
      let h' := h.after minutely (61 * second) (.trigger report "")
      let h'' := h'.after minutely (62 * second) .sweep
      Tick minutely (everyMinute false).spec (60 * second) ∧
        (h'.account report).fires.length = 1 ∧ (h''.account report).fires.length = 1 ∧
        (h''.account report).failed = 0) ∧
      let h := freshHost.after hourly 0 (.create report (everyMinute false))
      let h' := h.after hourly (1800 * second) (.trigger report "")
      let h'' := h'.after hourly (3602 * second) .sweep
      Tick hourly (everyMinute false).spec (3600 * second) ∧
        (h'.account report).fires.length = 1 ∧ (h''.account report).fires.length = 1 ∧
        (h''.account report).failed = 0 := by
  refine ⟨⟨⟨"* * * * *", by simp [everyMinute], _, rfl, 0, by decide⟩, ?_⟩,
    ⟨"* * * * *", by simp [everyMinute], _, rfl, 0, by decide⟩, ?_⟩
  · decide +kernel
  · decide +kernel

end Schedules

end DurableTasks
