import DurableTasks.Schedules.Sweeps

/-!
The fires of a spec: when `nextScheduleFire` finds the earliest one in whatever
order the spec lists them, when `ScheduleMatchingTimes`, which looks from a second
after each fire for the next, finds all of them, and when the fires of an interval
stay on the grid it was created with.
-/

namespace DurableTasks.Schedules

open Effects

variable {cal : Calendar} {spec : ScheduleSpec} {t stop cursor : Int} {l l' : List (Option Int)}

/-! ## In any order -/

theorem Least.congr (h : ∀ t, some t ∈ l ↔ some t ∈ l') (r : Option Int) :
    Least l r ↔ Least l' r := by
  cases r with
  | none => simp only [Least, h]
  | some u => simp only [Least, h]

/-- A fire that comes after all the others makes up for every zero time. -/
theorem settled_append (hl' : none ∉ l') : Settled (l ++ l') ↔
    ∀ l₁ l₂, l = l₁ ++ none :: l₂ → ∀ t, some t ∈ l₁ → ∃ u ≤ t, some u ∈ l₂ ++ l' := by
  constructor
  · rintro h l₁ l₂ rfl
    exact h l₁ (l₂ ++ l') (by simp)
  · intro h l₁ l₂ heq
    rcases List.append_eq_append_iff.mp heq with ⟨m, rfl, hm⟩ | ⟨m, rfl, hm⟩
    · exact absurd (by rw [hm]; simp) hl'
    · cases m with
      | nil => exact absurd (by rw [← show none :: l₂ = l' from hm]; simp) hl'
      | cons c m =>
        obtain ⟨rfl, rfl⟩ := List.cons.inj hm
        exact h l₁ m rfl

def cronFires (cal : Calendar) (crons : List String) (after : Int) : List (Option Int) :=
  crons.filterMap fun cs => (cal.parseCron cs).map fun next => next after

def intervalFires (cal : Calendar) (intervals : List String) (after : Int) : List (Option Int) :=
  intervals.filterMap fun iv =>
    (cal.parseDuration iv).bind fun d => if d ≤ 0 then none else some (some (after + d))

theorem mem_cronFires {crons : List String} {c : Option Int} : c ∈ cronFires cal crons t ↔
    ∃ cs ∈ crons, ∃ next, cal.parseCron cs = some next ∧ next t = c := by
  simp [cronFires]

theorem mem_intervalFires {intervals : List String} {c : Option Int} :
    c ∈ intervalFires cal intervals t ↔
      ∃ iv ∈ intervals, ∃ d, cal.parseDuration iv = some d ∧ 0 < d ∧ some (t + d) = c := by
  simp [intervalFires, Option.bind_eq_some_iff]

theorem none_not_mem_intervalFires (intervals : List String) :
    none ∉ intervalFires cal intervals t := by
  simp [mem_intervalFires]

/-- The next fire is the earliest one, whatever the order of the crontabs and of
the intervals, if every valid crontab has a next fire, or if those that have one
come after some interval. -/
theorem earliest_in_any_order (cal : Calendar) (spec : ScheduleSpec) (after : Int) :
    (∀ spec' : ScheduleSpec, spec'.cronString.Perm spec.cronString →
      spec'.interval.Perm spec.interval →
        Least (candidates cal spec after) (nextScheduleFire cal spec' after)) ↔
    (∀ cs ∈ spec.cronString, ∀ next, cal.parseCron cs = some next → next after ≠ none) ∨
    ∀ cs ∈ spec.cronString, ∀ next t, cal.parseCron cs = some next → next after = some t →
      ∃ iv ∈ spec.interval, ∃ d, cal.parseDuration iv = some d ∧ 0 < d ∧ after + d ≤ t := by
  -- all orders have the same fires, so each has to settle on its own
  have hsettled : ∀ spec' : ScheduleSpec, spec'.cronString.Perm spec.cronString →
      spec'.interval.Perm spec.interval →
      (Least (candidates cal spec after) (nextScheduleFire cal spec' after) ↔
        ∀ l₁ l₂, cronFires cal spec'.cronString after = l₁ ++ none :: l₂ → ∀ t, some t ∈ l₁ →
          ∃ u ≤ t, some u ∈ l₂ ++ intervalFires cal spec'.interval after) := by
    intro spec' hcron hinterval
    have hmem : ∀ t, some t ∈ candidates cal spec after ↔ some t ∈ candidates cal spec' after := by
      simp only [mem_candidates, hcron.mem_iff, hinterval.mem_iff, implies_true]
    rw [Least.congr hmem, nextScheduleFire, least_foldl_iff]
    exact settled_append (none_not_mem_intervalFires _)
  have hfire : ∀ {t}, (∃ u ≤ t, some u ∈ intervalFires cal spec.interval after) ↔
      ∃ iv ∈ spec.interval, ∃ d, cal.parseDuration iv = some d ∧ 0 < d ∧ after + d ≤ t := by
    simp only [mem_intervalFires, Option.some.injEq]
    intro t
    constructor
    · rintro ⟨_, hu, iv, hiv, d, hd, hpos, rfl⟩
      exact ⟨iv, hiv, d, hd, hpos, hu⟩
    · rintro ⟨iv, hiv, d, hd, hpos, hle⟩
      exact ⟨_, hle, iv, hiv, d, hd, hpos, rfl⟩
  constructor
  · intro h
    by_cases hnone : none ∈ cronFires cal spec.cronString after
    · obtain ⟨cs₀, hcs₀, next₀, hnext₀, hzero⟩ := mem_cronFires.mp hnone
      refine .inr fun cs hcs next t hnext ht => hfire.mp ?_
      -- with a crontab without a fire as the last, only the intervals are left
      have hperm : (spec.cronString.erase cs₀ ++ [cs₀]).Perm spec.cronString :=
        (List.perm_append_singleton _ _).trans (List.perm_cons_erase hcs₀).symm
      have hne : cs ≠ cs₀ := by
        rintro rfl
        obtain rfl := Option.some.inj (hnext.symm.trans hnext₀)
        rw [hzero] at ht
        cases ht
      exact (hsettled ⟨_, spec.interval⟩ hperm .rfl).mp (h ⟨_, spec.interval⟩ hperm .rfl)
        (cronFires cal (spec.cronString.erase cs₀) after) [] (by simp [cronFires, hnext₀, hzero]) t
        (mem_cronFires.mpr ⟨cs, (List.mem_erase_of_ne hne).mpr hcs, next, hnext, ht⟩)
    · exact .inl fun cs hcs next hnext hzero =>
        hnone (mem_cronFires.mpr ⟨cs, hcs, next, hnext, hzero⟩)
  · intro h spec' hcron hinterval
    refine (hsettled spec' hcron hinterval).mpr fun l₁ l₂ hl t ht => ?_
    have hin : ∀ c ∈ l₁ ++ none :: l₂, ∃ cs ∈ spec.cronString, ∃ next,
        cal.parseCron cs = some next ∧ next after = c := by
      intro c hc
      rw [← hl] at hc
      simpa only [mem_cronFires, hcron.mem_iff] using hc
    rcases h with hall | hcovered
    · obtain ⟨cs, hcs, next, hnext, hzero⟩ := hin none (by simp)
      exact absurd hzero (hall cs hcs next hnext)
    · obtain ⟨cs, hcs, next, hnext, hfires⟩ := hin (some t) (by simp [ht])
      obtain ⟨u, hu, hmem⟩ := hfire.mpr (hcovered cs hcs next t hnext hfires)
      refine ⟨u, hu, List.mem_append_right _ ?_⟩
      simpa only [mem_intervalFires, hinterval.mem_iff] using hmem

def twoCrons : Calendar :=
  { parseCron := fun cs =>
      if cs = "* * * * *" then some fun t => some ((t / (60 * second) + 1) * (60 * second))
      else if cs = "0 0 30 2 *" then some fun _ => none
      else none
    parseDuration := fun _ => none
    format := fun _ => "" }

/-- The crontab that never matches hides the other one if it is listed behind
it. -/
theorem order_hides_the_next_fire :
    (∀ cs next, twoCrons.parseCron cs = some next → ∀ t u, next t = some u → t < u) ∧
    nextScheduleFire twoCrons { cronString := ["0 0 30 2 *", "* * * * *"] } 0 =
      some (60 * second) ∧
    nextScheduleFire twoCrons { cronString := ["* * * * *", "0 0 30 2 *"] } 0 = none := by
  refine ⟨fun cs next hnext t u hu => ?_, by decide, by decide⟩
  simp only [twoCrons] at hnext
  split_ifs at hnext
  · obtain rfl := Option.some.inj hnext
    obtain rfl := Option.some.inj hu
    simp only [second]
    omega
  · obtain rfl := Option.some.inj hnext
    cases hu

/-! ## In a window -/

/-- The loop of `ScheduleMatchingTimes`, with the turns it has left. -/
def matchingTimes (cal : Calendar) (spec : ScheduleSpec) (stop : Int) : Nat → Int → List Int
  | 0, _ => []
  | n + 1, cursor =>
    match nextScheduleFire cal spec cursor with
    | some next => if stop < next then [] else next :: matchingTimes cal spec stop n (next + second)
    | none => []

def scheduleMatchingTimes (cal : Calendar) (r : ScheduleRef) (start stop : Int) :
    Scheduling (List Int) := do
  match ← describeSchedule r with
  | none => throw "schedule not found"
  | some s =>
    if stop < start then throw "to before from"
    else return matchingTimes cal s.spec stop 1000 start

/-- What is to be returned: up to `n` fires, each the next one from the one before
it. -/
def fireTimes (cal : Calendar) (spec : ScheduleSpec) (stop : Int) : Nat → Int → List Int
  | 0, _ => []
  | n + 1, t =>
    match nextScheduleFire cal spec t with
    | some next => if stop < next then [] else next :: fireTimes cal spec stop n next
    | none => []

def nextWithin (cal : Calendar) (spec : ScheduleSpec) (stop t : Int) : Option Int :=
  (nextScheduleFire cal spec t).bind fun next => if stop < next then none else some next

theorem matchingTimes_succ (n : Nat) : matchingTimes cal spec stop (n + 1) cursor =
    (nextWithin cal spec stop cursor).elim []
      fun next => next :: matchingTimes cal spec stop n (next + second) := by
  rw [matchingTimes, nextWithin]
  cases nextScheduleFire cal spec cursor with
  | none => rfl
  | some next => by_cases h : stop < next <;> simp [h]

theorem fireTimes_succ (n : Nat) : fireTimes cal spec stop (n + 1) t =
    (nextWithin cal spec stop t).elim [] fun next => next :: fireTimes cal spec stop n next := by
  rw [fireTimes, nextWithin]
  cases nextScheduleFire cal spec t with
  | none => rfl
  | some next => by_cases h : stop < next <;> simp [h]

/-- From a cursor that finds the same next fire, the loop goes on as it should if
every fire is followed by the same one when it is looked for from a second later. -/
theorem matchingTimes_eq_iff (n : Nat) : matchingTimes cal spec stop (n + 1) cursor =
    fireTimes cal spec stop (n + 1) t ↔
      nextWithin cal spec stop cursor = nextWithin cal spec stop t ∧
      ∀ u ∈ fireTimes cal spec stop n t,
        nextWithin cal spec stop (u + second) = nextWithin cal spec stop u := by
  induction n generalizing cursor t with
  | zero =>
    rw [matchingTimes_succ, fireTimes_succ]
    cases nextWithin cal spec stop cursor <;> cases nextWithin cal spec stop t <;>
      simp [matchingTimes, fireTimes]
  | succ n ih =>
    rw [matchingTimes_succ, fireTimes_succ (n + 1), fireTimes_succ n]
    cases nextWithin cal spec stop cursor with
    | none => cases nextWithin cal spec stop t <;> simp
    | some u =>
      cases nextWithin cal spec stop t with
      | none => simp
      | some v =>
        simp only [Option.elim_some, List.cons.injEq, Option.some.injEq, List.forall_mem_cons]
        refine and_congr_right ?_
        rintro rfl
        exact ih

theorem run_scheduleMatchingTimes {h : Host} {r : ScheduleRef} {s : Schedule} {start : Int}
    (hrow : h.row r = some s) (hwindow : start ≤ stop) :
    ((scheduleMatchingTimes cal r start stop).run.run hostHandler h).1 =
      .ok (matchingTimes cal s.spec stop 1000 start) := by
  have hget : (describeSchedule r).run.run hostHandler h = (.ok (some s), h) := by
    rw [← hrow]
    rfl
  simp [scheduleMatchingTimes, ExceptT.run_bind, Program.run_bind, hget, Int.not_lt.mpr hwindow]

/-- The times returned are the fires of the window just if from each of them, but
the last there may be, the next fire in the window is the same from a second later. -/
theorem matching_times_iff (cal : Calendar) (h : Host) (r : ScheduleRef) (s : Schedule)
    (hrow : h.row r = some s) (start stop : Int) (hwindow : start ≤ stop) :
    ((scheduleMatchingTimes cal r start stop).run.run hostHandler h).1 =
        .ok (fireTimes cal s.spec stop 1000 start) ↔
      ∀ t ∈ fireTimes cal s.spec stop 999 start,
        nextWithin cal s.spec stop (t + second) = nextWithin cal s.spec stop t := by
  rw [run_scheduleMatchingTimes hrow hwindow, Except.ok.injEq, matchingTimes_eq_iff]
  simp

def hostOf (s : Schedule) : Host :=
  { freshHost with schedules := freshHost.schedules.insert report s }

theorem row_hostOf (s : Schedule) : (hostOf s).row report = some s := by
  simp [Host.row, hostOf]

theorem matching_times_every_minute :
    ((scheduleMatchingTimes minutely report 0 (150 * second)).run.run hostHandler
      (hostOf (everyMinute false))).1 = .ok [60 * second, 120 * second] :=
  (matching_times_iff minutely _ report (everyMinute false) (row_hostOf _) 0 (150 * second)
    (by decide)).mpr (by decide +kernel)

def everyInterval : Schedule :=
  { spec := { interval := ["1m"] }, action := { workflowType := "Report" } }

def minuteInterval : Calendar :=
  { parseCron := fun _ => none
    parseDuration := fun iv => if iv = "1m" then some (60 * second) else none
    format := fun _ => "" }

/-- Of an interval of a minute the second fire is returned a second late. -/
theorem matching_times_drift :
    ((scheduleMatchingTimes minuteInterval report 0 (150 * second)).run.run hostHandler
      (hostOf everyInterval)).1 = .ok [60 * second, 121 * second] ∧
    fireTimes minuteInterval everyInterval.spec (150 * second) 1000 0 =
      [60 * second, 120 * second] := by
  refine ⟨?_, by decide +kernel⟩
  rw [run_scheduleMatchingTimes (row_hostOf _) (by decide)]
  exact congrArg Except.ok (by decide +kernel)

/-! ## Of an interval -/

def everySpec (iv : String) : ScheduleSpec := { interval := [iv] }

/-- Where sweeps and calls to other schedules lead from `h₁`. Whenever the schedule
is due, the sweep is a multiple of `N` seconds after the second `c`. -/
inductive OnGrid (cal : Calendar) (r : ScheduleRef) (N c : Int) (h₁ : Host) : Host → Prop
  | start : OnGrid cal r N c h₁ h₁
  | sweep {h : Host} {now : Int} (hs : OnGrid cal r N c h₁ h)
      (hgrid : ∀ s, h.row r = some s → (due cal now (r, s)).isSome → N ∣ seconds now - c) :
      OnGrid cal r N c h₁ (h.after cal now .sweep)
  | other {h : Host} {now : Int} {op : ScheduleOperation} (hs : OnGrid cal r N c h₁ h)
      (hop : op.Avoids r) : OnGrid cal r N c h₁ (h.after cal now op)

/-- A schedule is anchored on the grid, and the runs `l` it has started since are
stamped with times of the grid. -/
structure Cadence (iv : String) (N c : Int) (base : List Fire) (a : Account) : Prop where
  row : ∃ s k, a.row = some s ∧ s.spec = everySpec iv ∧ anchorOf s = some k ∧ N ∣ k - c
  fires : ∃ l, a.fires = base ++ l ∧ ∀ x ∈ ticks l, N ∣ x - c

section Cadence

variable {iv : String} {N c now : Int} {r : ScheduleRef} {base : List Fire} {a a' : Account}

theorem nextScheduleFire_everySpec (hiv : cal.parseDuration iv = some (N * second)) (hN : 0 < N) :
    nextScheduleFire cal (everySpec iv) t = some (t + N * second) := by
  have hpos : ¬N * second ≤ 0 := by
    simp only [second]
    omega
  simp [nextScheduleFire, candidates, everySpec, hiv, hpos, earlier]

theorem Cadence.sweep (h : Cadence iv N c base a) (hiv : cal.parseDuration iv = some (N * second))
    (hN : 0 < N) (hgrid : ∀ s, a.row = some s → (due cal now (r, s)).isSome → N ∣ seconds now - c)
    (hout : SweepOutcome cal now r a a') : Cadence iv N c base a' := by
  obtain ⟨s, k, hrow, hspec, hanchor, hk⟩ := h.row
  obtain ⟨l, hl, hticks⟩ := h.fires
  simp only [SweepOutcome, hrow, Option.bind_some] at hout
  cases hd : due cal now (r, s) with
  | none =>
    rw [hd] at hout
    exact hout ▸ h
  | some d =>
    rw [hd] at hout
    cases hout with
    | failed => exact ⟨h.row, h.fires⟩
    | fired run =>
      obtain ⟨-, hnext, -, hd'⟩ := due_iff.mp hd
      rw [hspec, anchorTime_eq hanchor, nextScheduleFire_everySpec hiv hN] at hnext
      have htick : seconds d.tick = k + N := by
        rw [← Option.some.inj hnext, seconds, ← Int.add_mul]
        exact Int.mul_ediv_cancel _ (by decide)
      refine ⟨⟨anchored cal now d.row, seconds now, rfl, ?_, anchorOf_anchored, ?_⟩,
        l ++ [⟨d.schedule, some (seconds d.tick), run⟩], by simp [hl], fun x hx => ?_⟩
      · rw [spec_anchored, (due_eq hd).2, hspec]
      · exact hgrid s hrow (by simp [hd])
      · simp only [ticks, List.filterMap_append, List.mem_append] at hx
        rcases hx with hx | hx
        · exact hticks x hx
        · obtain rfl : x = seconds d.tick := by simpa using hx
          rw [htick, add_sub_right_comm]
          exact Int.dvd_add hk (Int.dvd_refl N)

end Cadence

/-- The ticks of an interval are those of its creation as long as every sweep that
finds it due is on them too. -/
theorem interval_keeps_cadence (cal : Calendar) (iv : String) (N : Int)
    (hiv : cal.parseDuration iv = some (N * second)) (hN : 0 < N) (r : ScheduleRef)
    (hid : r.id ≠ "") (hns : r.ns ≠ "") (h₀ : Host) (s : Schedule) (hspec : s.spec = everySpec iv)
    (hnew : s.info.updateTime = none) (c : Int) (h : Host)
    (hrun : OnGrid cal r N (seconds c) (h₀.after cal c (.create r s)) h) :
    ∃ l, (h.account r).fires = (h₀.account r).fires ++ l ∧
      ∀ x ∈ ticks l, ∃ m, x = seconds c + m * N := by
  have hcadence : Cadence iv N (seconds c) (h₀.account r).fires (h.account r) := by
    induction hrun with
    | start =>
      rw [account_create hid hns]
      refine ⟨⟨createdRow cal c s, seconds c, rfl, ?_, ?_, by simp⟩, [], by simp, by simp [ticks]⟩
      · rw [createdRow, spec_withNext, hspec]
      · rw [anchorOf_createdRow, hnew]
        rfl
    | sweep hs hgrid ih => exact ih.sweep hiv hN hgrid (operation_outcome cal _ .sweep _ r)
    | @other h now op hs hop ih =>
      have hsame : (h.after cal now op).account r = h.account r :=
        hop.outcome (operation_outcome cal now op h r)
      rwa [hsame]
  obtain ⟨l, hl, hticks⟩ := hcadence.fires
  refine ⟨l, hl, fun x hx => ?_⟩
  obtain ⟨m, hm⟩ := hticks x hx
  exact ⟨m, by rw [Int.mul_comm, ← hm]; omega⟩

def sweptHost (sweeps : List Int) : Host :=
  sweeps.foldl (fun h now => h.after minuteInterval (now * second) .sweep)
    (freshHost.after minuteInterval 0 (.create report everyInterval))

theorem interval_keeps_cadence_minutes :
    ticks ((sweptHost [60, 180]).account report).fires = [60, 120] ∧
    ∃ l, ((sweptHost [60, 180]).account report).fires = (freshHost.account report).fires ++ l ∧
      ∀ x ∈ ticks l, ∃ m, x = seconds 0 + m * 60 :=
  ⟨by decide +kernel, interval_keeps_cadence minuteInterval "1m" 60 rfl (by decide) report
    (by decide) (by decide) freshHost everyInterval rfl rfl 0 _
    (.sweep (.sweep .start fun _ _ _ => by decide) fun _ _ _ => by decide)⟩

/-- A sweep that comes a second late moves all later ticks. -/
theorem interval_drifts :
    ticks ((sweptHost [61, 121]).account report).fires = [60, 121] := by
  decide +kernel

end DurableTasks.Schedules
