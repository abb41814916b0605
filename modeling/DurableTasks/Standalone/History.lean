import DurableTasks.Safety.Density
import DurableTasks.Standalone.Moves

/-!
The histories of a shard, of workflow runs and of standalone activities, have
no gaps.
-/

namespace DurableTasks

open Effects Standalone

def ActivityEventAttrs.IsScheduled : ActivityEventAttrs → Prop
  | .scheduled _ _ _ _ => True
  | _ => False

/-- The events of an activity are exactly those its row counts, each under its
own id, and the first one schedules it. -/
structure ActivityStore.Dense (s : ActivityStore) (r : RunRef) : Prop where
  ids : ∀ id, (s.get (.ahist r id)).isSome ↔
    ∃ a, s.get (.act r) = some a ∧ 1 ≤ id ∧ id ≤ a.historyLength
  keyed : ∀ id ev, s.get (.ahist r id) = some ev → ev.eventId = id
  first : ∀ a, s.get (.act r) = some a → ∃ ev, s.get (.ahist r 1) = some ev ∧ ev.attrs.IsScheduled

namespace ActivityStore

variable {s s' s'' : ActivityStore} {r c : RunRef} {a a' : StandaloneActivity} {t : Nat}
  {attrs : ActivityEventAttrs}

namespace Dense

theorem congr (h : s.Dense r) (hact : s'.get (.act r) = s.get (.act r))
    (hhist : ∀ id, s'.get (.ahist r id) = s.get (.ahist r id)) : s'.Dense r := by
  refine ⟨fun id => ?_, fun id => ?_, fun a ha => ?_⟩
  · rw [hhist, hact]
    exact h.ids id
  · rw [hhist]
    exact h.keyed id
  · rw [hhist]
    exact h.first a (hact.symm.trans ha)

theorem event_none (h : s.Dense r) (ha : s.get (.act r) = none) (id : Nat) :
    s.get (.ahist r id) = none := by
  have hid := h.ids id
  simpa [ha] using hid

theorem pos (h : s.Dense r) (ha : s.get (.act r) = some a) : 1 ≤ a.historyLength := by
  obtain ⟨ev, hev, -⟩ := h.first a ha
  obtain ⟨a', ha', hle⟩ := (h.ids 1).mp (by simp [hev])
  obtain rfl : a = a' := Option.some.inj (ha.symm.trans ha')
  exact hle.2

theorem put_row (h : s.Dense r) (ha : s.get (.act r) = some a)
    (hlen : a'.historyLength = a.historyLength) : (s.put (.act r) a').Dense r := by
  refine ⟨fun id => ?_, fun id => ?_, fun _ _ => ?_⟩
  · have hids := h.ids id
    simp only [ha, Option.some.injEq, exists_eq_left'] at hids
    simpa [get_put_of_ne, hlen] using hids
  · simpa [get_put_of_ne] using h.keyed id
  · simpa [get_put_of_ne] using h.first a ha

theorem of_empty (hact : s.get (.act r) = none) (hhist : ∀ id, s.get (.ahist r id) = none) :
    s.Dense r :=
  ⟨by simp [hact, hhist], by simp [hhist], by simp [hact]⟩

end Dense

/-! ## An event is appended -/

theorem dense_appended (hids : ∀ id, (s.get (.ahist r id)).isSome ↔ 1 ≤ id ∧ id ≤ a.historyLength)
    (hkeyed : ∀ id ev, s.get (.ahist r id) = some ev → ev.eventId = id)
    (hfirst : ∃ ev, (s.appended r a t attrs).get (.ahist r 1) = some ev ∧ ev.attrs.IsScheduled) :
    (s.appended r a t attrs).Dense r := by
  refine ⟨fun id => ?_, fun id ev hev => ?_, fun _ _ => hfirst⟩
  · simp only [get_appended_row, Option.some.injEq, exists_eq_left']
    by_cases hid : id = a.historyLength + 1
    · subst hid
      simp [get_appended_event]
    · rw [get_appended_of_ne hid, hids]
      omega
  · by_cases hid : id = a.historyLength + 1
    · subst hid
      rw [get_appended_event] at hev
      exact (congrArg ActivityEvent.eventId (Option.some.inj hev)).symm
    · rw [get_appended_of_ne hid] at hev
      exact hkeyed id ev hev

theorem Dense.appended (h : s.Dense r) (ha : s.get (.act r) = some a) :
    (s.appended r a t attrs).Dense r := by
  obtain ⟨ev, hev, hfirst⟩ := h.first a ha
  have hpos := h.pos ha
  refine dense_appended (fun id => ?_) h.keyed ⟨ev, ?_, hfirst⟩
  · simpa [ha] using h.ids id
  · rwa [get_appended_of_ne (by omega)]

end ActivityStore

namespace Standalone

/-! ## Moves -/

section Moves

variable {s s' : ActivityStore}

theorem ActivityMove.dense (h : ActivityMove FreshStart s s') (hs : ∀ r, s.Dense r) (c : RunRef) :
    s'.Dense c := by
  cases h with
  | @tend r a a' t attrs ha h hC =>
    rcases eq_or_ne c r with rfl | hc
    · exact ((hs c).put_row ha h.historyLength).appended (ActivityStore.get_put_self _ _ _)
    · exact (hs c).congr (ActivityStore.same_put hc).row (ActivityStore.same_put hc).event
  | @create q run t t' hC =>
    rcases eq_or_ne c ⟨q.ns, q.activityID, run⟩ with rfl | hc
    · have hempty : ∀ id, (s.entered q run t).get (.ahist ⟨q.ns, q.activityID, run⟩ id) = none :=
        fun id => (ActivityStore.get_entered_of_ne (by simp) (by simp)).trans
          ((hs _).event_none hC id)
      have hlen : (q.row t).historyLength = 0 := rfl
      refine ActivityStore.dense_appended (fun id => ?_) (by simp [hempty])
        ⟨_, ActivityStore.get_appended_event, trivial⟩
      simp only [hempty, hlen, Option.isSome_none, Bool.false_eq_true, false_iff]
      omega
    · exact (hs c).congr (ActivityStore.same_entered hc).row (ActivityStore.same_entered hc).event

theorem ActivityMoves.dense (h : ActivityMoves FreshStart s s') (hs : ∀ r, s.Dense r) :
    ∀ r, s'.Dense r := by
  induction h with
  | refl => exact hs
  | tail _ hmove ih => exact hmove.dense ih

end Moves

/-! ## Operations -/

variable {r : RunRef} {s : Shard}

def StartActivityRequest.Unused (q : StartActivityRequest) (s : Shard) : Prop :=
  s.acts.get (.act ⟨q.ns, q.activityID, q.runID.getD s.world.nextId⟩) = none

theorem purgeActivityRun_dense {cutoff : Nat} (h : ∀ c, s.acts.Dense c) :
    Act.spec (purgeActivityRun r cutoff) (fun _ s' => ∀ c, s'.acts.Dense c) s := by
  simp only [purgeActivityRun, Act.spec_bind, Act.spec_describeActivity]
  cases s.acts.get (.act r) with
  | none => exact h
  | some a =>
    dsimp only
    split_ifs with hkeep
    · exact h
    simp only [Act.spec_bind, Act.spec_listEvents, Act.spec_listRequests, Act.spec_delAll,
      Act.spec_pure]
    intro c
    by_cases hc : c = r
    · subst hc
      refine .of_empty ?_ fun id => ?_ <;> rw [ActivityStore.get_foldl_del]
      · simp
      · split_ifs with hmem
        · rfl
        · refine Option.eq_none_iff_forall_ne_some.mpr fun ev hev => hmem ?_
          have hlisted := ActivityStore.mem_events.mpr hev
          simp only [List.mem_append, List.mem_map]
          exact .inl (.inl ⟨(id, ev), hlisted, rfl⟩)
    · refine (h c).congr ?_ fun id => ?_ <;> rw [ActivityStore.get_foldl_del, if_neg]
      · simp [hc]
      · simp [Ne.symm hc]

def ActivityOperation.Unused (s : Shard) : ActivityOperation → Prop
  | .start q => q.Unused s
  | _ => True

theorem program_dense (o : ActivityOperation) (h : ∀ c, s.acts.Dense c) (ho : o.Unused s) :
    ∀ c, ((program o).run activityHandler s).2.acts.Dense c := by
  have hmoves : o.Permitted FreshStart s →
      ∀ c, ((program o).run activityHandler s).2.acts.Dense c :=
    fun hp => (operation_moves freshStart_routine o hp).dense h
  cases o with
  | start q => exact hmoves ho
  | purge r cutoff => exact Act.run_of_spec (purgeActivityRun_dense h)
  | _ => exact hmoves trivial

/-- What an activity function leaves alone: all of the workflow runs' world
but the supply of run ids. -/
structure Beside (w w' : World) : Prop where
  store : w'.store = w.store
  disp : w'.disp = w.disp
  timers : w'.timers = w.timers

theorem program_beside {α : Type} (x : Program ActivityEffect ActivityEffect.Answer α) (s : Shard) :
    Beside s.world (x.run activityHandler s).2.world := by
  induction x generalizing s with
  | done a => exact ⟨rfl, rfl, rfl⟩
  | step e next ih =>
    have hstep : Beside s.world (activityHandler e s).2.world := by
      cases e <;> exact ⟨rfl, rfl, rfl⟩
    obtain ⟨h₁, h₂, h₃⟩ := ih (activityHandler e s).1 (activityHandler e s).2
    exact ⟨h₁.trans hstep.store, h₂.trans hstep.disp, h₃.trans hstep.timers⟩

end Standalone

/-! ## The histories of a shard -/

/-- The events of a run are exactly those its row counts, each under its own id,
and the first one starts the run. -/
structure Store.Dense (s : Store) (r : RunRef) : Prop where
  ids : ∀ id, (s.get (.wfh r id)).isSome ↔
    ∃ row, s.get (.wf r) = some row ∧ 1 ≤ id ∧ id ≤ row.historyLen
  keyed : ∀ id ev, s.get (.wfh r id) = some ev → ev.eventId = id
  first : ∀ row, s.get (.wf r) = some row →
    ∃ ev, s.get (.wfh r 1) = some ev ∧ ev.attrs.IsStart

theorem World.Shows.dense {w : World} {L : Ledger} {r : RunRef} (h : w.Shows L)
    (hr : (L.view r).Dense) : w.store.Dense r := by
  refine ⟨fun id => ?_, fun id ev hev => h.numbered r id ev ((h.event r id).symm.trans hev),
    fun row hrow => ?_⟩
  · rw [h.event, h.row]
    exact hr.ids id
  · rw [h.event]
    exact hr.first row ((h.row r).symm.trans hrow)

/-- Runs of the workflow operations in which no start takes the id of a stored
run. -/
def Scope.freshStarts : Scope := { fresh := fun _ => .rowless }

/-- One operation of a shard, on its workflow runs or on its activities. No start
takes the id of a stored run or activity. -/
inductive Shard.Step (fuel : Nat) : Shard → Shard → Prop
  | workflow {s : Shard} {w : World}
      (h : (Engine.system fuel).Reachable Scope.freshStarts.policy s.world ⟨w, .done ()⟩) :
      Step fuel s { s with world := w }
  | activity {s : Shard} (o : ActivityOperation) (h : o.Unused s) :
      Step fuel s ((program o).run activityHandler s).2

structure Shard.Fresh (s : Shard) : Prop where
  world : s.world.Fresh
  acts : s.acts = {}

/-- The histories of a shard: a ledger without gaps is shown, and the activities
have none. -/
structure Shard.Full (s : Shard) : Prop where
  runs : ∃ L, s.world.Shows L ∧ ∀ r, (L.view r).Dense
  acts : ∀ r, s.acts.Dense r

theorem Shard.Fresh.full {s : Shard} (h : s.Fresh) : s.Full := by
  refine ⟨⟨s.world.ledger, h.world.shows, fun r => ?_⟩, fun r => ?_⟩
  · constructor <;> simp [World.ledger, Ledger.view, h.world.store]
  · rw [h.acts]
    exact .of_empty (ActivityStore.get_empty _) fun _ => ActivityStore.get_empty _

theorem Shard.Step.full {fuel : Nat} {s s' : Shard} (h : s.Full) (hs : Shard.Step fuel s s') :
    s'.Full := by
  obtain ⟨L, hshows, hdense⟩ := h.runs
  cases hs with
  | workflow hreach =>
    obtain ⟨L', hshows', hmoves⟩ := Scope.reachable_moved hshows hreach
    exact ⟨⟨L', hshows', hmoves.dense (by simp [Scope.freshStarts]) hdense⟩, h.acts⟩
  | activity o ho =>
    have hbeside := program_beside (program o) s
    exact ⟨⟨L, hshows.aside hbeside.store hbeside.disp hbeside.timers, hdense⟩,
      program_dense o h.acts ho⟩

/-- Whatever is asked of a shard, in whatever order, no history of it has a gap,
as long as no start takes a run id that is stored. -/
theorem histories_dense {fuel : Nat} {s s' : Shard} (hfresh : s.Fresh)
    (h : Relation.ReflTransGen (Shard.Step fuel) s s') (r : RunRef) :
    s'.world.store.Dense r ∧ s'.acts.Dense r := by
  have hfull : s'.Full := by
    induction h with
    | refl => exact hfresh.full
    | tail _ hstep ih => exact hstep.full ih
  obtain ⟨L, hshows, hdense⟩ := hfull.runs
  exact ⟨hshows.dense (hdense r), hfull.acts r⟩

def emptyActivities : Shard := { world := Engine.emptyShard, clock := fun _ => 0 }

def oneRun : Shard :=
  { emptyActivities with
    world := (Engine.system 1).turns [.whole Engine.startRun] Engine.emptyShard }

def startActivityOne : ActivityOperation :=
  .start { ns := "n", activityID := "a", runID := some "q", type := "T" }

def completeActivityOne : ActivityOperation := .complete ⟨"n", "a", "q"⟩ .null "w"

def oneOfEach : Shard :=
  ((program completeActivityOne).run activityHandler
    ((program startActivityOne).run activityHandler oneRun).2).2

theorem oneOfEach_reached :
    Relation.ReflTransGen (Shard.Step 1) emptyActivities oneOfEach := by
  refine .tail (.tail (.single (.workflow ?_)) (.activity startActivityOne ?_))
    (.activity completeActivityOne trivial)
  · exact (Engine.system 1).reachable_turns _ Scope.freshStarts.policy_notDraw _ _
      ⟨⟨startRun_within _, by decide +kernel⟩, trivial⟩
  · rfl

theorem histories_dense_oneOfEach :
    (oneOfEach.world.store.get (.wf ⟨"n", "wf", "r"⟩)).map WorkflowExecution.historyLen = some 1 ∧
    (oneOfEach.acts.get (.act ⟨"n", "a", "q"⟩)).map StandaloneActivity.historyLength = some 2 ∧
    oneOfEach.world.store.Dense ⟨"n", "wf", "r"⟩ ∧ oneOfEach.acts.Dense ⟨"n", "a", "q"⟩ :=
  ⟨by decide +kernel, by decide +kernel,
    (histories_dense ⟨emptyShard_fresh, rfl⟩ oneOfEach_reached _).1,
    (histories_dense ⟨emptyShard_fresh, rfl⟩ oneOfEach_reached _).2⟩

end DurableTasks
