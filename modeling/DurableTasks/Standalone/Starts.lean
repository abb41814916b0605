import DurableTasks.Standalone.Specs

/-!
What `StartActivity` does, exactly: whether an earlier request answers it, and
what it writes where none does.
-/

namespace DurableTasks

open Effects Standalone

variable {t : Nat} {attrs : ActivityEventAttrs} {Q : Post (Option StandaloneActivity) Shard}

structure ActivityStore.SameActivity (s s' : ActivityStore) (r : RunRef) : Prop where
  row : s'.get (.act r) = s.get (.act r)
  event : ∀ id, s'.get (.ahist r id) = s.get (.ahist r id)

/-- What an earlier start under the same request id made, if it is still
there. -/
def ActivityStore.prior (s : ActivityStore) (a : StartActivityRequest) :
    Option StandaloneActivity :=
  if a.requestID = "" then none
  else (s.get (.aidem a.ns a.activityID a.requestID)).bind fun run =>
    if run = "" then none else s.get (.act ⟨a.ns, a.activityID, run⟩)

def ActivityStore.entered (s : ActivityStore) (a : StartActivityRequest) (run : String) (t : Nat) :
    ActivityStore :=
  if a.requestID = "" then s.put (.act ⟨a.ns, a.activityID, run⟩) (a.row t)
  else (s.put (.act ⟨a.ns, a.activityID, run⟩) (a.row t)).put
    (.aidem a.ns a.activityID a.requestID) run

def Standalone.StartActivityRequest.counted (a : StartActivityRequest) (t : Nat) :
    StandaloneActivity :=
  { a.row t with historyLength := 1 }

def Shard.created (s : Shard) (a : StartActivityRequest) (run : String) : Shard :=
  { s.tick.tick with
    acts := (s.acts.entered a run (rfc3339 s.time)).appended ⟨a.ns, a.activityID, run⟩
      (a.row (rfc3339 s.time)) (rfc3339 s.tick.time) a.event }

section Created

variable {s : Shard} {a : StartActivityRequest} {run : String}

theorem ActivityStore.get_entered {s : ActivityStore} :
    (s.entered a run t).get (.act ⟨a.ns, a.activityID, run⟩) = some (a.row t) := by
  unfold entered
  split_ifs <;> simp [get_put_of_ne]

theorem ActivityStore.get_entered_of_ne {s : ActivityStore} {k : ActivityKey}
    (hrow : k ≠ .act ⟨a.ns, a.activityID, run⟩) (hreq : k ≠ .aidem a.ns a.activityID a.requestID) :
    (s.entered a run t).get k = s.get k := by
  unfold entered
  split_ifs
  · exact get_put_of_ne _ _ hrow
  · rw [get_put_of_ne _ _ hreq, get_put_of_ne _ _ hrow]

theorem ActivityStore.same_put {s : ActivityStore} {r c : RunRef} {b : StandaloneActivity}
    (hc : c ≠ r) : s.SameActivity ((s.put (.act r) b).appended r b t attrs) c :=
  ⟨(get_appended_row_other hc).trans (get_put_of_ne _ _ (by simpa using hc)),
    fun id => (get_appended_event_other hc id).trans (get_put_of_ne _ _ (by simp))⟩

theorem ActivityStore.same_entered {s : ActivityStore} {c : RunRef} {t' : Nat}
    (hc : c ≠ ⟨a.ns, a.activityID, run⟩) :
    s.SameActivity ((s.entered a run t).appended ⟨a.ns, a.activityID, run⟩ (a.row t) t' attrs) c :=
  ⟨(get_appended_row_other hc).trans (get_entered_of_ne (by simpa using hc) (by simp)),
    fun id => (get_appended_event_other hc id).trans (get_entered_of_ne (by simp) (by simp))⟩

theorem Shard.get_created_row :
    (s.created a run).acts.get (.act ⟨a.ns, a.activityID, run⟩) =
      some (a.counted (rfc3339 s.time)) :=
  ActivityStore.get_appended_row

theorem Shard.get_created_event :
    (s.created a run).acts.get (.ahist ⟨a.ns, a.activityID, run⟩ 1) =
      some ⟨1, rfc3339 s.tick.time, a.event⟩ :=
  ActivityStore.get_appended_event

theorem Shard.get_created_event_of_ne {id : Nat} (hid : id ≠ 1) :
    (s.created a run).acts.get (.ahist ⟨a.ns, a.activityID, run⟩ id) =
      s.acts.get (.ahist ⟨a.ns, a.activityID, run⟩ id) := by
  have hne : id ≠ (a.row (rfc3339 s.time)).historyLength + 1 := hid
  simp only [created, ActivityStore.appended, ActivityStore.entered]
  rw [ActivityStore.get_put_of_ne _ _ (by simp),
    ActivityStore.get_put_of_ne _ _ (by simpa using hne)]
  split_ifs <;> simp [ActivityStore.get_put_of_ne]

end Created

namespace Standalone

variable {s : Shard} {a : StartActivityRequest}

/-- The end of a start: the event, and the row that counts it. -/
theorem spec_scheduled {r : RunRef} {row : StandaloneActivity}
    (hrow : s.acts.get (.act r) = some row) :
    Act.spec (do
        let _ ← appendActivityHistory r attrs
        match ← attempt (describeActivity r) with
        | .ok found => return found
        | .error _ => return none) Q s ↔
      Q (.ok (some { row with historyLength := row.historyLength + 1 }))
        { s.tick with acts := s.acts.appended r row (rfc3339 s.time) attrs } := by
  rw [Act.spec_bind, spec_appendActivityHistory hrow]
  dsimp only
  rw [Act.spec_bind, Act.spec_attempt, Act.spec_describeActivity, ActivityStore.get_appended_row]
  rfl

theorem spec_createActivity {run : String} :
    Act.spec (createActivity a run) Q s ↔
      Q (.ok (some (a.counted (rfc3339 s.time)))) (s.created a run) := by
  have hentered : (s.acts.entered a run (rfc3339 s.time)).get
      (.act ⟨a.ns, a.activityID, run⟩) = some (a.row (rfc3339 s.time)) :=
    ActivityStore.get_entered
  rw [createActivity, Act.spec_bind, Act.spec_nowRFC3339]
  dsimp only
  rw [Act.spec_bind, Act.spec_put]
  unfold Shard.created
  unfold ActivityStore.entered at *
  dsimp only
  split_ifs at * with hreq
  · exact spec_scheduled (s := s.tick.put (.act ⟨a.ns, a.activityID, run⟩) _) hentered
  · rw [Act.spec_bind, Act.spec_attempt, Act.spec_put]
    exact spec_scheduled
      (s := (s.tick.put (.act ⟨a.ns, a.activityID, run⟩) _).put (.aidem _ _ _) _) hentered

/-- A start is refused, answered by an earlier one, or creates an activity. -/
theorem spec_startActivity :
    Act.spec (startActivity a) Q s ↔
      if s.world.store.get (.ns a.ns) = none then
        Q (.error s!"namespace {a.ns.quote} not registered") s
      else if a.type = "" then Q (.error "activity type required") s
      else if a.activityID = "" then Q (.error "activityId required") s
      else
        match s.acts.prior a with
        | some found => Q (.ok (some found)) s
        | none =>
          match a.runID with
          | some run => Q (.ok (some (a.counted (rfc3339 s.time)))) (s.created a run)
          | none => Q (.ok (some (a.counted (rfc3339 s.time))))
              (s.mint.created a s.world.nextId) := by
  rw [startActivity, Act.spec_bind, Act.spec_attempt, Act.spec_describeNamespace]
  cases s.world.store.get (.ns a.ns) with
  | none => simp
  | some n =>
    dsimp only
    simp only [reduceCtorEq, if_false]
    split_ifs with htype hid
    · rfl
    · rfl
    rw [Act.spec_bind]
    have hprior : ∀ {P : Except String (Option StandaloneActivity) → Shard → Prop},
        Act.spec (priorActivity a) P s ↔ P (.ok (s.acts.prior a)) s := by
      intro P
      unfold priorActivity ActivityStore.prior
      split_ifs with hreq
      · rfl
      · rw [Act.spec_bind, Act.spec_attempt, Act.spec_get]
        cases s.acts.get (.aidem a.ns a.activityID a.requestID) with
        | none => rfl
        | some run =>
          dsimp only [Option.bind_some]
          split_ifs with hrun
          · rfl
          · rw [Act.spec_bind, Act.spec_attempt, Act.spec_describeActivity]
            rfl
    rw [hprior]
    cases s.acts.prior a with
    | some found => rfl
    | none =>
      dsimp only
      rw [Act.spec_bind, runIDFor]
      cases a.runID with
      | some run => exact spec_createActivity
      | none => exact Act.spec_newRunId.trans spec_createActivity

end Standalone

end DurableTasks
