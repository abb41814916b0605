import DurableTasks.Safety.Lifetime

/-!
The streaks of failures, and what an activity's failed response leaves behind.
A streak is reported beside the run's own keys: no operation of the engine reads
one, so the streaks watch the engine and never steer it.
-/

namespace DurableTasks

open Effects Engine

/-! ## Streaks -/

/-- `FailureStreak`, without the times and the text of the last failure. -/
structure FailureStreak where
  ns : String
  workflowType : String
  activityType : String
  taskQueue : String
  scheduleId : String
  consecutiveFailures : Nat := 0
  attempt : Nat := 0
  retrying : Bool := false
  lastWorkflowId : String := ""
  lastRunId : String := ""

/-- `fingerprint`, with `sha` the hash in hexadecimal. -/
def FailureIdentity.fingerprint (sha : String → String) (id : FailureIdentity) : String :=
  sha (String.intercalate "\x00" [id.workflowType, id.activityType, id.taskQueue, id.scheduleId])

def FailureIdentity.failKey (sha : String → String) (id : FailureIdentity) : String :=
  "fail/" ++ id.ns ++ "/" ++ id.fingerprint sha

abbrev Streaks := String → Option FailureStreak

def FailureIdentity.streak (id : FailureIdentity) : FailureStreak :=
  { ns := id.ns, workflowType := id.workflowType, activityType := id.activityType
    taskQueue := id.taskQueue, scheduleId := id.scheduleId }

def Streaks.record (sha : String → String) (s : Streaks) (id : FailureIdentity) (retrying : Bool) :
    Streaks :=
  let rec₀ := (s (id.failKey sha)).getD id.streak
  Function.update s (id.failKey sha)
    (some { rec₀ with
      consecutiveFailures := rec₀.consecutiveFailures + 1, attempt := id.attempt
      retrying := retrying, lastWorkflowId := id.workflowId, lastRunId := id.runId })

def Streaks.clear (sha : String → String) (s : Streaks) (id : FailureIdentity) : Streaks :=
  Function.update s (id.failKey sha) none

def Streaks.watch (sha : String → String) : Effect → Streaks → Streaks
  | .recordFailure id retrying, s => s.record sha id retrying
  | .clearFailure id, s => s.clear sha id
  | _, s => s

def reporting (sha : String → String) : Handler Effect Effect.Answer (World × Streaks) :=
  Program.watched handler (Streaks.watch sha)

theorem Streaks.record_ne_none (sha : String → String) (s : Streaks) (id : FailureIdentity)
    (retrying : Bool) {key : String} (h : s key ≠ none) : s.record sha id retrying key ≠ none := by
  unfold record
  by_cases hkey : key = id.failKey sha
  · subst hkey
    simp
  · rwa [Function.update_of_ne hkey]

/-! ## Successes -/

/-- What records the success of an activity: its record or its event. -/
def Key.Success : (k : Key) → k.Val → Prop
  | .wfact _ _, a => a.status = .completed
  | .wfh _ _, ev => ev.attrs.isActivityCompleted = true
  | _, _ => False

/-- From `x` to `y` no success was recorded: no record became completed, no
event of a completion was stored, and no streak ended. -/
structure NoSuccess (x y : World × Streaks) : Prop where
  stored : ∀ k v, y.1.store.get k = some v → k.Success v → x.1.store.get k = some v
  streak : ∀ key, x.2 key ≠ none → y.2 key ≠ none

def Effect.Unsuccessful : Effect → Prop
  | .write (.put k v) => ¬ k.Success v
  | .clearFailure _ => False
  | _ => True

theorem NoSuccess.refl (x : World × Streaks) : NoSuccess x x := ⟨fun _ _ h _ => h, fun _ h => h⟩

theorem NoSuccess.same {x y y' : World × Streaks} (h : NoSuccess x y)
    (hstore : y'.1.store = y.1.store) (hstreak : y'.2 = y.2) : NoSuccess x y' :=
  ⟨fun k v hget => h.stored k v (hstore ▸ hget), fun key hkey => hstreak ▸ h.streak key hkey⟩

theorem NoSuccess.write {x y : World × Streaks} (h : NoSuccess x y) {z : Write}
    (hz : Effect.Unsuccessful (.write z)) : NoSuccess x (y.1.write z, y.2) := by
  refine ⟨fun k v hget hk => ?_, h.streak⟩
  cases z with
  | put k' v' =>
    by_cases heq : k = k'
    · subst heq
      obtain rfl : v' = v := by simpa [Store.apply] using hget
      exact absurd hk hz
    · exact h.stored k v (by simpa [Store.apply, Store.get_put_of_ne _ _ heq] using hget) hk
  | del k' =>
    by_cases heq : k = k'
    · subst heq
      simp [Store.apply] at hget
    · exact h.stored k v (by simpa [Store.apply, Store.get_del_of_ne _ heq] using hget) hk
  | close r c => exact h.stored k v hget hk

theorem NoSuccess.effect {sha : String → String} {x y : World × Streaks} (h : NoSuccess x y)
    {e : Effect} (he : e.Unsuccessful) : NoSuccess x (reporting sha e y).2 := by
  cases e with
  | write z => exact h.write he
  | recordFailure id retrying =>
    exact ⟨h.stored, fun key hkey => Streaks.record_ne_none sha _ id retrying (h.streak key hkey)⟩
  | clearFailure id => exact he.elim
  | _ => exact h.same rfl rfl

/-! ## The failed response -/

/-- A failure that is not empty is never taken for a success. -/
theorem completion_unsuccessful {r : RunRef} {seq : Int} {failure : Raw}
    (h : failure.isEmpty = false) : Completion Effect.Unsuccessful r seq failure where
  lock := trivial
  unlock := trivial
  now := trivial
  record := trivial
  row := trivial
  events := trivial
  put b hb hcompleted := by simp [h] at hb; exact hb hcompleted
  event id t attrs hattrs hcompleted := by
    simp [h] at hattrs
    exact absurd (show attrs.isActivityCompleted = true from hcompleted) (by simp [hattrs])
  count _ hrow := hrow
  task _ _ := trivial
  timer := trivial
  failed _ _ := trivial
  recovered _ hempty := by simp [h] at hempty

theorem unsuccessful_respondActivityFailed {token : Nat} {failure : Raw}
    (h : failure.isEmpty = false) :
    OnlyOf Effect.Unsuccessful Any (respondActivityFailed token failure) := by
  refine .bind (onlyOf_call trivial) fun found _ => ?_
  cases found with
  | none => exact .throw _
  | some t => exact (completion_unsuccessful h).onlyOf _

/-- The record of an activity whose empty failure was taken for a success. -/
def WorkflowActivity.mistaken (a : WorkflowActivity) : WorkflowActivity :=
  { a with status := .completed, result := .empty }

/-- The token is out for a pending activity of a run that is open, or gone. What
a stored record holds was read from JSON, so that it can be stored again. -/
structure Awaited (w : World) (token : Nat) (t : ActivityTask) (a : WorkflowActivity) : Prop where
  out : (w.disp.resolveActivityToken token).1 = some t
  stored : w.store.get (.wfact t.ref t.seq) = some a
  pending : a.isTerminal = false
  storable : a.mistaken.storable = true
  notClosed : ∀ row, w.store.get (.wf t.ref) = some row → row.isOpen = true

def Store.Answers (s : Store) : (e : Effect) → e.Answer → Prop
  | .get k, found => found = .ok (s.get k)
  | _, _ => True

def Effect.Looks : Effect → Prop
  | .get _ | .lock _ | .unlock _ => True
  | _ => False

section Idle

variable {s : Store} {r : RunRef} {seq : Int}

theorem looks_get (k : Key) : GivenOf s.Answers Effect.Looks (fun v => v = s.get k) (get k) :=
  (givenOf_get trivial).mono fun _ h => Except.ok.inj h

theorem looks_describeWorkflow (r : RunRef) :
    (describeWorkflow r).run.Given s.Answers Effect.Looks
      (fun res => res = .ok ((s.get (.wf r)).map (Prod.mk r))) := by
  refine ⟨trivial, fun res hres => ?_⟩
  obtain rfl : res = .ok (s.get (.wf r)) := hres
  rfl

/-- An empty failure for an activity that does not wait for it changes
nothing. -/
theorem looks_completeWorkflowActivity {failure : Raw} (hempty : failure.isEmpty = true)
    (h : ∀ a, s.get (.wfact r seq) = some a → a.isTerminal = false → a.mistaken.storable = true →
      ∃ row, s.get (.wf r) = some row ∧ row.isOpen = false) :
    GivenOf s.Answers Effect.Looks Any (completeWorkflowActivity r seq .empty failure) := by
  refine givenOf_withRun trivial trivial (.bind (looks_get _) fun found hfound => ?_)
  cases found with
  | none => exact .throw _
  | some a =>
    dsimp only
    split_ifs with hterm
    · exact .pure trivial
    -- what cannot be stored is refused before anything is written
    have hadvance : ∀ wfe, (∀ row, s.get (.wf r) = some row → row.isOpen = true) →
        GivenOf s.Answers Effect.Looks Any
          (completeWorkflowActivity.advance r seq .empty failure wfe a) := by
      intro wfe hopen
      have hbad : ¬ a.mistaken.storable = true := by
        intro hstorable
        obtain ⟨row, hrow, hclosed⟩ := h a hfound.symm (by simpa using hterm) hstorable
        simp [hopen row hrow] at hclosed
      unfold completeWorkflowActivity.advance recordOutcome putWorkflowActivity
      rw [if_pos hempty, if_neg (by exact hbad)]
      exact .throw _
    refine .bind (.lift (looks_describeWorkflow r)) fun res hres => ?_
    subst hres
    cases hrow : s.get (.wf r) with
    | none => exact hadvance none (by simp [hrow])
    | some row =>
      dsimp only [Option.map_some]
      split_ifs with hclosed
      · exact .pure trivial
      · grind [WorkflowExecution.isOpen]

end Idle

def respondFailed (sha : String → String) (token : Nat) (failure : Raw) (x : World × Streaks) :
    World × Streaks :=
  ((respondActivityFailed token failure).run.run (reporting sha) x).2

variable {sha : String → String} {token : Nat} {failure : Raw} {w : World} {s : Streaks}

theorem respondFailed_idle (hempty : failure.isEmpty = true) (h : ∀ t a, ¬ Awaited w token t a) :
    NoSuccess (w, s) (respondFailed sha token failure (w, s)) := by
  rw [respondFailed, respondActivityFailed, resolveActivityToken, run_call_bind]
  set y := (reporting sha (.resolveActivityToken token) (w, s)).2
  have hy : NoSuccess (w, s) y := (NoSuccess.refl _).effect trivial
  cases hout : (reporting sha (.resolveActivityToken token) (w, s)).1 with
  | none => exact hy
  | some t =>
    have hlooks : GivenOf w.store.Answers Effect.Looks Any
        (completeWorkflowActivity t.ref t.seq .empty failure) := by
      refine looks_completeWorkflowActivity hempty fun a hstored hpending hstorable => ?_
      by_contra hclosed
      refine h t a ⟨hout, hstored, hpending, hstorable, fun row hrow => ?_⟩
      by_contra hshut
      exact hclosed ⟨row, hrow, by simpa using hshut⟩
    have hend := Program.Given.run (h := reporting sha)
      (I := fun x => x.1.store = w.store ∧ x.2 = s) ?_ ?_ hlooks (w := y) ⟨rfl, rfl⟩
    · exact hy.same hend.1 hend.2
    · rintro e x ⟨hstore, -⟩
      cases e with
      | get k => exact congrArg (fun st => Except.ok (Store.get st k)) hstore
      | _ => trivial
    · rintro e x he hx
      cases e with
      | get k => exact hx
      | lock r => exact hx
      | unlock r => exact hx
      | _ => exact he.elim

theorem respondFailed_completes {t : ActivityTask} {a : WorkflowActivity}
    (hempty : failure.isEmpty = true) (h : Awaited w token t a) :
    (respondFailed sha token failure (w, s)).1.store.get (.wfact t.ref t.seq) =
      some a.mistaken := by
  rw [respondFailed, reporting, Program.run_watched]
  have hspec : (respondActivityFailed token failure).spec (fun _ => True) (fun _ _ => True)
      (fun _ w' => w'.store.get (.wfact t.ref t.seq) = some a.mistaken) w := by
    simp only [respondActivityFailed, Go.spec_bind, Go.spec_resolveActivityToken, h.out]
    refine completeWorkflowActivity_cases (by simp [h.stored]) ?_ fun _ hget _ _ => ?_
    · rintro _ hget (hterm | ⟨row, hrow, hshut⟩)
      · simp [← Option.some.inj (h.stored.symm.trans hget), h.pending] at hterm
      · simp [h.notClosed row hrow] at hshut
    · obtain rfl := Option.some.inj (h.stored.symm.trans hget)
      rw [completeWorkflowActivity.advance, if_pos hempty]
      exact recordOutcome_stores h.storable
  exact Go.run_of_spec hspec

/-- A failed response records no success, unless its failure is empty and an
activity waits for it. -/
theorem failed_response_no_success (sha : String → String) (token : Nat) (failure : Raw) (w : World)
    (s : Streaks) :
    NoSuccess (w, s) (respondFailed sha token failure (w, s)) ↔
      ¬ (failure.isEmpty = true ∧ ∃ t a, Awaited w token t a) := by
  constructor
  · rintro h ⟨hempty, t, a, hawaited⟩
    have hstored := h.stored _ _ (respondFailed_completes hempty hawaited) rfl
    have hmistaken : a = a.mistaken := Option.some.inj (hawaited.stored.symm.trans hstored)
    have hpending := hawaited.pending
    rw [hmistaken] at hpending
    cases hpending
  · intro h
    cases hempty : failure.isEmpty with
    | true => exact respondFailed_idle hempty fun t a hawaited => h ⟨hempty, t, a, hawaited⟩
    | false =>
      exact Program.Given.run (fun _ _ _ => trivial) (fun e y he hy => hy.effect he)
        (unsuccessful_respondActivityFailed hempty) (.refl _)

def busyActivity : FailureIdentity :=
  { ns := "n", workflowType := "T", activityType := "A", taskQueue := "default", workflowId := "wf"
    runId := "r" }

/-- A worker reports a failure without a payload. The activity is completed,
with its event, and the streak it had is gone. -/
theorem empty_failure_succeeds :
    let x := (busyShard, Streaks.record id (fun _ => none) busyActivity true)
    let y := respondFailed id 1 .empty x
    ¬ NoSuccess x y ∧
      (x.1.store.get (.wfact ⟨"n", "wf", "r"⟩ 0)).map (fun a => a.status) = some .started ∧
      (y.1.store.get (.wfact ⟨"n", "wf", "r"⟩ 0)).map (fun a => a.status) = some .completed ∧
      (y.1.store.get (.wfh ⟨"n", "wf", "r"⟩ 4)).map (fun ev => ev.attrs.isActivityCompleted) =
        some true ∧
      (x.2 (busyActivity.failKey id)).isSome = true ∧ y.2 (busyActivity.failKey id) = none := by
  intro x y
  have hbefore : (x.1.store.get (.wfact ⟨"n", "wf", "r"⟩ 0)).map (fun a => a.status) =
      some .started := by decide +kernel
  have hafter : (y.1.store.get (.wfact ⟨"n", "wf", "r"⟩ 0)).map (fun a => a.status) =
      some .completed := by decide +kernel
  refine ⟨fun h => ?_, hbefore, hafter, by decide +kernel, by decide +kernel, ?_⟩
  · obtain ⟨b, hb, hstatus⟩ := Option.map_eq_some_iff.mp hafter
    have hsame := h.stored _ _ hb hstatus
    rw [hsame, Option.map_some, hstatus] at hbefore
    cases hbefore
  · exact Option.isNone_iff_eq_none.mp (by decide +kernel)

end DurableTasks
