import DurableTasks.Engine.Invariants

/-!
What a crash can do to a history: which events it loses, and which of the
things a reader of the history relies on survive it.
-/

namespace DurableTasks

open Effects Engine

variable {win : Window} {r : RunRef} {s : Store} {x : Write} {w : World} {seq : Int}
  {a : WorkflowActivity} {row : WorkflowExecution}

/-! ## Stored events stay -/

def Licence.once : Licence := { fresh := .unused, reclose := True }

/-- An event is counted by its run's row, or is being written. -/
def Store.Counts (s : Store) (win : Window) (r : RunRef) (id : Nat) : Prop :=
  ∃ row, s.get (.wf r) = some row ∧
    (id ≤ row.historyLen ∨ ∃ id' attrs, win = .event r id' attrs ∧ id ≤ id')

def Store.Counted (s : Store) (win : Window) : Prop :=
  ∀ r id ev, s.get (.wfh r id) = some ev → s.Counts win r id

def Window.NoEvent (win : Window) : Prop := ∀ r id attrs, win ≠ .event r id attrs

theorem Window.Admits.noEvent {attrs : EventAttrs} (h : win.Admits r attrs) : win.NoEvent := by
  rintro r' id attrs' rfl
  exact h

theorem Store.Counts.le {id : Nat} (h : s.Counts win r id) (hwin : win.NoEvent) :
    ∃ row, s.get (.wf r) = some row ∧ id ≤ row.historyLen := by
  obtain ⟨row, hrow, hle | ⟨id', attrs, heq, -⟩⟩ := h
  · exact ⟨row, hrow, hle⟩
  · exact absurd heq (hwin _ _ _)

theorem Store.Counted.write (h : s.Counted win) (hx : Allowed .once s win x) :
    (s.apply x).Counted (win.next x) := by
  intro r id ev hev
  rcases Store.get_apply_some hev with hwas | rfl
  swap
  · cases hx with
    | append stored _ _ | copy stored _ _ _ _ _ _ =>
      exact ⟨_, (s.get_apply_of_ne (by simp)).trans stored, .inr ⟨_, _, rfl, le_rfl⟩⟩
  obtain ⟨row, hrow, hcount⟩ := h r id ev hwas
  rcases x.key_cases (.wf r) with hk | ⟨row', rfl⟩ | rfl
  · have hkept : (s.apply x).get (.wf r) = some row := (s.get_apply_of_ne hk).trans hrow
    rcases hcount with hle | ⟨id', attrs, rfl, hle⟩
    · exact ⟨row, hkept, .inl hle⟩
    -- only an event of the same copy can follow, under a larger id
    cases hx with
    | copy stored running beyond recordless following numbered copied =>
      obtain ⟨id₂, attrs₂, hwin, hlt⟩ := following.resolve_left (by simp)
      obtain ⟨rfl, rfl, -⟩ := Window.event.inj hwin
      exact ⟨row, hkept, .inr ⟨_, _, rfl, hle.trans hlt.le⟩⟩
    | count stored more following =>
      obtain ⟨id₂, attrs₂, hwin, -⟩ := following.resolve_left (by simp)
      obtain ⟨rfl, -⟩ := Window.event.inj hwin
      simp at hk
    | append stored admits numbered => exact admits.elim
    | unlist shut following => rcases following with (hwin | hwin) | ⟨c, hwin⟩ <;> cases hwin
    | purgeEvent _ following | purgeRecord _ following | purgeRow following
    | purgeRequest _ _ _ following | purgeTrigger _ _ _ following =>
      rcases following with hwin | hwin <;> cases hwin
  · refine ⟨row', s.get_put_self (.wf r) row', .inl ?_⟩
    cases hx with
    | create entry running unwritten fresh named =>
      rw [fresh.1] at hrow
      cases hrow
    | update stored type len time status =>
      obtain rfl : row = _ := by simpa [hrow] using stored
      obtain hle | ⟨_, _, hwin, -⟩ := hcount
      · exact hle.trans len.ge
      · cases hwin
    | count stored more following =>
      obtain rfl : row = _ := by simpa [hrow] using stored
      rcases hcount with hle | ⟨id', attrs, rfl, hle⟩
      · exact hle.trans more
      · grind
    | close stored closable terminal =>
      obtain rfl : row = _ := by simpa [hrow] using stored
      obtain hle | ⟨_, _, hwin, -⟩ := hcount
      · exact hle
      · cases hwin
  · cases hx with
    | purgeRow following shut noEvents noRecords =>
      rw [noEvents id] at hwas
      cases hwas

theorem Store.Counted.settle (h : s.Counted win) (hwin : win.NoEvent) : s.Counted .settled := by
  intro r id ev hev
  obtain ⟨row, hrow, hle⟩ := (h r id ev hev).le hwin
  exact ⟨row, hrow, .inl hle⟩

theorem World.AtRest.noEvent (h : w.AtRest) : w.window.NoEvent := by
  rcases h with h | ⟨r, seq, a, h, -⟩ <;> simp [Window.NoEvent, h]

def HistoryEvent.signal (ev : HistoryEvent) : Option String :=
  match ev.attrs with
  | .signaled name _ _ => some name
  | _ => none

/-- The outcome of a terminal record is in the history its row counts, or is
being written. -/
def Store.OutcomeSeen (s : Store) (win : Window) (r : RunRef) (seq : Int) (a : WorkflowActivity)
    (row : WorkflowExecution) : Prop :=
  win = .outcome r seq a ∨ ∃ id ev, s.get (.wfh r id) = some ev ∧ ev.attrs = a.outcome seq ∧
    (id ≤ row.historyLen ∨ win = .event r id ev.attrs)

/-- Every terminal record of an open run has its outcome in the history. -/
def Store.OutcomesSeen (s : Store) (win : Window) : Prop :=
  ∀ r seq a row, s.get (.wfact r seq) = some a → a.isTerminal = true →
    s.get (.wf r) = some row → row.isOpen = true → s.OutcomeSeen win r seq a row

/-- Neither an event nor an outcome of `r` is in the middle of being written. -/
def Window.CalmFor (win : Window) (r : RunRef) : Prop :=
  (∀ id attrs, win ≠ .event r id attrs) ∧ ∀ seq a, win ≠ .outcome r seq a

theorem Window.calmFor_of_run (h : win.run ≠ some r) : win.CalmFor r := by
  cases win <;> simp_all [CalmFor]

theorem Store.OutcomeSeen.frame {s' : Store} {win' : Window} {row' : WorkflowExecution}
    (h : s.OutcomeSeen win r seq a row) (hwin : win.CalmFor r)
    (hlen : row.historyLen ≤ row'.historyLen)
    (hkept : ∀ id, id ≤ row.historyLen → s'.get (.wfh r id) = s.get (.wfh r id)) :
    s'.OutcomeSeen win' r seq a row' := by
  obtain hout | ⟨id, ev, hev, hattrs, hle | hevent⟩ := h
  · exact absurd hout (hwin.2 _ _)
  · exact .inr ⟨id, ev, (hkept id hle).trans hev, hattrs, .inl (hle.trans hlen)⟩
  · exact absurd hevent (hwin.1 _ _)

/-- A write to neither the record nor the row. -/
theorem Store.OutcomesSeen.write_beside (h : s.OutcomesSeen win) (hx : Allowed .once s win x)
    (hact : s.get (.wfact r seq) = some a) (hterm : a.isTerminal = true)
    (hrow : s.get (.wf r) = some row) (hopen : row.isOpen = true)
    (hk : x.key ≠ some (.wfact r seq)) (hkrow : x.key ≠ some (.wf r)) :
    (s.apply x).OutcomeSeen (win.next x) r seq a row := by
  have hseen := h r seq a row hact hterm hrow hopen
  by_cases hr : x.run = some r
  swap
  · refine hseen.frame ?_ le_rfl fun id _ => Store.get_elsewhere hr rfl
    rcases hx.elsewhere hr with hwin | ⟨rfl, -⟩
    · exact Window.calmFor_of_run hwin
    · simp [Window.CalmFor]
  cases hx with
  | append stored admits numbered =>
    rename_i row' ev'
    obtain rfl := Option.some.inj hr
    obtain rfl : row' = row := by simpa [stored] using hrow
    obtain rfl | ⟨id, ev, hev, hattrs, hle | rfl⟩ := hseen
    · -- the event the outcome was waiting for
      exact .inr ⟨_, ev', s.get_put_self (.wfh _ _) _, admits.2.symm, .inr rfl⟩
    · exact .inr ⟨id, ev, (s.get_apply_of_ne (by simp; omega)).trans hev, hattrs, .inl hle⟩
    · exact admits.elim
  | copy stored running beyond recordless following numbered copied =>
    obtain rfl := Option.some.inj hr
    rw [recordless rfl seq] at hact
    cases hact
  | purgeEvent _ following stored shut | purgeRecord _ following stored shut =>
    obtain rfl := Option.some.inj hr
    obtain rfl : _ = row := by simpa [stored] using hrow
    simp [shut] at hopen
  | unlist shut _ =>
    obtain rfl := Option.some.inj hr
    simp [shut row hrow] at hopen
  | enlist | record | note =>
    exact hseen.frame (Window.calmFor_of_run (by simp)) le_rfl
      fun id _ => s.get_apply_of_ne (by simp)
  | create | update | count | close | purgeRow =>
    obtain rfl := Option.some.inj hr
    exact absurd rfl hkrow
  | _ => simp at hr

theorem Store.OutcomesSeen.write (h : s.OutcomesSeen win) (hx : Allowed .once s win x) :
    (s.apply x).OutcomesSeen (win.next x) := by
  intro r seq a row hact hterm hrow hopen
  have hsettled : (Window.settled).CalmFor r := Window.calmFor_of_run (by simp)
  rcases x.key_cases (.wfact r seq) with hk | ⟨b, rfl⟩ | rfl
  · rw [s.get_apply_of_ne hk] at hact
    rcases x.key_cases (.wf r) with hkrow | ⟨row', rfl⟩ | rfl
    · rw [s.get_apply_of_ne hkrow] at hrow
      exact h.write_beside hx hact hterm hrow hopen hk hkrow
    · obtain rfl : row' = row := by simpa using hrow
      cases hx with
      | create entry running unwritten fresh named =>
        rw [fresh.2.2 seq] at hact
        cases hact
      | update stored type len time status =>
        rename_i row₀
        have hopen₀ : row₀.isOpen = true := by
          rcases status with heq | ⟨h, -⟩
          · simpa [WorkflowExecution.isOpen, heq] using hopen
          · exact h
        exact (h r seq a row₀ hact hterm stored hopen₀).frame hsettled len.ge
          fun id _ => s.get_apply_of_ne (by simp)
      | count stored more following =>
        obtain hout | ⟨id, ev, hev, hattrs, hcount⟩ := h r seq a _ hact hterm stored hopen
        · rcases following with rfl | ⟨id₁, attrs, rfl, -⟩ <;> cases hout
        refine .inr ⟨id, ev, (s.get_apply_of_ne (by simp)).trans hev, hattrs, .inl ?_⟩
        rcases hcount with hle | rfl
        · exact hle.trans more
        · obtain ⟨id₁, attrs, hevent, hle⟩ := following.resolve_left (by simp)
          obtain ⟨-, rfl, -⟩ := Window.event.inj hevent
          exact hle
      | close stored closable terminal =>
        simp [WorkflowExecution.isOpen, closedRow, terminal] at hopen
    · simp at hrow
  · obtain rfl : b = a := by simpa using hact
    cases hx with
    | record storable pending running patient => exact .inl (by simp [Window.next, hterm])
  · simp at hact

def EventAttrs.isOutcome : EventAttrs → Bool
  | .activityCompleted _ _ _ | .activityFailed _ _ _ => true
  | _ => false

theorem WorkflowActivity.isOutcome_outcome (a : WorkflowActivity) (seq : Int) :
    (a.outcome seq).isOutcome = true := by
  unfold outcome
  split <;> rfl

/-- A crash here loses no outcome: none has its record stored and its event
not yet counted. -/
def World.OutcomeSafe (w : World) : Prop :=
  match w.window with
  | .outcome r _ _ => w.store.get (.wf r) = none
  | .event _ _ attrs => attrs.isOutcome = false
  | _ => True

/-- Where a crash loses no outcome, every outcome is counted. -/
theorem Store.OutcomesSeen.counted (h : w.store.OutcomesSeen w.window) (hsafe : w.OutcomeSafe)
    (hact : w.store.get (.wfact r seq) = some a) (hterm : a.isTerminal = true)
    (hrow : w.store.get (.wf r) = some row) (hopen : row.isOpen = true) :
    ∃ id ev, id ≤ row.historyLen ∧ w.store.get (.wfh r id) = some ev ∧
      ev.attrs = a.outcome seq := by
  unfold World.OutcomeSafe at hsafe
  obtain hwin | ⟨id, ev, hev, hattrs, hle | hwin⟩ := h r seq a row hact hterm hrow hopen
  · simp [hwin, hrow] at hsafe
  · exact ⟨id, ev, hle, hev, hattrs⟩
  · simp [hwin, hattrs, a.isOutcome_outcome] at hsafe

theorem Store.OutcomesSeen.settle (h : w.store.OutcomesSeen w.window) (hsafe : w.OutcomeSafe) :
    w.store.OutcomesSeen .settled := by
  intro r seq a row hact hterm hrow hopen
  obtain ⟨id, ev, hle, hev, hattrs⟩ := h.counted hsafe hact hterm hrow hopen
  exact .inr ⟨id, ev, hev, hattrs, .inl hle⟩

end DurableTasks
