import DurableTasks.Safety.History

/-!
How a run ended, as its history tells it. The result of a workflow is stored in
its terminal event only, so a closed row without that event has lost it.
-/

namespace DurableTasks

open Effects Engine

variable {r : RunRef} {row : WorkflowExecution} {w : World}

def lastClosing (log : List (RunRef × Closing)) (r : RunRef) : Option Closing :=
  (log.find? fun p => p.1 = r).map Prod.snd

def Write.logged (log : List (RunRef × Closing)) : Write → List (RunRef × Closing)
  | .close r c => (r, c) :: log
  | _ => log

theorem World.write_closings (w : World) (x : Write) :
    (w.write x).closings = x.logged w.closings := by
  cases x <;> rfl

theorem lastClosing_cons (log : List (RunRef × Closing)) (r r' : RunRef) (c : Closing) :
    lastClosing ((r', c) :: log) r = if r' = r then some c else lastClosing log r := by
  unfold lastClosing
  rw [List.find?_cons]
  split_ifs with h <;> simp [h]

def Window.Ends (win : Window) (r : RunRef) : Prop :=
  match win with
  | .closed r' _ | .unlisted r' _ | .purging r' => r' = r
  | _ => False

/-- The event of its last closing is in the history a closed row counts, or is
being written. -/
def Store.EndingStored (s : Store) (win : Window) (log : List (RunRef × Closing)) (r : RunRef)
    (row : WorkflowExecution) : Prop :=
  ∃ attrs, lastClosing log r = some (.event row.status attrs) ∧ attrs.closes = some row.status ∧
    ∃ id ev, s.get (.wfh r id) = some ev ∧ ev.attrs = attrs ∧
      (id ≤ row.historyLen ∨ win = .event r id attrs)

/-- A closed row is in the middle of being closed or purged, or was closed by a
reset, or its history says how it ended. -/
def Store.EndingSeen (s : Store) (win : Window) (log : List (RunRef × Closing)) (r : RunRef)
    (row : WorkflowExecution) : Prop :=
  win.Ends r ∨ lastClosing log r = some .reset ∨ s.EndingStored win log r row

/-- What a close in progress has logged and stored so far. -/
def Store.ClosingLogged (s : Store) (log : List (RunRef × Closing)) : Window → Prop
  | .closing r c => lastClosing log r = some c ∧ c.Fits
  | .closed r c | .unlisted r c => lastClosing log r = some c ∧ c.Fits ∧
      ∃ row, s.get (.wf r) = some row ∧ row.status = c.status
  | _ => True

structure Store.EndingsSeen (s : Store) (win : Window) (log : List (RunRef × Closing)) : Prop where
  seen : ∀ r row, s.get (.wf r) = some row → row.isOpen = false → s.EndingSeen win log r row
  window : s.ClosingLogged log win

/-- Neither a close, a purge nor an event of `r` is unfinished. -/
def Window.QuietFor (win : Window) (r : RunRef) : Prop :=
  ¬win.Ends r ∧ ∀ id attrs, win ≠ .event r id attrs

theorem Window.quietFor_of_run {win : Window} (h : win.run ≠ some r) : win.QuietFor r := by
  cases win <;> simp_all [QuietFor, Ends]

theorem Write.lastClosing_logged {x : Write} (h : x.run ≠ some r) (log : List (RunRef × Closing)) :
    lastClosing (x.logged log) r = lastClosing log r := by
  cases x with
  | close r' c => rw [logged, lastClosing_cons, if_neg fun heq => h (congrArg some heq)]
  | _ => rfl

theorem Store.EndingSeen.frame {s s' : Store} {win win' : Window}
    {log log' : List (RunRef × Closing)} {row' : WorkflowExecution}
    (h : s.EndingSeen win log r row) (hwin : win.QuietFor r)
    (hlog : lastClosing log' r = lastClosing log r) (hstatus : row'.status = row.status)
    (hlen : row.historyLen ≤ row'.historyLen)
    (hkept : ∀ id, id ≤ row.historyLen → s'.get (.wfh r id) = s.get (.wfh r id)) :
    s'.EndingSeen win' log' r row' := by
  obtain hends | hreset | ⟨attrs, hlast, hcloses, id, ev, hev, hattrs, hle | hevent⟩ := h
  · exact absurd hends hwin.1
  · exact .inr (.inl (hlog.trans hreset))
  · refine .inr (.inr ⟨attrs, ?_, ?_, id, ev, (hkept id hle).trans hev, hattrs,
      .inl (hle.trans hlen)⟩)
    · rw [hlog, hlast, hstatus]
    · rw [hcloses, hstatus]
  · exact absurd hevent (hwin.2 _ _)

section Write

variable {s : Store} {win : Window} {log : List (RunRef × Closing)} {x : Write} {L : Licence}

theorem Store.EndingsSeen.write_seen (h : s.EndingsSeen win log) (hx : Allowed L s win x)
    (hrow : (s.apply x).get (.wf r) = some row) (hshut : row.isOpen = false) :
    (s.apply x).EndingSeen (win.next x) (x.logged log) r row := by
  by_cases hr : x.run = some r
  swap
  · rw [Store.get_elsewhere hr rfl] at hrow
    rcases hx.elsewhere hr with hwin | ⟨rfl, hnext⟩
    · exact (h.seen r row hrow hshut).frame (Window.quietFor_of_run hwin)
        (x.lastClosing_logged hr log) rfl le_rfl fun id _ => Store.get_elsewhere hr rfl
    · exact .inl (by rw [hnext]; rfl)
  have hsettled : (Window.settled).QuietFor r := Window.quietFor_of_run (by simp)
  cases hx with
  | create entry running unwritten fresh named =>
    obtain rfl := Option.some.inj hr
    obtain rfl : _ = row := by simpa using hrow
    simp [WorkflowExecution.isOpen, running, WorkflowStatus.isTerminal] at hshut
  | update stored type len time status =>
    obtain rfl := Option.some.inj hr
    obtain rfl : _ = row := by simpa using hrow
    have hstatus := status.resolve_right fun hcanceling => by
      simp [WorkflowExecution.isOpen, hcanceling.2, WorkflowStatus.isTerminal] at hshut
    refine (h.seen _ _ stored ?_).frame hsettled rfl hstatus len.ge
      fun id _ => s.get_apply_of_ne (by simp)
    simpa [WorkflowExecution.isOpen, hstatus] using hshut
  | append stored admits numbered =>
    rename_i r' row' ev'
    obtain rfl : r' = r := Option.some.inj hr
    rw [s.get_apply_of_ne (by simp)] at hrow
    obtain rfl : row' = row := by simpa [stored] using hrow
    by_cases hends : win.Ends r'
    · -- the terminal event of the close in progress
      cases win with
      | unlisted r₁ c =>
        cases c with
        | event st attrs =>
          obtain ⟨rfl, rfl⟩ := admits
          obtain ⟨hlast, hfits, row₁, hrow₁, hstatus⟩ := h.window
          obtain rfl : row' = row₁ := by simpa [stored] using hrow₁
          obtain rfl : row'.status = st := hstatus
          exact .inr (.inr ⟨ev'.attrs, hlast, hfits, _, ev', s.get_put_self (.wfh _ _) _,
            rfl, .inr rfl⟩)
        | reset => exact admits.elim
      | closed | purging => exact admits.elim
      | _ => exact hends.elim
    · exact (h.seen _ row' stored hshut).frame ⟨hends, fun _ _ => admits.noEvent _ _ _⟩ rfl rfl
        le_rfl fun id hle => s.get_apply_of_ne (by simp; omega)
  | copy stored running beyond recordless following numbered copied =>
    obtain rfl := Option.some.inj hr
    rw [s.get_apply_of_ne (by simp)] at hrow
    obtain rfl : _ = row := by simpa [stored] using hrow
    simp [running] at hshut
  | count stored more following =>
    obtain rfl := Option.some.inj hr
    obtain rfl : _ = row := by simpa using hrow
    obtain hends | hreset | ⟨attrs, hlast, hcloses, id, ev, hev, hattrs, hcount⟩ :=
      h.seen _ _ stored hshut
    · rcases following with rfl | ⟨id₁, attrs, rfl, -⟩ <;> exact hends.elim
    · exact .inr (.inl hreset)
    · refine .inr (.inr ⟨attrs, hlast, hcloses, id, ev,
        (s.get_apply_of_ne (by simp)).trans hev, hattrs, .inl ?_⟩)
      rcases hcount with hle | hevent
      · exact hle.trans more
      · grind
  | note stored closable terminal fits licensed =>
    obtain rfl := Option.some.inj hr
    obtain rfl : _ = row := Option.some.inj (stored.symm.trans hrow)
    rcases closable with hopen | ⟨rfl, -⟩
    · simp [hshut] at hopen
    · exact .inr (.inl (by simp [Write.logged, lastClosing_cons]))
  | close stored closable terminal =>
    obtain rfl := Option.some.inj hr
    exact .inl (by simp [Window.next, Window.Ends])
  | unlist shut following =>
    obtain rfl := Option.some.inj hr
    rw [s.get_apply_of_ne (by simp)] at hrow
    rcases following with (rfl | rfl) | ⟨c, rfl⟩
    · exact (h.seen _ row hrow hshut).frame hsettled rfl rfl le_rfl
        fun id _ => s.get_apply_of_ne (by simp)
    · exact .inl rfl
    · cases c with
      | event st attrs => exact .inl (by simp [Window.next, Window.Ends])
      | reset => exact .inr (.inl h.window.1)
  | purgeEvent | purgeRecord => exact .inl (Option.some.inj hr)
  | purgeRow following shut noEvents noRecords =>
    obtain rfl := Option.some.inj hr
    simp at hrow
  | enlist | record =>
    rw [s.get_apply_of_ne (by simp)] at hrow
    exact (h.seen r row hrow hshut).frame hsettled rfl rfl le_rfl
      fun id _ => s.get_apply_of_ne (by simp)
  | _ => simp at hr

theorem Store.EndingsSeen.write_window (h : s.EndingsSeen win log) (hx : Allowed L s win x) :
    (s.apply x).ClosingLogged (x.logged log) (win.next x) := by
  have hwindow := h.window
  cases hx with
  | note stored closable terminal fits licensed =>
    exact ⟨by simp [Write.logged, lastClosing_cons], fits⟩
  | close stored closable terminal =>
    rename_i r row c t
    have hnext : (Window.closing r c).next (.put (.wf r) (closedRow row c.status t)) =
        .closed r c := by simp [Window.next]
    rw [hnext]
    exact ⟨hwindow.1, hwindow.2, _, s.get_put_self (.wf r) _, rfl⟩
  | unlist shut following =>
    rename_i r
    rcases following with (rfl | rfl) | ⟨c, rfl⟩
    · trivial
    · trivial
    · cases c with
      | reset => trivial
      | event st attrs =>
        obtain ⟨hlast, hfits, row, hrow, hstatus⟩ := hwindow
        have hnext : (Window.closed r (.event st attrs)).next (.del (.wfopen r)) =
            .unlisted r (.event st attrs) := by simp [Window.next]
        rw [hnext]
        exact ⟨hlast, hfits, row, (s.get_apply_of_ne (by simp)).trans hrow, hstatus⟩
  | count stored more following =>
    rcases following with rfl | ⟨id, attrs, rfl, -⟩ <;> trivial
  | record storable pending running patient =>
    rename_i r seq a
    simp only [Window.next]
    split_ifs <;> trivial
  | purgeRequest _ _ _ following | purgeTrigger _ _ _ following =>
    rcases following with rfl | rfl <;> trivial
  | purgeRow following shut noEvents noRecords => trivial
  | _ => trivial

theorem Store.EndingsSeen.write (h : s.EndingsSeen win log) (hx : Allowed L s win x) :
    (s.apply x).EndingsSeen (win.next x) (x.logged log) :=
  ⟨fun _ _ hrow hshut => h.write_seen hx hrow hshut, h.write_window hx⟩

end Write

/-- A crash here loses no ending: no run is closed with its terminal event not
yet counted, and none is half purged. -/
def World.EndingSafe (w : World) : Prop :=
  match w.window with
  | .closed _ c => c = .reset
  | .unlisted _ _ | .purging _ => False
  | .event _ _ attrs => attrs.closes = none
  | _ => True

/-- Where a crash loses no ending, the history of a closed run that was not
reset counts its terminal event. -/
theorem Store.EndingsSeen.counted (h : w.store.EndingsSeen w.window w.closings)
    (hsafe : w.EndingSafe) (hrow : w.store.get (.wf r) = some row) (hshut : row.isOpen = false) :
    lastClosing w.closings r = some .reset ∨ ∃ id ev, id ≤ row.historyLen ∧
      w.store.get (.wfh r id) = some ev ∧ ev.attrs.closes = some row.status ∧
      lastClosing w.closings r = some (.event row.status ev.attrs) := by
  have hwindow := h.window
  unfold World.EndingSafe at hsafe
  obtain hends | hreset | ⟨attrs, hlast, hcloses, id, ev, hev, rfl, hle | hwin⟩ :=
    h.seen r row hrow hshut
  · generalize w.window = win at hends hsafe hwindow
    cases win with
    | closed r' c =>
      obtain rfl : r' = r := hends
      obtain rfl : c = .reset := hsafe
      exact .inl hwindow.1
    | unlisted | purging => exact hsafe.elim
    | _ => exact hends.elim
  · exact .inl hreset
  · exact .inr ⟨id, ev, hle, hev, hcloses, hlast⟩
  · simp [hwin, hcloses] at hsafe

theorem Store.EndingsSeen.settle (h : w.store.EndingsSeen w.window w.closings)
    (hsafe : w.EndingSafe) : w.store.EndingsSeen .settled w.closings := by
  refine ⟨fun r row hrow hshut => ?_, trivial⟩
  obtain hreset | ⟨id, ev, hle, hev, hcloses, hlast⟩ := h.counted hsafe hrow hshut
  · exact .inr (.inl hreset)
  · exact .inr (.inr ⟨ev.attrs, hlast, hcloses, id, ev, hev, rfl, .inl hle⟩)

/-- Every close so far was with an event the licence gives. -/
def World.ClosedBy (L : Licence) (w : World) : Prop := ∀ r c, (r, c) ∈ w.closings → L.Closing r c

theorem World.ClosedBy.write {L : Licence} {x : Write} (h : w.ClosedBy L) (hx : L.guard w x) :
    (w.write x).ClosedBy L := by
  intro r c hmem
  rw [World.write_closings] at hmem
  rw [Licence.guard] at hx
  generalize w.window = win at hx
  cases hx with
  | note stored closable terminal fits licensed =>
    rcases List.mem_cons.mp hmem with heq | hmem
    · obtain ⟨rfl, rfl⟩ := Prod.mk.inj heq
      exact licensed
    · exact h r c hmem
  | _ => exact h r c hmem

/-- Operations that close runs with the events they are for. `began` is any
relation that holds of the operations of a run and the worlds they begin in. -/
def Licence.told (began : World → Operation → Prop) : Licence where
  fresh := .any
  reclose := True
  closes r attrs := ∃ w o, began w o ∧ o.Closes w r attrs

variable {began : World → Operation → Prop}

end DurableTasks
