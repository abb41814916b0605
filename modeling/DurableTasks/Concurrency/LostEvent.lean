import DurableTasks.Concurrency.Replies
import DurableTasks.Concurrency.RunIds

/-!
No event of a history is lost while other operations work on the same run, as
long as they are undisturbed: a thread that writes the row of a run or an event
of it, in an append or not, has read the row after the last such write of
another thread, and no other append of the run is between its event and its row.
-/

namespace DurableTasks

open Effects Engine

variable {I : Type} [DecidableEq I]

/-- The stored events of a run are those from `1` to its history length, and
one more while an append is halfway. -/
def Store.Numbered (s : Store) (half : Bool) (r : RunRef) : Prop :=
  match s.get (.wf r) with
  | none => ∀ id, s.get (.wfh r id) = none
  | some row => ∀ id, (s.get (.wfh r id)).isSome = true ↔ 1 ≤ id ∧ id ≤ row.historyLen + half.toNat

theorem Store.Numbered.congr {s s' : Store} {half : Bool} {r : RunRef} (h : s.Numbered half r)
    (hrow : s'.get (.wf r) = s.get (.wf r))
    (hev : ∀ id, s'.get (.wfh r id) = s.get (.wfh r id)) : s'.Numbered half r := by
  unfold Store.Numbered at h ⊢
  rw [hrow]
  split at h <;> simpa only [hev] using h

/-- What is watched: the events appended, whether another thread has written
the row or an event of a run since thread `i` last read its row, which thread is
between the event and the row of an append, and the run ids taken. -/
structure AppendWatch (I : Type) where
  log : List (RunRef × Nat × HistoryEvent) := []
  touched : I → RunRef → Bool := fun _ _ => false
  mid : RunRef → Option I := fun _ => none
  taken : String → Prop

namespace AppendWatch

def read (m : AppendWatch I) (i : I) (hit : RunRef → Bool) : AppendWatch I :=
  { m with touched := fun j r => m.touched j r && !(decide (j = i) && hit r) }

def touch (m : AppendWatch I) (i : I) (r : RunRef) : I → RunRef → Bool :=
  fun j r' => m.touched j r' || (decide (j ≠ i) && decide (r' = r))

def observe (i : I) (e : Effect) (w : World) (m : AppendWatch I) : AppendWatch I :=
  match e with
  | .get (.wf r) => m.read i fun r' => r' = r
  | .list (.rows ns wf) => m.read i fun r => r.ns = ns ∧ r.wf = wf
  | .write (.put (.wf r) _) =>
    { m with touched := m.touch i r, mid := Function.update m.mid r none }
  | .write (.put (.wfh r id) ev) =>
    { m with
      log := (r, id, ev) :: m.log
      touched := m.touch i r
      mid := Function.update m.mid r (some i) }
  | e => { m with taken := takeIds m.taken w e }

/-- Rows and events are written by a thread that read the row after the last
write of another one, and never while another append of the run is halfway; and
`newRunId` draws new ids. -/
def Undisturbed (s : Shared I (AppendWatch I)) (i : I) : Effect → Prop
  | .write (.put (.wf r) _) | .write (.put (.wfh r _) _) =>
    s.mon.touched i r = false ∧ ∀ j, s.mon.mid r = some j → j = i
  | e => DrawsNew s.mon.taken s.world e

end AppendWatch

open AppendWatch

structure AppendInv (s : Shared I (AppendWatch I)) (know : I → View) : Prop where
  ids : RunIds s.mon.taken s.world.store know
  known : ∀ i r row, (know i).row r = some (some row) → s.mon.touched i r = false →
    s.world.store.get (.wf r) = some row
  numbered : ∀ r, s.world.store.Numbered (s.mon.mid r).isSome r
  log : ∀ e ∈ s.mon.log, s.world.store.get (.wfh e.1 e.2.1) = some e.2.2
  own : s.mon.log.Pairwise fun a b => (a.1, a.2.1) ≠ (b.1, b.2.1)
  halfway : ∀ i r id, (know i).mid = some (r, id) → s.mon.mid r = some i ∧
    ∃ row, s.world.store.get (.wf r) = some row ∧ id = row.historyLen + 1
  mid : ∀ i r, s.mon.mid r = some i → ∃ id, (know i).mid = some (r, id)

namespace AppendInv

variable {s s' : Shared I (AppendWatch I)} {know : I → View} {i : I} {k : View} {r : RunRef}

/-- An access that leaves rows and events alone and teaches nothing of rows. -/
theorem frame (h : AppendInv s know)
    (hids : RunIds s'.mon.taken s'.world.store (Function.update know i k))
    (hrow : ∀ r, s'.world.store.get (.wf r) = s.world.store.get (.wf r))
    (hev : ∀ r id, s'.world.store.get (.wfh r id) = s.world.store.get (.wfh r id))
    (hlog : s'.mon.log = s.mon.log) (htouched : s'.mon.touched = s.mon.touched)
    (hmid : s'.mon.mid = s.mon.mid) (hkrow : k.row = (know i).row) (hkmid : k.mid = (know i).mid) :
    AppendInv s' (Function.update know i k) := by
  have hrows := update_view know i k View.row hkrow
  have hmids := update_view know i k View.mid hkmid
  constructor
  case ids => exact hids
  case numbered =>
    intro r
    rw [hmid]
    exact (h.numbered r).congr (hrow r) (hev r)
  all_goals simp only [hrows, hmids, hrow, hev, hlog, htouched, hmid]
  exacts [h.known, h.log, h.own, h.halfway, h.mid]

theorem read (h : AppendInv s know) (hit : RunRef → Bool)
    (hids : RunIds s'.mon.taken s'.world.store (Function.update know i k))
    (hworld : s'.world = s.world) (hmon : s'.mon = s.mon.read i hit) (hkmid : k.mid = (know i).mid)
    (hk : ∀ r, k.row r = if hit r then some (s.world.store.get (.wf r)) else (know i).row r) :
    AppendInv s' (Function.update know i k) := by
  have hknow := update_view know i k View.mid hkmid
  refine ⟨hids, fun j r row hr ht => ?_, fun r => ?_, fun e he => ?_, ?_, fun j r id hm => ?_,
    fun j r hm => ?_⟩
  · grind [h.known, Function.update_self, AppendWatch.read]
  · rw [hmon, hworld]
    exact h.numbered r
  · rw [hworld]
    exact h.log e (by rw [hmon] at he; exact he)
  · rw [hmon]
    exact h.own
  · rw [hmon, hworld]
    exact h.halfway j r id (hknow j ▸ hm)
  · rw [hknow]
    exact h.mid j r (by rw [hmon] at hm; exact hm)

/-- A row is written by an undisturbed thread, and the events are those it
counts. -/
theorem put_row (h : AppendInv s know) {row : WorkflowExecution}
    (hids : RunIds s'.mon.taken s'.world.store
      (Function.update know i ((know i).wrote (.put (.wf r) row))))
    (hstore : s'.world.store = s.world.store.put (.wf r) row)
    (hlog : s'.mon.log = s.mon.log) (htouched : s'.mon.touched = s.mon.touch i r)
    (hmid : s'.mon.mid = Function.update s.mon.mid r none)
    (hfree : ∀ j, s.mon.mid r = some j → j = i)
    (hmine : ∀ r' id, (know i).mid = some (r', id) → r' = r)
    (hcount : ∀ id, (s.world.store.get (.wfh r id)).isSome = true ↔
      1 ≤ id ∧ id ≤ row.historyLen) :
    AppendInv s' (Function.update know i ((know i).wrote (.put (.wf r) row))) := by
  obtain ⟨hself, hother, -, hev⟩ := Store.get_of_put_row hstore
  refine ⟨hids, fun j r' row' hr ht => ?_, fun r' => ?_, fun e he => ?_, ?_, fun j r' id hm => ?_,
    fun j r' hm => ?_⟩
  · rw [htouched] at ht
    simp only [AppendWatch.touch, Bool.or_eq_false_iff, Bool.and_eq_false_iff,
      decide_eq_false_iff_not, not_not] at ht
    rcases View.known_wrote hr with ⟨rfl, rfl, rfl⟩ | ⟨hne, hr⟩
    · exact hself
    · -- only the writer has not been touched
      have hr' : r' ≠ r := fun heq => hne (ht.2.resolve_right fun h => h heq) heq
      rw [hother r' hr']
      exact h.known j r' row' hr ht.1
  · by_cases hr' : r' = r
    · subst hr'
      unfold Store.Numbered
      rw [hself, hmid, Function.update_self]
      simpa [hev] using hcount
    · rw [hmid, Function.update_of_ne hr']
      exact (h.numbered r').congr (hother r' hr') (hev r')
  · rw [hev]
    exact h.log e (hlog ▸ he)
  · rw [hlog]
    exact h.own
  · by_cases hj : j = i
    · subst hj
      simp [View.wrote] at hm
    · rw [Function.update_of_ne hj] at hm
      obtain ⟨hmid', hrow⟩ := h.halfway j r' id hm
      have hr' : r' ≠ r := by
        rintro rfl
        exact hj (hfree j hmid')
      rw [hmid, Function.update_of_ne hr', hother r' hr']
      exact ⟨hmid', hrow⟩
  · rw [hmid] at hm
    have hr' : r' ≠ r := by
      rintro rfl
      simp at hm
    rw [Function.update_of_ne hr'] at hm
    obtain ⟨id, hid⟩ := h.mid j r' hm
    have hj : j ≠ i := by
      rintro rfl
      exact hr' (hmine r' id hid)
    exact ⟨id, by rwa [Function.update_of_ne hj]⟩

theorem put_event (h : AppendInv s know) {row : WorkflowExecution} {ev : HistoryEvent}
    (hids : RunIds s'.mon.taken s'.world.store
      (Function.update know i ((know i).wrote (.put (.wfh r (row.historyLen + 1)) ev))))
    (hstore : s'.world.store = s.world.store.put (.wfh r (row.historyLen + 1)) ev)
    (hlog : s'.mon.log = (r, row.historyLen + 1, ev) :: s.mon.log)
    (htouched : s'.mon.touched = s.mon.touch i r)
    (hmid : s'.mon.mid = Function.update s.mon.mid r (some i)) (hfree : s.mon.mid r = none)
    (hmine : (know i).mid = none) (hrow : s.world.store.get (.wf r) = some row) :
    AppendInv s'
      (Function.update know i ((know i).wrote (.put (.wfh r (row.historyLen + 1)) ev))) := by
  have hrows : ∀ r', s'.world.store.get (.wf r') = s.world.store.get (.wf r') :=
    fun r' => by rw [hstore, Store.get_put_of_ne _ _ (by simp)]
  have hother : ∀ r' id, (r', id) ≠ (r, row.historyLen + 1) →
      s'.world.store.get (.wfh r' id) = s.world.store.get (.wfh r' id) := by
    intro r' id hne
    rw [hstore, Store.get_put_of_ne]
    simpa using hne
  have hself : s'.world.store.get (.wfh r (row.historyLen + 1)) = some ev := by
    rw [hstore, Store.get_put_self]
  have hnum := h.numbered r
  simp only [Store.Numbered, hrow, hfree, Option.isSome_none, Bool.toNat_false, add_zero] at hnum
  -- the id is not in use
  have hnew : s.world.store.get (.wfh r (row.historyLen + 1)) = none := by
    have := hnum (row.historyLen + 1)
    rw [← Option.not_isSome_iff_eq_none, this]
    omega
  have hfresh : ∀ e ∈ s.mon.log, (e.1, e.2.1) ≠ (r, row.historyLen + 1) := by
    rintro ⟨r', id, ev'⟩ he heq
    obtain ⟨rfl, rfl⟩ := Prod.mk.inj heq
    have := h.log _ he
    simp only [hnew] at this
    cases this
  refine ⟨hids, fun j r' row' hr ht => ?_, fun r' => ?_, fun e he => ?_, ?_, fun j r' id hm => ?_,
    fun j r' hm => ?_⟩
  · rw [update_view know i _ View.row (by rfl)] at hr
    rw [htouched] at ht
    rw [hrows]
    exact h.known j r' row' hr (Bool.or_eq_false_iff.mp ht).1
  · by_cases hr' : r' = r
    · subst hr'
      unfold Store.Numbered
      rw [hrows, hrow, hmid, Function.update_self]
      intro id
      by_cases hid : id = row.historyLen + 1
      · subst hid
        simp [hself]
      · rw [hother r' id (by simpa using hid), hnum id]
        simp only [Option.isSome_some, Bool.toNat_true]
        omega
    · rw [hmid, Function.update_of_ne hr']
      exact (h.numbered r').congr (hrows r') fun id => hother r' id (by simp [hr'])
  · rw [hlog] at he
    rcases List.mem_cons.mp he with rfl | he
    · exact hself
    · rw [hother _ _ (hfresh e he)]
      exact h.log e he
  · rw [hlog]
    exact List.pairwise_cons.mpr ⟨fun e he heq => hfresh e he heq.symm, h.own⟩
  · rw [hmid, hrows]
    by_cases hj : j = i
    · grind [Function.update_self, View.wrote]
    · grind [h.halfway]
  · by_cases hr' : r' = r
    · subst hr'
      rw [hmid, Function.update_self] at hm
      obtain rfl := Option.some.inj hm
      exact ⟨row.historyLen + 1, by simp [View.wrote]⟩
    · rw [hmid, Function.update_of_ne hr'] at hm
      obtain ⟨id, hid⟩ := h.mid j r' hm
      have hj : j ≠ i := by
        rintro rfl
        rw [hmine] at hid
        cases hid
      exact ⟨id, by rwa [Function.update_of_ne hj]⟩

omit [DecidableEq I] in
/-- A run that only thread `i` may be halfway with is settled if `i` is not. -/
theorem mid_none (h : AppendInv s know) (hfree : ∀ j, s.mon.mid r = some j → j = i)
    (hmine : (know i).mid = none) : s.mon.mid r = none := by
  cases hmid : s.mon.mid r with
  | none => rfl
  | some j =>
    obtain rfl := hfree j hmid
    obtain ⟨id, hid⟩ := h.mid j r hmid
    rw [hmine] at hid
    cases hid

/-- Every access of an undisturbed thread keeps the invariant. -/
theorem keep (h : AppendInv s know) {e : Effect} (hguard : (know i).guard True e)
    (hP : Undisturbed s i e) :
    AppendInv (s.after observe i e)
      (Function.update know i ((know i).learn e (handler e s.world).1)) := by
  -- an access that has nothing to do with rows, events and run ids
  have haside : e.aside = true → DrawsNew s.mon.taken s.world e →
      (∀ r, (handler e s.world).2.store.get (.wf r) = s.world.store.get (.wf r)) →
      (∀ r id, (handler e s.world).2.store.get (.wfh r id) = s.world.store.get (.wfh r id)) →
      observe i e s.world s.mon = { s.mon with taken := takeIds s.mon.taken s.world e } →
      AppendInv (s.after observe i e)
        (Function.update know i ((know i).learn e (handler e s.world).1)) := by
    intro he hnew hrow hev hmon
    have hsame := (know i).learn_aside he (handler e s.world).1
    have hmon' : (s.after observe i e).mon =
      { s.mon with taken := takeIds s.mon.taken s.world e } := hmon
    refine h.frame ?_ hrow hev (by rw [hmon']) (by rw [hmon']) (by rw [hmon']) hsame.row hsame.mid
    rw [hmon']
    exact h.ids.keep hguard hnew
  cases e with
  | get key =>
    cases key with
    | wf r =>
      exact h.read (fun r' => r' = r) (h.ids.keep hguard trivial) rfl rfl rfl
        ((know i).row_learn_get s.world r)
    | _ => exact haside rfl trivial (fun _ => rfl) (fun _ _ => rfl) rfl
  | list q =>
    cases q with
    | rows ns wf =>
      exact h.read (fun r => r.ns = ns ∧ r.wf = wf) (h.ids.keep hguard trivial) rfl rfl
        rfl ((know i).row_learn_list s.world ns wf)
    | _ => exact haside rfl trivial (fun _ => rfl) (fun _ _ => rfl) rfl
  | write x =>
    -- a write to a key that is neither a row nor an event
    have hframe : (Effect.write x).aside = true → (∀ r, x.key ≠ some (.wf r)) →
        (∀ r id, x.key ≠ some (.wfh r id)) → observe i (.write x) s.world s.mon = s.mon →
        AppendInv (s.after observe i (.write x)) (Function.update know i ((know i).wrote x)) :=
      fun he hrow hev hmon => haside he trivial (fun r => handler_write_get (hrow r) _)
        (fun r id => handler_write_get (hev r id) _) hmon
    have hids := fun hnew => h.ids.keep hguard hnew
    cases hguard with
    | @count r row hrow hmid =>
      obtain ⟨htouched, hfree⟩ := hP
      have hcur := h.known i r row hrow htouched
      have hnum := h.numbered r
      simp only [Store.Numbered, hcur, (h.halfway i r _ hmid).1, Option.isSome_some,
        Bool.toNat_true] at hnum
      refine h.put_row (hids trivial) rfl rfl rfl rfl hfree (fun r' id hid => ?_) hnum
      rw [hmid] at hid
      exact (Prod.mk.inj (Option.some.inj hid)).1.symm
    | @revise r row row' hrow hmid hlen hstatus =>
      obtain ⟨htouched, hfree⟩ := hP
      have hcur := h.known i r row hrow htouched
      have hnum := h.numbered r
      simp only [Store.Numbered, hcur, h.mid_none hfree hmid, Option.isSome_none,
        Bool.toNat_false, add_zero] at hnum
      refine h.put_row (hids trivial) rfl rfl rfl rfl hfree (fun r' id hid => ?_)
        (hlen.symm ▸ hnum)
      rw [hmid] at hid
      cases hid
    | @create r row hstarts hmid hentered hfresh hopen hlen =>
      have hnone := h.ids.unused i r.run hfresh r.ns r.wf
      have hnum := h.numbered r
      simp only [Store.Numbered, hnone] at hnum
      refine h.put_row (hids trivial) rfl rfl rfl rfl hP.2 (fun r' id hid => ?_) fun id => ?_
      · rw [hmid] at hid
        cases hid
      · rw [hnum id, hlen]
        simp only [Option.isSome_none, Bool.false_eq_true, false_iff]
        omega
    | @append r row ev hrow hmid =>
      obtain ⟨htouched, hfree⟩ := hP
      exact h.put_event (hids trivial) rfl rfl rfl rfl (h.mid_none hfree hmid) hmid
        (h.known i r row hrow htouched)
    | enlist =>
      exact h.frame (hids trivial) (fun _ => handler_write_get (by simp) _)
        (fun _ _ => handler_write_get (by simp) _) rfl rfl rfl rfl rfl
    | unlist | activity | registry | indexed | request | note =>
      exact hframe rfl (by simp) (by simp) rfl
  | newRunId =>
    exact h.frame (h.ids.keep hguard hP) (fun _ => rfl) (fun _ _ => rfl) rfl rfl rfl rfl rfl
  | _ => exact haside rfl trivial (fun _ => rfl) (fun _ _ => rfl) rfl

end AppendInv

/-- The watch, and what each thread has been through. -/
abbrev Appending (I : Type) := AppendWatch I × (I → Passage)

def Appending.observe (i : I) (e : Effect) (w : World) (m : Appending I) : Appending I :=
  (AppendWatch.observe i e w m.1,
    Function.update m.2 i ((m.2 i).learn e (handler e w).1))

def Appending.watched (s : Shared I (Appending I)) : Shared I (AppendWatch I) :=
  ⟨s.world, s.locks, s.mon.1⟩

abbrev Appending.Undisturbed (s : Shared I (Appending I)) : I → Effect → Prop :=
  AppendWatch.Undisturbed (watched s)

/-- No operation has done anything. -/
def Appending.boot (ops : I → Operation) : Appending I :=
  ({ taken := fun id => ∃ i, (ops i).givenRun = some id }, fun _ => {})

/-- The events a thread has stored are among those appended. -/
theorem events_logged {s : Shared I (AppendWatch I)} {past : I → Passage}
    (h : ∀ j, (past j).events ⊆ s.mon.log) (i : I) (e : Effect) (j : I) :
    (Function.update past i ((past i).learn e (handler e s.world).1) j).events ⊆
      (s.after AppendWatch.observe i e).mon.log := by
  have hgrows : s.mon.log ⊆ (s.after AppendWatch.observe i e).mon.log := by
    simp only [Shared.after, AppendWatch.observe]
    split <;> simp [AppendWatch.read]
  by_cases hj : j = i
  · subst hj
    rw [Function.update_self]
    unfold Passage.learn
    split
    case h_4 r id ev _ => exact List.cons_subset_cons _ (h j)
    all_goals exact List.Subset.trans (h j) hgrows
  · rw [Function.update_of_ne hj]
    exact List.Subset.trans (h j) hgrows

/-- Any operations but resets and purges run at the same time, each store access
one step and the run lock held only where the engine takes it. If all of them are
undisturbed, then once they have returned every event they appended is stored
under an id of its own, and the ids of every run are those from `1` to its history
length. An operation that returned success appended the event it stands for, or
there was nothing to append (`Operation.Receipt`). -/
theorem appended_events_kept {fuel : Nat} {w : World} {ops : I → Operation}
    (hops : ∀ i, (ops i).Plain)
    (hgiven : ∀ i run, (ops i).givenRun = some run →
      (∀ ns wf, w.store.get (.wf ⟨ns, wf, run⟩) = none) ∧
        ∀ j, (ops j).givenRun = some run → i = j)
    (hnumbered : ∀ r, w.store.Numbered false r)
    {p : Pool I Effect Effect.Answer (Shared I (Appending I)) RunReply}
    (hreach : Pool.Reaches (access Appending.observe) Appending.Undisturbed
      (answered fuel w (.boot ops) ops) p)
    (hfin : p.Finished) :
    (∀ e ∈ p.world.mon.1.log, p.world.world.store.get (.wfh e.1 e.2.1) = some e.2.2) ∧
      (p.world.mon.1.log.Pairwise fun a b => (a.1, a.2.1) ≠ (b.1, b.2.1)) ∧
      (∀ r, p.world.world.store.Numbered false r) ∧
      ∀ i, (p.world.mon.2 i).events ⊆ p.world.mon.1.log ∧
        ∀ c, p.code i = .done (.ok c) → (ops i).Receipt c (p.world.mon.2 i) := by
  have hview : ∀ i, (ops i).view.mid = none := by
    intro i
    cases ops i <;> rfl
  have hinit : AppendInv ⟨w, fun _ => none, (Appending.boot ops).1⟩ fun i => (ops i).view := by
    refine ⟨RunIds.init hgiven, fun i r row hr => ?_, hnumbered, by simp [Appending.boot], .nil,
      fun i r id hm => ?_, by simp [Appending.boot]⟩
    · simp [Operation.view_row] at hr
    · simp [hview] at hm
  obtain ⟨know, past, ⟨hinv, rfl, hlogged⟩, hmid, hreceipt⟩ := answered_invariant
    (fun s know past => AppendInv (Appending.watched s) know ∧ past = s.mon.2 ∧
      ∀ i, (past i).events ⊆ s.mon.1.log)
    (fun {s know past i e} hinv hguard hP _ => by
      obtain ⟨hinv, rfl, hlogged⟩ := hinv
      exact ⟨hinv.keep hguard hP, rfl, events_logged (s := Appending.watched s) hlogged i e⟩)
    (fun i => ⟨hops i, .inl trivial⟩) ⟨hinit, rfl, fun _ => List.nil_subset _⟩ hreach
  refine ⟨hinv.log, hinv.own, fun r => ?_, fun i => ⟨hlogged i, hreceipt i⟩⟩
  have hnone : p.world.mon.1.mid r = none := by
    cases hm : p.world.mon.1.mid r with
    | none => rfl
    | some i =>
      obtain ⟨id, hid⟩ := hinv.mid i r hm
      rw [hmid hfin i] at hid
      cases hid
  have hnum := hinv.numbered r
  rwa [show (Appending.watched p.world).mon.mid r = none from hnone] at hnum

def terminateBesideSignal : Bool → Operation
  | false => .terminate ⟨"n", "wf", some "r"⟩ "stop" "operator"
  | true => .signal ⟨"n", "wf", some "r"⟩ "go" .null ""

def AppendWatch.undisturbed (s : Shared Bool (AppendWatch Bool)) (i : Bool) : Effect → Bool
  | .write (.put (.wf r) _) | .write (.put (.wfh r _) _) =>
    !s.mon.touched i r && (s.mon.mid r).all fun j => j = i
  | .newRunId => false
  | _ => true

theorem AppendWatch.undisturbed_spec (s : Shared Bool (AppendWatch Bool)) (i : Bool) (e : Effect)
    (h : undisturbed s i e = true) : Undisturbed s i e := by
  cases e with
  | write x =>
    cases x with
    | put key v =>
      cases key with
      | wf r => simpa [undisturbed, Undisturbed, Option.all_eq_true] using h
      | wfh r id => simpa [undisturbed, Undisturbed, Option.all_eq_true] using h
      | _ => trivial
    | _ => trivial
  | newRunId => cases h
  | _ => trivial

structure Appends where
  log : List (RunRef × Nat × Option WorkflowStatus)
  stored : List (Nat × Option WorkflowStatus)
deriving DecidableEq

abbrev Beside := Pool Bool Effect Effect.Answer (Shared Bool (Appending Bool)) RunReply

/-- Whether both threads have returned success, and the events of `n/wf/r`. -/
def appends (p : Beside) : (Bool × Bool) × Appends :=
  (((p.code false).succeeded, (p.code true).succeeded),
    { log := p.world.mon.1.log.map fun e => (e.1, e.2.1, e.2.2.attrs.closes)
      stored := (p.world.world.store.events ⟨"n", "wf", "r"⟩).map fun e =>
        (e.1, e.2.attrs.closes) })

theorem finished_of_appends {p : Beside} {b : Appends} (h : appends p = ((true, true), b)) :
    p.Finished := by
  obtain ⟨hfalse, htrue⟩ := Prod.mk.inj (Prod.mk.inj h).1
  exact Bool.forall_bool.mpr
    ⟨Program.returned_of_succeeded hfalse, Program.returned_of_succeeded htrue⟩

theorem startedShard_numbered (r : RunRef) : startedShard.store.Numbered false r := by
  by_cases hr : r = ⟨"n", "wf", "r"⟩
  · subst hr
    have hids : (startedShard.store.events ⟨"n", "wf", "r"⟩).map Prod.fst = [1] := by
      decide +kernel
    have hlen : (startedShard.store.get (.wf ⟨"n", "wf", "r"⟩)).map (fun row => row.historyLen) =
        some 1 := by decide +kernel
    obtain ⟨row, hrow, hrowlen⟩ := Option.map_eq_some_iff.mp hlen
    unfold Store.Numbered
    rw [hrow]
    intro id
    have hmem : (startedShard.store.get (.wfh ⟨"n", "wf", "r"⟩ id)).isSome = true ↔
        id ∈ (startedShard.store.events ⟨"n", "wf", "r"⟩).map Prod.fst := by
      simp only [List.mem_map, Prod.exists, Store.mem_events, exists_and_right, exists_eq_right,
        Option.isSome_iff_exists]
    rw [hmem, hids, hrowlen, List.mem_singleton]
    simp only [Bool.toNat_false]
    omega
  · unfold Store.Numbered
    rw [Store.get, Store.run_of_single startedShard_runs hr]
    intro id
    rw [Store.get, Store.run_of_single startedShard_runs hr]
    rfl

/-- The whole termination falls between the status check of the signal and its
append. -/
theorem appended_events_kept_signal :
    ∃ p, Pool.Reaches (access Appending.observe) Appending.Undisturbed
        (answered 1 startedShard (.boot terminateBesideSignal) terminateBesideSignal) p ∧
      p.Finished ∧ p.world.mon.1.log.map (fun e => (e.1, e.2.1, e.2.2.attrs.closes)) =
        [(⟨"n", "wf", "r"⟩, 3, none), (⟨"n", "wf", "r"⟩, 2, some .terminated)] ∧
      (∀ e ∈ p.world.mon.1.log, p.world.world.store.get (.wfh e.1 e.2.1) = some e.2.2) ∧
      ∀ r, p.world.world.store.Numbered false r := by
  refine (Pool.observed (f := appends) (b := ((true, true),
      ⟨[(⟨"n", "wf", "r"⟩, 3, none), (⟨"n", "wf", "r"⟩, 2, some .terminated)],
        [(1, none), (2, some .terminated), (3, none)]⟩))
    (fun s i e h => undisturbed_spec (Appending.watched s) i e h)
    (List.replicate 2 true ++ List.replicate 10 false ++ List.replicate 7 true) ?_).imp
    fun p h => ⟨h.1, ?_⟩
  · decide +kernel
  obtain ⟨hreach, hobs⟩ := h
  have hfin := finished_of_appends hobs
  have hplain : ∀ i, (terminateBesideSignal i).Plain := Bool.forall_bool.mpr ⟨trivial, trivial⟩
  have hgiven : ∀ i, (terminateBesideSignal i).givenRun = none := Bool.forall_bool.mpr ⟨rfl, rfl⟩
  have hkept := appended_events_kept hplain (fun i run h => by simp [hgiven] at h)
    startedShard_numbered hreach hfin
  exact ⟨hfin, congrArg (fun a => a.2.log) hobs, hkept.1, hkept.2.2.1⟩

/-- An event that was appended under the id `2` and is not stored under it. -/
theorem lost_of_appends {p : Beside} {b : (Bool × Bool) × Appends} {c : Option WorkflowStatus}
    (h : appends p = b) (hmem : (⟨"n", "wf", "r"⟩, 2, c) ∈ b.2.log)
    (hnot : (2, c) ∉ b.2.stored) :
    ¬∀ e ∈ p.world.mon.1.log, p.world.world.store.get (.wfh e.1 e.2.1) = some e.2.2 := by
  subst h
  intro hkept
  obtain ⟨⟨r, id, ev⟩, he, heq⟩ := List.mem_map.mp hmem
  simp only [Prod.mk.injEq] at heq
  obtain ⟨rfl, rfl, rfl⟩ := heq
  exact hnot (List.mem_map.mpr ⟨(2, ev), Store.mem_events.mpr (hkept _ he), rfl⟩)

/-- The termination falls between the row the signal's append reads and the
event it writes: both events get the id `2`, and the terminal one is lost. Or the
signal falls between the row that the termination reads and the closing row it
writes, which does not count the signal: now the signal is lost. -/
theorem overlapping_appends_lose_event :
    (∃ p : Beside, Pool.Reaches (access Appending.observe) (fun _ _ _ => True)
        (answered 1 startedShard (.boot terminateBesideSignal) terminateBesideSignal) p ∧
      appends p = ((true, true),
        ⟨[(⟨"n", "wf", "r"⟩, 2, none), (⟨"n", "wf", "r"⟩, 2, some .terminated)],
          [(1, none), (2, none)]⟩) ∧
      ¬∀ e ∈ p.world.mon.1.log, p.world.world.store.get (.wfh e.1 e.2.1) = some e.2.2) ∧
    ∃ p : Beside, Pool.Reaches (access Appending.observe) (fun _ _ _ => True)
        (answered 1 startedShard (.boot terminateBesideSignal) terminateBesideSignal) p ∧
      appends p = ((true, true),
        ⟨[(⟨"n", "wf", "r"⟩, 2, some .terminated), (⟨"n", "wf", "r"⟩, 2, none)],
          [(1, none), (2, some .terminated)]⟩) ∧
      ¬∀ e ∈ p.world.mon.1.log, p.world.world.store.get (.wfh e.1 e.2.1) = some e.2.2 := by
  constructor
  · refine (Pool.observed_any (f := appends)
      (List.replicate 3 true ++ List.replicate 10 false ++ List.replicate 8 true) ?_).imp
      fun p h => ⟨h.1, h.2, lost_of_appends (c := some .terminated) h.2 (by simp) (by simp)⟩
    decide +kernel
  · refine (Pool.observed_any (f := appends)
      (List.replicate 1 false ++ List.replicate 11 true ++ List.replicate 9 false) ?_).imp
      fun p h => ⟨h.1, h.2, lost_of_appends (c := none) h.2 (by simp) (by simp)⟩
    decide +kernel

end DurableTasks
