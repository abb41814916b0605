import DurableTasks.Concurrency.RunIds

/-!
Recovery beside live traffic. An engine accepts calls before `Recover` has run,
so recovery meets runs that are being started and activities that this process
has dispatched already. What is watched of an interleaving, where recovery keeps
away from both, and why index entries then survive.
-/

namespace DurableTasks

open Effects Engine

variable {I : Type} [DecidableEq I]

inductive Permit (I : Type) where
  /-- Nobody of this process has had to do with it. -/
  | idle
  /-- A worker has a token of it. -/
  | out
  /-- Its retry timer is armed. -/
  | armed
  /-- A thread handles it. -/
  | held (i : I)
deriving DecidableEq

/-- What is watched: which runs have been closed, which are indexed and about
to get their first row, who may dispatch an activity, and the run ids taken. -/
structure RecoveryWatch (I : Type) where
  closed : RunRef → Bool
  starting : RunRef → Bool := fun _ => false
  permits : List ((RunRef × Int) × Permit I) := []
  taken : String → Prop

namespace RecoveryWatch

def permit (m : RecoveryWatch I) (r : RunRef) (seq : Int) : Permit I :=
  (m.permits.lookup (r, seq)).getD .idle

def grant (m : RecoveryWatch I) (r : RunRef) (seq : Int) (p : Permit I) : RecoveryWatch I :=
  { m with permits := ((r, seq), p) :: m.permits }

omit [DecidableEq I] in
@[simp] theorem permit_grant_self (m : RecoveryWatch I) (r : RunRef) (seq : Int) (p : Permit I) :
    (m.grant r seq p).permit r seq = p := by
  simp [permit, grant]

omit [DecidableEq I] in
theorem permit_grant_of_ne (m : RecoveryWatch I) {r r' : RunRef} {seq seq' : Int} (p : Permit I)
    (h : (r', seq') ≠ (r, seq)) : (m.grant r seq p).permit r' seq' = m.permit r' seq' := by
  simp only [permit, grant, List.lookup_cons]
  rw [beq_false_of_ne h]

def observe (i : I) (e : Effect) (w : World) (m : RecoveryWatch I) : RecoveryWatch I :=
  match e with
  | .write (.put (.wf r) row) =>
    { m with
      closed := Function.update m.closed r (m.closed r || !row.isOpen)
      starting := Function.update m.starting r false }
  | .write (.put (.wfopen r) _) =>
    { m with
      starting := Function.update m.starting r (m.starting r || (w.store.get (.wf r)).isNone) }
  | .write (.put (.wfact r seq) _) =>
    if m.permit r seq = .idle then m.grant r seq (.held i) else m
  | .dispatchActivity t _ => m.grant t.ref t.seq .out
  | .resolveActivityToken token =>
    match (w.disp.resolveActivityToken token).1 with
    | some t => m.grant t.ref t.seq (.held i)
    | none => m
  | .afterFunc r seq => m.grant r seq .armed
  | .fire r seq => if w.timers.contains (r, seq) then m.grant r seq (.held i) else m
  | .newRunId => { m with taken := takeIds m.taken w .newRunId }
  | _ => m

/-- An index entry is dropped only if its run has been closed, or has no row and
no start of it is about to write one; a recovery takes the lock of a run only
before this process has had to do with its activities; and `newRunId` draws new
ids. `recovery` are the threads that recover. -/
def Untroubled (recovery : I → Prop) (s : Shared I (RecoveryWatch I)) (i : I) : Effect → Prop
  | .write (.del (.wfopen r)) =>
    s.mon.closed r = true ∨ s.mon.starting r = false ∧ s.world.store.get (.wf r) = none
  | .lock r => recovery i → ∀ seq, s.mon.permit r seq = .idle
  | e => DrawsNew s.mon.taken s.world e

end RecoveryWatch

open RecoveryWatch

structure EntryInv (s : Shared I (RecoveryWatch I)) (know : I → View) : Prop where
  ids : RunIds s.mon.taken s.world.store know
  terminal : ∀ r row, s.world.store.get (.wf r) = some row → row.isOpen = false →
    s.mon.closed r = true
  stored : ∀ r, s.mon.closed r = true → ∃ row, s.world.store.get (.wf r) = some row
  known : ∀ i r row, (know i).row r = some (some row) → row.isOpen = false → s.mon.closed r = true
  entry : ∀ r row, s.world.store.get (.wf r) = some row → s.mon.closed r = false →
    s.world.store.get (.wfopen r) = some ()
  entered : ∀ i r, (know i).entered = some r → r.run ∈ (know i).fresh ∧
    s.world.store.get (.wfopen r) = some () ∧ s.mon.starting r = true

namespace EntryInv

variable {s s' : Shared I (RecoveryWatch I)} {know : I → View} {i : I} {k : View} {r : RunRef}

theorem frame (h : EntryInv s know)
    (hids : RunIds s'.mon.taken s'.world.store (Function.update know i k))
    (hrow : ∀ r, s'.world.store.get (.wf r) = s.world.store.get (.wf r))
    (hentry : ∀ r, s'.world.store.get (.wfopen r) = s.world.store.get (.wfopen r))
    (hclosed : s'.mon.closed = s.mon.closed) (hstarting : s'.mon.starting = s.mon.starting)
    (hkrow : ∀ r row, k.row r = some (some row) →
      (know i).row r = some (some row) ∨ s.world.store.get (.wf r) = some row)
    (hkfresh : ∀ id ∈ (know i).fresh, id ∈ k.fresh)
    (hkentered : k.entered = (know i).entered) :
    EntryInv s' (Function.update know i k) := by
  refine ⟨hids, fun r row hr ho => ?_, fun r hc => ?_, ?_, fun r row hr hc => ?_, ?_⟩
  · rw [hclosed]
    exact h.terminal r row (hrow r ▸ hr) ho
  · rw [hrow]
    exact h.stored r (hclosed ▸ hc)
  · intro j r row hr ho
    rw [hclosed]
    rcases update_cases (fun k : View => k.row r = some (some row)) hr with ⟨-, hr⟩ | ⟨-, hr⟩
    · exact (hkrow r row hr).elim (fun hr => h.known i r row hr ho) fun hr => h.terminal r row hr ho
    · exact h.known j r row hr ho
  · rw [hentry]
    exact h.entry r row (hrow r ▸ hr) (hclosed ▸ hc)
  · grind [h.entered]

omit [DecidableEq I] in
/-- A run that is indexed and waits for its first row has none. -/
theorem not_stored (h : EntryInv s know) (hr : (know i).entered = some r) :
    s.world.store.get (.wf r) = none :=
  h.ids.unused i r.run (h.entered i r hr).1 r.ns r.wf

/-- A row is written of a run that has one, or that the thread has indexed. -/
theorem put_row (h : EntryInv s know) {row : WorkflowExecution}
    (hids : RunIds s'.mon.taken s'.world.store
      (Function.update know i ((know i).wrote (.put (.wf r) row))))
    (hstore : s'.world.store = s.world.store.put (.wf r) row)
    (hclosed : s'.mon.closed = Function.update s.mon.closed r (s.mon.closed r || !row.isOpen))
    (hstarting : s'.mon.starting = Function.update s.mon.starting r false)
    (hr : (∃ old, s.world.store.get (.wf r) = some old) ∨ (know i).entered = some r) :
    EntryInv s' (Function.update know i ((know i).wrote (.put (.wf r) row))) := by
  obtain ⟨hself, hother, hentry, -⟩ := Store.get_of_put_row hstore
  have hgrow : ∀ r', s.mon.closed r' = true → s'.mon.closed r' = true := by
    intro r' hc
    rw [hclosed]
    by_cases hne : r' = r
    · subst hne
      simp [hc]
    · rwa [Function.update_of_ne hne]
  have hsame : ∀ r', r' ≠ r → s'.mon.closed r' = s.mon.closed r' := fun r' hne => by
    rw [hclosed, Function.update_of_ne hne]
  -- the index entry of a run that is not closed is there
  have hin : s.mon.closed r = false → s.world.store.get (.wfopen r) = some () := by
    intro hc
    rcases hr with ⟨old, hold⟩ | hmine
    · exact h.entry r old hold hc
    · exact (h.entered i r hmine).2.1
  refine ⟨hids, fun r' row' hr' ho => ?_, fun r' hc => ?_, ?_, fun r' row' hr' hc => ?_, ?_⟩
  · by_cases hne : r' = r
    · subst hne
      obtain rfl : row = row' := Option.some.inj (hself.symm.trans hr')
      simp [hclosed, ho]
    · rw [hsame r' hne]
      exact h.terminal r' row' (hother r' hne ▸ hr') ho
  · by_cases hne : r' = r
    · exact ⟨row, hne ▸ hself⟩
    · rw [hother r' hne]
      exact h.stored r' (hsame r' hne ▸ hc)
  · intro j r' row' hr' ho
    rcases View.known_wrote hr' with ⟨-, rfl, rfl⟩ | ⟨-, hr'⟩
    · simp [hclosed, ho]
    · exact hgrow r' (h.known j r' row' hr' ho)
  · grind [h.entry]
  · -- nobody else has indexed this run and waits for its first row
    have hnot : ∀ j, j ≠ i → (know j).entered = some r → False := by
      intro j hj hjr
      rcases hr with ⟨old, hold⟩ | hmine
      · rw [h.not_stored hjr] at hold
        cases hold
      · exact hj (h.ids.single i j r.run (h.entered i r hmine).1 (h.entered j r hjr).1).symm
    have hrest : ∀ j r', r' ≠ r → (know j).entered = some r' → r'.run ∈ (know j).fresh ∧
        s'.world.store.get (.wfopen r') = some () ∧ s'.mon.starting r' = true := by
      intro j r' hne hjr
      rw [hentry, hstarting, Function.update_of_ne hne]
      exact h.entered j r' hjr
    refine Function.forall_update_iff know (fun _ k' => ∀ r, k'.entered = some r →
      r.run ∈ k'.fresh ∧ s'.world.store.get (.wfopen r) = some () ∧ s'.mon.starting r = true) |>.mpr
      ⟨fun r' hr' => ?_, fun j hj r' hr' => ?_⟩
    · by_cases hmine : (know i).entered = some r
      · simp [View.wrote, hmine] at hr'
      · -- its own start is of another run
        simp only [View.wrote, hmine, if_false] at hr' ⊢
        refine hrest i r' ?_ hr'
        rintro rfl
        exact hmine hr'
    · have hne : r' ≠ r := by
        rintro rfl
        exact hnot j hj hr'
      exact hrest j r' hne hr'

theorem put_entry (h : EntryInv s know)
    (hids : RunIds s'.mon.taken s'.world.store
      (Function.update know i ((know i).wrote (.put (.wfopen r) ()))))
    (hstore : s'.world.store = s.world.store.put (.wfopen r) ())
    (hclosed : s'.mon.closed = s.mon.closed)
    (hstarting : s'.mon.starting = Function.update s.mon.starting r
      (s.mon.starting r || (s.world.store.get (.wf r)).isNone)) :
    EntryInv s' (Function.update know i ((know i).wrote (.put (.wfopen r) ()))) := by
  have hrow : ∀ r', s'.world.store.get (.wf r') = s.world.store.get (.wf r') :=
    fun r' => by rw [hstore, Store.get_put_of_ne _ _ (by simp)]
  have hself : s'.world.store.get (.wfopen r) = some () := by rw [hstore, Store.get_put_self]
  have hentry : ∀ r', s.world.store.get (.wfopen r') = some () →
      s'.world.store.get (.wfopen r') = some () := by
    intro r' hr'
    by_cases hne : r' = r
    · exact hne ▸ hself
    · rwa [hstore, Store.get_put_of_ne _ _ (by simpa using hne)]
  have hstart : ∀ r', s.mon.starting r' = true → s'.mon.starting r' = true := by
    intro r' hr'
    rw [hstarting]
    by_cases hne : r' = r
    · subst hne
      simp [hr']
    · rwa [Function.update_of_ne hne]
  have hold : ∀ j r', (know j).entered = some r' → r'.run ∈ (know j).fresh ∧
      s'.world.store.get (.wfopen r') = some () ∧ s'.mon.starting r' = true := by
    intro j r' hr'
    obtain ⟨hfresh, hin, hs⟩ := h.entered j r' hr'
    exact ⟨hfresh, hentry r' hin, hstart r' hs⟩
  refine ⟨hids, fun r' row hr' ho => ?_, fun r' hc => ?_, ?_, fun r' row hr' hc => ?_, ?_⟩
  · rw [hclosed]
    exact h.terminal r' row (hrow r' ▸ hr') ho
  · rw [hrow]
    exact h.stored r' (hclosed ▸ hc)
  · intro j r' row hr'
    rw [update_view know i _ View.row (by rfl)] at hr'
    rw [hclosed]
    exact h.known j r' row hr'
  · exact hentry r' (h.entry r' row (hrow r' ▸ hr') (hclosed ▸ hc))
  · refine Function.forall_update_iff know (fun _ k' => ∀ r, k'.entered = some r →
      r.run ∈ k'.fresh ∧ s'.world.store.get (.wfopen r) = some () ∧ s'.mon.starting r = true) |>.mpr
      ⟨fun r' hr' => ?_, fun j _ => hold j⟩
    simp only [View.wrote] at hr' ⊢
    split_ifs at hr' with hfresh
    · -- the run has no row yet, so its start is under way
      obtain rfl := Option.some.inj hr'
      refine ⟨hfresh, hself, ?_⟩
      simp [hstarting, h.ids.unused i r.run hfresh r.ns r.wf]
    · exact hold i r' hr'

theorem del_entry (h : EntryInv s know)
    (hids : RunIds s'.mon.taken s'.world.store (Function.update know i (know i)))
    (hstore : s'.world.store = s.world.store.del (.wfopen r)) (hmon : s'.mon = s.mon)
    (hfree : s.mon.closed r = true ∨ s.mon.starting r = false ∧ s.world.store.get (.wf r) = none) :
    EntryInv s' (Function.update know i (know i)) := by
  have hrow : ∀ r', s'.world.store.get (.wf r') = s.world.store.get (.wf r') :=
    fun r' => by rw [hstore, Store.get_del_of_ne _ (by simp)]
  have hentry : ∀ r', r' ≠ r → s'.world.store.get (.wfopen r') = s.world.store.get (.wfopen r') :=
    fun r' hne => by rw [hstore, Store.get_del_of_ne _ (by simpa using hne)]
  rw [Function.update_eq_self] at hids ⊢
  refine ⟨hids, fun r' row hr' ho => ?_, fun r' hc => ?_, ?_, fun r' row hr' hc => ?_,
    fun j r' hr' => ?_⟩
  · rw [hmon]
    exact h.terminal r' row (hrow r' ▸ hr') ho
  · rw [hrow]
    exact h.stored r' (hmon ▸ hc)
  · rw [hmon]
    exact h.known
  · grind [h.entry]
  · grind [h.entered, h.stored, h.not_stored]

/-- Every access that recovery is not troubled by keeps the index complete. -/
theorem keep {recovery : I → Prop} (h : EntryInv s know) {e : Effect}
    (hguard : (know i).guard True e) (hP : Untroubled recovery s i e) :
    EntryInv (s.after observe i e)
      (Function.update know i ((know i).learn e (handler e s.world).1)) := by
  -- an access that has nothing to do with rows, entries and run ids
  have haside : e.aside = true → DrawsNew s.mon.taken s.world e →
      (∀ r, (handler e s.world).2.store.get (.wf r) = s.world.store.get (.wf r)) →
      (∀ r, (handler e s.world).2.store.get (.wfopen r) = s.world.store.get (.wfopen r)) →
      (s.after observe i e).mon.closed = s.mon.closed ∧
        (s.after observe i e).mon.starting = s.mon.starting ∧
        (s.after observe i e).mon.taken = takeIds s.mon.taken s.world e →
      EntryInv (s.after observe i e)
        (Function.update know i ((know i).learn e (handler e s.world).1)) := by
    intro he hnew hrow hentry hmon
    have hsame := (know i).learn_aside he (handler e s.world).1
    refine h.frame ?_ hrow hentry hmon.1 hmon.2.1 (fun r row hr => .inl (by rwa [hsame.row] at hr))
      (fun id hid => by rwa [hsame.fresh]) hsame.entered
    rw [hmon.2.2]
    exact h.ids.keep hguard hnew
  cases e with
  | get key =>
    cases key with
    | wf r =>
      exact h.frame (h.ids.keep hguard trivial) (fun _ => rfl) (fun _ => rfl) rfl rfl
        (fun r' _ => View.known_of_read ((know i).row_learn_get s.world r r'))
        (fun _ hid => hid) rfl
    | _ => exact haside rfl trivial (fun _ => rfl) (fun _ => rfl) ⟨rfl, rfl, rfl⟩
  | list q =>
    cases q with
    | rows ns wf =>
      exact h.frame (h.ids.keep hguard trivial) (fun _ => rfl) (fun _ => rfl) rfl rfl
        (fun r _ => View.known_of_read ((know i).row_learn_list s.world ns wf r))
        (fun _ hid => hid) rfl
    | _ => exact haside rfl trivial (fun _ => rfl) (fun _ => rfl) ⟨rfl, rfl, rfl⟩
  | write x =>
    have hids := fun hnew => h.ids.keep hguard hnew
    cases hguard with
    | @count r row hrow | @revise r row _ hrow =>
      exact h.put_row (hids trivial) rfl rfl rfl (.inl (h.ids.stored i r row hrow))
    | create hstarts hmid hentered hfresh hopen hlen =>
      exact h.put_row (hids trivial) rfl rfl rfl (.inr hentered)
    | append hrow hmid =>
      exact h.frame (hids trivial) (fun _ => handler_write_get (by simp) _)
        (fun _ => handler_write_get (by simp) _) rfl rfl (fun _ _ hr => .inl hr)
        (fun _ hid => hid) rfl
    | enlist => exact h.put_entry (hids trivial) rfl rfl rfl
    | unlist hrow ho hnone => exact h.del_entry (hids trivial) rfl rfl hP
    | @activity r seq o a hheld hread hattempt honce =>
      refine haside rfl trivial (fun _ => handler_write_get (by simp) _)
        (fun _ => handler_write_get (by simp) _) ?_
      simp only [Shared.after, observe]
      split_ifs <;> exact ⟨rfl, rfl, rfl⟩
    | registry | indexed | request =>
      exact haside rfl trivial (fun _ => handler_write_get (by simp) _)
        (fun _ => handler_write_get (by simp) _) ⟨rfl, rfl, rfl⟩
    | note => exact haside rfl trivial (fun _ => rfl) (fun _ => rfl) ⟨rfl, rfl, rfl⟩
  | newRunId =>
    exact h.frame (h.ids.keep hguard hP) (fun _ => rfl) (fun _ => rfl) rfl rfl
      (fun _ _ hr => .inl hr) (fun _ hid => List.mem_cons_of_mem _ hid) rfl
  | resolveActivityToken token =>
    refine haside rfl trivial (fun _ => rfl) (fun _ => rfl) ?_
    simp only [Shared.after, observe]
    split <;> exact ⟨rfl, rfl, rfl⟩
  | fire r seq =>
    refine haside rfl trivial (fun _ => rfl) (fun _ => rfl) ?_
    simp only [Shared.after, observe]
    split_ifs <;> exact ⟨rfl, rfl, rfl⟩
  | _ => exact haside rfl trivial (fun _ => rfl) (fun _ => rfl) ⟨rfl, rfl, rfl⟩

end EntryInv

end DurableTasks
