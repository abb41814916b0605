import DurableTasks.Concurrency.DurableConduct

/-!
A run that is closed stays closed while other operations on it are under way,
as long as no operation writes the run's row without having read it since
another one closed it.
-/

namespace DurableTasks

open Effects Engine

variable {I : Type} [DecidableEq I]

theorem Store.any_isOpen {s : Store} {r : RunRef} :
    ((s.get (.wf r)).any fun row => row.isOpen) = true ↔
      ∃ row, s.get (.wf r) = some row ∧ row.isOpen = true := by
  cases s.get (.wf r) <;> simp

/-- What is watched: who closed a run, whether thread `i` has missed a close of
run `r` by another thread since it last read the row, and whether it has seen
the run open and no other thread has closed it since. -/
structure CloseWatch (I : Type) where
  closers : List (I × RunRef) := []
  missed : I → RunRef → Bool := fun _ _ => false
  live : I → RunRef → Bool := fun _ _ => false

namespace CloseWatch

def read (m : CloseWatch I) (i : I) (hit : RunRef → Bool) (s : Store) : CloseWatch I :=
  { m with
    missed := fun j r => m.missed j r && !(decide (j = i) && hit r)
    live := fun j r =>
      m.live j r || (decide (j = i) && hit r && (s.get (.wf r)).any fun row => row.isOpen) }

def close (m : CloseWatch I) (i : I) (r : RunRef) : CloseWatch I where
  closers := (i, r) :: m.closers
  missed := fun j r' => m.missed j r' || (decide (j ≠ i) && decide (r' = r))
  live := fun j r' => m.live j r' && !(decide (j ≠ i) && decide (r' = r))

def observe (i : I) (e : Effect) (w : World) (m : CloseWatch I) : CloseWatch I :=
  match e with
  | .get (.wf r) => m.read i (fun r' => r' = r) w.store
  | .list (.rows ns wf) => m.read i (fun r => r.ns = ns ∧ r.wf = wf) w.store
  | .write (.put (.wf r) row) =>
    if row.isOpen = false ∧ ((w.store.get (.wf r)).any fun old => old.isOpen) then m.close i r
    else m
  | _ => m

/-- A row is written only by a thread that has missed no close of the run, and
as canceling only by one that has seen the run open before and no close of it
since. -/
def attentive (s : Shared I (CloseWatch I)) (i : I) : Effect → Bool
  | .write (.put (.wf r) row) =>
    !s.mon.missed i r && (decide (row.status ≠ .canceling) || s.mon.live i r)
  | _ => true

omit [DecidableEq I] in
theorem attentive_put {s : Shared I (CloseWatch I)} {i : I} {r : RunRef} {row : WorkflowExecution}
    (h : attentive s i (.write (.put (.wf r) row)) = true) :
    s.mon.missed i r = false ∧ (row.status = .canceling → s.mon.live i r = true) := by
  simp only [attentive, Bool.and_eq_true, Bool.not_eq_true', Bool.or_eq_true,
    decide_eq_true_eq] at h
  exact ⟨h.1, fun heq => h.2.resolve_left fun hne => hne heq⟩

def Closed (s₀ : Store) (m : CloseWatch I) (r : RunRef) : Prop :=
  (∃ row, s₀.get (.wf r) = some row ∧ row.isOpen = false) ∨ ∃ i, (i, r) ∈ m.closers

end CloseWatch

open CloseWatch

/-- The rows are closed exactly where a run was, open runs are indexed, and what
the threads know is not older than what they have missed. -/
structure CloseInv (s₀ : Store) (s : Shared I (CloseWatch I)) (know : I → View) : Prop where
  stored : ∀ r, Closed s₀ s.mon r → ∃ row, s.world.store.get (.wf r) = some row
  row : ∀ r row, s.world.store.get (.wf r) = some row → (row.isOpen = false ↔ Closed s₀ s.mon r)
  entry : ∀ r row, s.world.store.get (.wf r) = some row → row.isOpen = true →
    s.world.store.get (.wfopen r) = some ()
  known : ∀ i r row, (know i).row r = some (some row) →
    (∃ row', s.world.store.get (.wf r) = some row') ∧ (row.isOpen = false → Closed s₀ s.mon r) ∧
      (row.isOpen = true → s.mon.missed i r = false → ¬Closed s₀ s.mon r)
  live : ∀ i r, s.mon.live i r = true →
    ¬(∃ row, s₀.get (.wf r) = some row ∧ row.isOpen = false) ∧ ∀ j, (j, r) ∈ s.mon.closers → j = i
  mine : ∀ i r, (i, r) ∈ s.mon.closers → (know i).closed r = true

namespace CloseInv

variable {s₀ : Store} {s s' : Shared I (CloseWatch I)} {know : I → View} {i : I} {k : View}

theorem frame (h : CloseInv s₀ s know)
    (hrow : ∀ r, s'.world.store.get (.wf r) = s.world.store.get (.wf r))
    (hentry : ∀ r, s'.world.store.get (.wfopen r) = s.world.store.get (.wfopen r))
    (hmon : s'.mon = s.mon) (hkrow : k.row = (know i).row) (hkclosed : k.closed = (know i).closed) :
    CloseInv s₀ s' (Function.update know i k) := by
  have hrows := update_view know i k View.row hkrow
  have hcloses := update_view know i k View.closed hkclosed
  constructor
  all_goals simp only [hrow, hentry, hmon, hrows, hcloses]
  exacts [h.stored, h.row, h.entry, h.known, h.live, h.mine]

theorem read (h : CloseInv s₀ s know) (hit : RunRef → Bool)
    (hworld : s'.world.store = s.world.store)
    (hmon : s'.mon = s.mon.read i hit s.world.store) (hclosed : k.closed = (know i).closed)
    (hk : ∀ r, k.row r = if hit r then some (s.world.store.get (.wf r)) else (know i).row r) :
    CloseInv s₀ s' (Function.update know i k) := by
  have hcl : ∀ r, Closed s₀ s'.mon r ↔ Closed s₀ s.mon r := fun r => by rw [hmon]; rfl
  refine ⟨fun r hc => ?_, fun r row hr => ?_, fun r row hr hopen => ?_, fun j r row hr => ?_,
    fun j r hlive => ?_, fun j r hr => ?_⟩
  · rw [hworld]
    exact h.stored r ((hcl r).mp hc)
  · rw [hcl]
    exact h.row r row (hworld ▸ hr)
  · rw [hworld]
    exact h.entry r row (hworld ▸ hr) hopen
  · rw [hcl, hworld, hmon]
    by_cases hj : j = i
    · subst hj
      rw [Function.update_self, hk] at hr
      split_ifs at hr with hhit
      · -- the row just read is the one stored
        have hrow := Option.some.inj hr
        exact ⟨⟨row, hrow⟩, (h.row r row hrow).mp, fun hopen _ hc => by
          have := (h.row r row hrow).mpr hc
          simp [hopen] at this⟩
      · simpa [CloseWatch.read, hhit] using h.known j r row hr
    · rw [Function.update_of_ne hj] at hr
      simpa [CloseWatch.read, hj] using h.known j r row hr
  · rw [hmon] at hlive ⊢
    simp only [CloseWatch.read, Bool.or_eq_true, Bool.and_eq_true, decide_eq_true_eq] at hlive
    rcases hlive with hlive | ⟨⟨rfl, -⟩, hopen⟩
    · exact h.live j r hlive
    · obtain ⟨row, hrow, hopen⟩ := Store.any_isOpen.mp hopen
      have hnot : ¬Closed s₀ s.mon r := fun hc => by
        have := (h.row r row hrow).mpr hc
        simp [hopen] at this
      exact ⟨fun h0 => hnot (.inl h0), fun i hi => absurd (.inr ⟨i, hi⟩) hnot⟩
  · rw [update_view know i k View.closed hclosed]
    exact h.mine j r (by rw [hmon] at hr; exact hr)

end CloseInv

theorem View.closed_wrote {k : View} {r : RunRef} (h : k.closed r = true) (r' : RunRef)
    (row : WorkflowExecution) : (k.wrote (.put (.wf r') row)).closed r = true := by
  simp only [View.wrote]
  by_cases hr : r = r'
  · subst hr
    simp [h]
  · rwa [Function.update_of_ne hr]

namespace CloseInv

variable {s₀ : Store} {s s' : Shared I (CloseWatch I)} {know : I → View} {i : I} {r : RunRef}
  {row : WorkflowExecution}

theorem mine_wrote (h : CloseInv s₀ s know) {j : I} {r' : RunRef} (hr : (j, r') ∈ s.mon.closers) :
    (Function.update know i ((know i).wrote (.put (.wf r) row)) j).closed r' = true := by
  by_cases hj : j = i
  · subst hj
    rw [Function.update_self]
    exact View.closed_wrote (h.mine j r' hr) r row
  · rw [Function.update_of_ne hj]
    exact h.mine j r' hr

/-- A row is written that closes nothing and opens nothing. -/
theorem put_row (h : CloseInv s₀ s know) (hstore : s'.world.store = s.world.store.put (.wf r) row)
    (hmon : s'.mon = s.mon) (hiff : row.isOpen = false ↔ Closed s₀ s.mon r)
    (hcur : ∃ cur, s.world.store.get (.wf r) = some cur) :
    CloseInv s₀ s' (Function.update know i ((know i).wrote (.put (.wf r) row))) := by
  obtain ⟨hself, hother, hentry, -⟩ := Store.get_of_put_row hstore
  refine ⟨fun r' hc => ?_, fun r' row' hr => ?_, fun r' row' hr hopen => ?_,
    fun j r' row' hr => ?_, fun j r' => ?_, fun j r' hr => ?_⟩
  · by_cases hr' : r' = r
    · exact ⟨row, hr' ▸ hself⟩
    · rw [hother r' hr']
      exact h.stored r' (hmon ▸ hc)
  · grind [h.row]
  · rw [hentry]
    by_cases hr' : r' = r
    · subst hr'
      -- the run is not closed, so the row written over is open as well
      obtain rfl : row = row' := Option.some.inj (hself.symm.trans hr)
      obtain ⟨cur, hcur⟩ := hcur
      have hnot : ¬cur.isOpen = false := fun hc => by
        have := hiff.mpr ((h.row r' cur hcur).mp hc)
        simp [hopen] at this
      exact h.entry r' cur hcur (by simpa using hnot)
    · exact h.entry r' row' (hother r' hr' ▸ hr) hopen
  · rw [hmon]
    rcases View.known_wrote hr with ⟨rfl, rfl, rfl⟩ | ⟨-, hr⟩
    · exact ⟨⟨_, hself⟩, hiff.mp, fun hopen _ hc => by simp [hiff.mpr hc] at hopen⟩
    · obtain ⟨hex, hknown⟩ := h.known j r' row' hr
      refine ⟨?_, hknown⟩
      by_cases hr' : r' = r
      · exact ⟨row, hr' ▸ hself⟩
      · rwa [hother r' hr']
  · rw [hmon]
    exact h.live j r'
  · exact h.mine_wrote (hmon ▸ hr)

theorem put_close (h : CloseInv s₀ s know) {old : WorkflowExecution}
    (hstore : s'.world.store = s.world.store.put (.wf r) row) (hmon : s'.mon = s.mon.close i r)
    (hrow : row.isOpen = false) (hold : (know i).row r = some (some old))
    (hopen : old.isOpen = true) :
    CloseInv s₀ s' (Function.update know i ((know i).wrote (.put (.wf r) row))) := by
  obtain ⟨hself, hother, hentry, -⟩ := Store.get_of_put_row hstore
  have hnow : Closed s₀ s'.mon r := .inr ⟨i, by rw [hmon]; exact List.mem_cons_self⟩
  have hgrow : ∀ r', Closed s₀ s.mon r' → Closed s₀ s'.mon r' := by
    rintro r' (h0 | ⟨j, hj⟩)
    · exact .inl h0
    · exact .inr ⟨j, by rw [hmon]; exact List.mem_cons_of_mem _ hj⟩
  have hsame : ∀ r', r' ≠ r → (Closed s₀ s'.mon r' ↔ Closed s₀ s.mon r') := by
    refine fun r' hr => ⟨?_, hgrow r'⟩
    rintro (h0 | ⟨j, hj⟩)
    · exact .inl h0
    · rw [hmon] at hj
      rcases List.mem_cons.mp hj with heq | hj
      · exact absurd (Prod.mk.inj heq).2 hr
      · exact .inr ⟨j, hj⟩
  refine ⟨fun r' hc => ?_, fun r' row' hr => ?_, fun r' row' hr hopen' => ?_,
    fun j r' row' hr => ?_, fun j r' hlive => ?_, fun j r' hr => ?_⟩
  · by_cases hr' : r' = r
    · exact ⟨row, hr' ▸ hself⟩
    · rw [hother r' hr']
      exact h.stored r' ((hsame r' hr').mp hc)
  · by_cases hr' : r' = r
    · subst hr'
      obtain rfl : row = row' := Option.some.inj (hself.symm.trans hr)
      exact iff_of_true hrow hnow
    · rw [hsame r' hr']
      exact h.row r' row' (hother r' hr' ▸ hr)
  · grind [h.entry]
  · by_cases hr' : r' = r
    · subst hr'
      refine ⟨⟨row, hself⟩, fun _ => hnow, fun hopen' hmissed => ?_⟩
      -- the closing thread knows what it wrote, and every other one has missed the close
      rcases View.known_wrote hr with ⟨-, -, rfl⟩ | ⟨hne, -⟩
      · simp [hrow] at hopen'
      · have hj : j ≠ i := fun hj => hne hj rfl
        simp [hmon, CloseWatch.close, hj] at hmissed
    · rw [hsame r' hr', hother r' hr', hmon]
      have hold := (View.known_wrote hr).resolve_left fun heq => hr' heq.2.1
      simpa [CloseWatch.close, hr'] using h.known j r' row' hold.2
  · rw [hmon] at hlive ⊢
    simp only [CloseWatch.close, Bool.and_eq_true, Bool.not_eq_true', Bool.and_eq_false_iff,
      decide_eq_false_iff_not, not_not] at hlive
    obtain ⟨hlive, hne⟩ := hlive
    obtain ⟨h0, hclosers⟩ := h.live j r' hlive
    refine ⟨h0, fun j' hj' => ?_⟩
    rcases List.mem_cons.mp hj' with heq | hj'
    · obtain ⟨rfl, rfl⟩ := Prod.mk.inj heq
      exact (hne.resolve_right fun hr => hr rfl).symm
    · exact hclosers j' hj'
  · rw [hmon] at hr
    rcases List.mem_cons.mp hr with heq | hr
    · obtain ⟨rfl, rfl⟩ := Prod.mk.inj heq
      have hterm : row.status.isTerminal = true := by
        simpa [WorkflowExecution.isOpen] using hrow
      simp [View.wrote, hterm, hold, hopen]
    · exact h.mine_wrote hr

theorem del_entry (h : CloseInv s₀ s know) (hclosed : Closed s₀ s.mon r) :
    CloseInv s₀ (s.after observe i (.write (.del (.wfopen r))))
      (Function.update know i (know i)) := by
  have hrows : ∀ r', (s.world.store.del (.wfopen r)).get (.wf r') = s.world.store.get (.wf r') :=
    fun r' => Store.get_del_of_ne _ (by simp)
  rw [Function.update_eq_self]
  refine ⟨fun r' hc => ?_, fun r' row hr => h.row r' row (hrows r' ▸ hr),
    fun r' row hr hopen => ?_, fun j r' row hr => ?_, h.live, h.mine⟩
  · obtain ⟨row, hrow⟩ := h.stored r' hc
    exact ⟨row, (hrows r').trans hrow⟩
  · replace hr : s.world.store.get (.wf r') = some row := hrows r' ▸ hr
    have hne : r' ≠ r := by
      rintro rfl
      have := (h.row r' row hr).mpr hclosed
      simp [hopen] at this
    exact (Store.get_del_of_ne _ (by simpa using hne)).trans (h.entry r' row hr hopen)
  · obtain ⟨⟨cur, hcur⟩, hknown⟩ := h.known j r' row hr
    exact ⟨⟨cur, (hrows r').trans hcur⟩, hknown⟩

/-- Every access of an attentive thread keeps the invariant. -/
theorem keep (h : CloseInv s₀ s know) {e : Effect} (hguard : (know i).guard False e)
    (hP : attentive s i e = true) :
    CloseInv s₀ (s.after observe i e)
      (Function.update know i ((know i).learn e (handler e s.world).1)) := by
  cases e with
  | get key =>
    cases key with
    | wf r =>
      exact h.read (fun r' => r' = r) rfl rfl rfl ((know i).row_learn_get s.world r)
    | _ => exact h.frame (fun _ => rfl) (fun _ => rfl) rfl (View.learn_aside _ rfl _).row
            (View.learn_aside _ rfl _).closed
  | list q =>
    cases q with
    | rows ns wf =>
      exact h.read (fun r => r.ns = ns ∧ r.wf = wf) rfl rfl rfl
        ((know i).row_learn_list s.world ns wf)
    | _ => exact h.frame (fun _ => rfl) (fun _ => rfl) rfl (View.learn_aside _ rfl _).row
            (View.learn_aside _ rfl _).closed
  | write x =>
    -- a write to a key that is neither a row nor an index entry
    have hframe : (∀ r, x.key ≠ some (.wf r)) → (∀ r, x.key ≠ some (.wfopen r)) →
        CloseInv s₀ (s.after observe i (.write x))
          (Function.update know i ((know i).wrote x)) := by
      intro hrow hentry
      have hsame : ((know i).wrote x).row = (know i).row ∧
          ((know i).wrote x).closed = (know i).closed ∧
          observe i (.write x) s.world s.mon = s.mon := by
        cases x with
        | put key v =>
          cases key with
          | wf r => exact absurd rfl (hrow r)
          | _ => exact ⟨rfl, rfl, rfl⟩
        | _ => exact ⟨rfl, rfl, rfl⟩
      exact h.frame (fun r => Store.get_apply_of_ne _ (hrow r))
        (fun r => Store.get_apply_of_ne _ (hentry r)) hsame.2.2 hsame.1 hsame.2.1
    -- a row that is open or written over a closed one
    have hquiet : ∀ {r : RunRef} {old row : WorkflowExecution},
        (know i).row r = some (some old) → (row.isOpen = true → ¬Closed s₀ s.mon r) →
        CloseInv s₀ (s.after observe i (.write (.put (.wf r) row)))
          (Function.update know i ((know i).wrote (.put (.wf r) row))) := by
      intro r old row hold hopen
      obtain ⟨⟨cur, hcur⟩, hclosed, -⟩ := h.known i r old hold
      by_cases hclose : row.isOpen = false ∧ cur.isOpen = true
      · have hold' : old.isOpen = true := by
          by_contra hnot
          have := (h.row r cur hcur).mpr (hclosed (by simpa using hnot))
          simp [hclose.2] at this
        exact h.put_close rfl (by simp [Shared.after, observe, hcur, hclose]) hclose.1 hold hold'
      · refine h.put_row rfl (by simp [Shared.after, observe, hcur]; tauto) ?_ ⟨cur, hcur⟩
        constructor
        · intro hrow
          refine (h.row r cur hcur).mp ?_
          by_contra hnot
          exact hclose ⟨hrow, by simpa using hnot⟩
        · intro hc
          by_contra hnot
          exact hopen (by simpa using hnot) hc
    cases hguard with
    | @count r row hrow hmid =>
      exact hquiet hrow fun hopen =>
        (h.known i r row hrow).2.2 hopen (attentive_put hP).1
    | @revise r row row' hrow hmid hlen hstatus =>
      refine hquiet hrow fun hopen => ?_
      rcases hstatus with heq | ⟨hcanceling, hmine⟩ | ⟨-, hclosed⟩
      · refine (h.known i r row hrow).2.2 ?_ (attentive_put hP).1
        rwa [WorkflowExecution.isOpen, ← heq]
      · -- no other thread has closed the run, nor has this one
        obtain ⟨h0, hclosers⟩ := h.live i r ((attentive_put hP).2 hcanceling)
        rintro (hc | ⟨j, hj⟩)
        · exact h0 hc
        · obtain rfl := hclosers j hj
          simp [h.mine j r hj] at hmine
      · simp [hclosed] at hopen
    | create hstarts => exact hstarts.elim
    | append hrow hmid => exact hframe (by simp) (by simp)
    | enlist hstarts => exact hstarts.elim
    | @unlist r o hrow ho hnone =>
      cases o with
      | none => exact (hnone rfl).elim
      | some old => exact h.del_entry ((h.known i r old hrow).2.1 (ho old rfl))
    | activity | registry | indexed | request | note => exact hframe (by simp) (by simp)
  | newRunId => exact h.frame (fun _ => rfl) (fun _ => rfl) rfl rfl rfl
  | _ => exact h.frame (fun _ => rfl) (fun _ => rfl) rfl (View.learn_aside _ rfl _).row
          (View.learn_aside _ rfl _).closed

end CloseInv

/-- Operations that start no run (cancels, terminations, signals, metadata
updates and responses that complete or fail a run among them) run at the same
time, each store access one step and the run lock held only where the engine
takes it. If every row is written by an attentive thread, then a run that one
of them closed, or that was closed before, has a terminal row from then on, and
every open run has its index entry. -/
theorem terminal_status_not_lost {fuel : Nat} {w : World} {ops : I → Operation}
    (hops : ∀ i, (ops i).Plain ∧ (ops i).StartsNone)
    (hindex : ∀ r row, w.store.get (.wf r) = some row → row.isOpen = true →
      w.store.get (.wfopen r) = some ())
    {p : Pool I Effect Effect.Answer (Shared I (CloseWatch I))}
    (hreach : Pool.Reaches (access observe) (fun s i e => attentive s i e = true)
      (together fuel w {} ops) p) :
    (∀ r, Closed w.store p.world.mon r →
        ∃ row, p.world.world.store.get (.wf r) = some row ∧ row.isOpen = false) ∧
      ∀ r row, p.world.world.store.get (.wf r) = some row → row.isOpen = true →
        p.world.world.store.get (.wfopen r) = some () := by
  have hview : ∀ i, (ops i).view.row = fun _ => none := by
    intro i
    cases ops i <;> rfl
  have hinit : CloseInv w.store ⟨w, fun _ => none, ({} : CloseWatch I)⟩ fun i => (ops i).view := by
    have hclosed : ∀ r, Closed w.store ({} : CloseWatch I) r ↔
        ∃ row, w.store.get (.wf r) = some row ∧ row.isOpen = false := by
      simp [Closed]
    refine ⟨fun r hc => ?_, fun r row hr => ?_, hindex, fun i r row hr => ?_, by simp, by simp⟩
    · obtain ⟨row, hrow, -⟩ := (hclosed r).mp hc
      exact ⟨row, hrow⟩
    · rw [hclosed]
      exact ⟨fun h => ⟨row, hr, h⟩, fun ⟨row', hr', h⟩ => by
        rwa [Option.some.inj (hr.symm.trans hr')]⟩
    · simp [hview] at hr
  obtain ⟨know, hinv, -⟩ := together_invariant (CloseInv w.store)
    (fun hinv hguard hP _ => hinv.keep hguard hP)
    (fun i => ⟨(hops i).1, .inr (hops i).2⟩) hinit hreach
  refine ⟨fun r hc => ?_, hinv.entry⟩
  obtain ⟨row, hrow⟩ := hinv.stored r hc
  exact ⟨row, hrow, (hinv.row r row hrow).mpr hc⟩

def metadataBesideComplete : Bool → Operation
  | false => .updateMetadata ⟨"n", "wf", some "r"⟩ { summary := "s" }
  | true => .respondWorkflow 0 [.complete (.ofJson "null" .null)]

def cancelBesideComplete : Bool → Operation
  | false => .cancel ⟨"n", "wf", some "r"⟩ "stop" "operator"
  | true => .respondWorkflow 0 [.complete (.ofJson "null" .null)]

/-- Whether both threads have returned, who closed which run, the status of
`n/wf/r`, and whether it is indexed. -/
def aftermath (p : Pool Bool Effect Effect.Answer (Shared Bool (CloseWatch Bool))) :
    (Bool × Bool) × List (Bool × RunRef) × Option WorkflowStatus × Bool :=
  (((p.code false).returned, (p.code true).returned), p.world.mon.closers,
    (p.world.world.store.get (.wf ⟨"n", "wf", "r"⟩)).map fun row => row.status,
    (p.world.world.store.get (.wfopen ⟨"n", "wf", "r"⟩)).isSome)

/-- The update falls between the read and the closing write of the response. -/
theorem terminal_status_not_lost_metadata :
    ∃ p, Pool.Reaches (access observe) (fun s i e => attentive s i e = true)
        (together 1 startedShard {} metadataBesideComplete) p ∧ p.Finished ∧
      ∃ row, p.world.world.store.get (.wf ⟨"n", "wf", "r"⟩) = some row ∧ row.isOpen = false := by
  refine (Pool.observed (f := aftermath)
    (b := ((true, true), [(true, ⟨"n", "wf", "r"⟩)], some .completed, false)) (fun _ _ _ h => h)
    (List.replicate 3 true ++ List.replicate 3 false ++ List.replicate 11 true) ?_).imp
    fun p h => ⟨h.1, Bool.forall_bool.mpr (Prod.mk.inj (Prod.mk.inj h.2).1), ?_⟩
  · decide +kernel
  have hclosers : p.world.mon.closers = [(true, ⟨"n", "wf", "r"⟩)] :=
    (Prod.mk.inj (Prod.mk.inj h.2).2).1
  have hindex : startedShard.store.get (.wfopen ⟨"n", "wf", "r"⟩) = some () := by decide +kernel
  refine (terminal_status_not_lost ?_ (fun r row hr _ => ?_) h.1).1 _
    (.inr ⟨true, hclosers ▸ List.mem_singleton_self _⟩)
  · refine Bool.forall_bool.mpr ⟨⟨trivial, trivial⟩, trivial, fun c hc => ?_⟩
    obtain rfl := List.mem_singleton.mp hc
    trivial
  · rw [Store.row_of_single startedShard_runs hr]
    exact hindex

/-- Without attention a close is lost. A metadata update that read the row
before the response closed the run puts it back as running; and a cancel
request that looked at the status before it sets the closed row to canceling.
Both times the run was completed, its row is not terminal and its index entry
is gone. -/
theorem stale_write_reopens_run :
    (∃ p, Pool.Reaches (access observe) (fun _ _ _ => True)
        (together 1 startedShard {} metadataBesideComplete) p ∧ p.Finished ∧
      aftermath p =
        ((true, true), [(true, ⟨"n", "wf", "r"⟩)], some .running, false)) ∧
    ∃ p, Pool.Reaches (access observe) (fun _ _ _ => True)
        (together 1 startedShard {} cancelBesideComplete) p ∧ p.Finished ∧
      aftermath p =
        ((true, true), [(true, ⟨"n", "wf", "r"⟩)], some .canceling, false) := by
  have hfin : ∀ {p left}, aftermath p = ((true, true), left) → p.Finished :=
    fun h => Bool.forall_bool.mpr (Prod.mk.inj (Prod.mk.inj h).1)
  refine ⟨(Pool.observed_any (f := aftermath)
      (false :: (List.replicate 14 true ++ List.replicate 2 false)) ?_).imp
      fun p h => ⟨h.1, hfin h.2, h.2⟩,
    (Pool.observed_any (f := aftermath)
      (false :: (List.replicate 14 true ++ List.replicate 9 false)) ?_).imp
      fun p h => ⟨h.1, hfin h.2, h.2⟩⟩
  · decide +kernel
  · decide +kernel

end DurableTasks
