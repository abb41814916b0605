import DurableTasks.Engine.Footprint
import DurableTasks.Engine.Process
import DurableTasks.Safety.OpenIndex
import DurableTasks.Safety.Pending

/-!
The life of a process from the recovery it begins with: no activity of an open
run is forgotten, attempts are bounded, and a token is answered once and for one
activity. Recovery is asked of the root tenant only, so the other tenants must
have nothing pending when the process boots.
-/

namespace DurableTasks

open Effects Engine

variable {r : RunRef} {w : World} {fuel : Nat} {L : Ledger} {p : Principal}

/-! ## The answer to a token -/

/-- The accesses that change nothing of a process but what is about the activity
`seq` of `r`, and the row, history and workflow tasks of that run. -/
def Effect.About (r : RunRef) (seq : Int) : Effect → Prop
  | .write x => x.key = some (.wfact r seq) ∨ x.key = some (.wf r) ∨ ∃ id, x.key = some (.wfh r id)
  | .enqueueWorkflowTask t => t.ref = r
  | .afterFunc r' seq' => r' = r ∧ seq' = seq
  | .get _ | .list _ | .now | .lock _ | .unlock _ | .recordFailure _ _ | .clearFailure _ => True
  | _ => False

/-- An answer is about the activity its token was minted for. -/
theorem completion_about (r : RunRef) (seq : Int) (failure : Raw) :
    Completion (Effect.About r seq) r seq failure where
  lock := trivial
  unlock := trivial
  now := trivial
  record := trivial
  row := trivial
  events := trivial
  put _ _ := .inl rfl
  event _ _ _ _ := .inr (.inr ⟨_, rfl⟩)
  count _ := .inr (.inl rfl)
  task _ ht := ht
  timer := ⟨rfl, rfl⟩
  failed _ _ := trivial
  recovered _ _ := trivial

/-- From `w` to `w'` nothing changed but what is about the activity `seq` of
`r`, and the row, history and workflow tasks of that run. -/
structure Confined (r : RunRef) (seq : Int) (w w' : World) : Prop where
  act : ∀ c s, (c, s) ≠ (r, seq) → w'.store.get (.wfact c s) = w.store.get (.wfact c s)
  row : ∀ c, c ≠ r → w'.store.get (.wf c) = w.store.get (.wf c)
  event : ∀ c, c ≠ r → ∀ id, w'.store.get (.wfh c id) = w.store.get (.wfh c id)
  tokens : w'.disp.actByToken = w.disp.actByToken
  timers : ∀ c s, (c, s) ≠ (r, seq) → w'.timers.count (c, s) = w.timers.count (c, s)
  tasks : ∀ p ∈ w'.disp.wfByToken, p ∈ w.disp.wfByToken ∨ p.2.ref = r

theorem Confined.refl (r : RunRef) (seq : Int) (w : World) : Confined r seq w w :=
  ⟨fun _ _ _ => rfl, fun _ _ => rfl, fun _ _ _ => rfl, rfl, fun _ _ _ => rfl, fun _ hp => .inl hp⟩

theorem Confined.effect {seq : Int} {w' : World} {e : Effect} (he : e.About r seq)
    (h : Confined r seq w w') : Confined r seq w (handler e w').2 := by
  cases e with
  | write x =>
    have hkey : ∀ k, k ≠ .wfact r seq → k ≠ .wf r → (∀ id, k ≠ .wfh r id) →
        (w'.store.apply x).get k = w'.store.get k := by
      refine fun k hact hrow hev => Store.get_apply_of_ne _ fun hk => ?_
      rcases he with he | he | ⟨id, he⟩ <;> rw [hk] at he
      · exact hact (Option.some.inj he)
      · exact hrow (Option.some.inj he)
      · exact hev id (Option.some.inj he)
    refine ⟨fun c s hne => ?_, fun c hc => ?_, fun c hc id => ?_, h.tokens, h.timers, h.tasks⟩
    · exact (hkey _ (by simpa using hne) (by simp) (by simp)).trans (h.act c s hne)
    · exact (hkey _ (by simp) (by simpa using hc) (by simp)).trans (h.row c hc)
    · exact (hkey _ (by simp) (by simp) (by simp [hc])).trans (h.event c hc id)
  | enqueueWorkflowTask t =>
    refine ⟨h.act, h.row, h.event, h.tokens, h.timers, fun p hp => ?_⟩
    rcases List.mem_cons.mp hp with rfl | hp
    · exact .inr he
    · exact h.tasks p hp
  | afterFunc r' seq' =>
    obtain ⟨rfl, rfl⟩ := he
    refine ⟨h.act, h.row, h.event, h.tokens, fun c s hne => ?_, h.tasks⟩
    exact (List.count_cons_of_ne hne.symm).trans (h.timers c s hne)
  | get k => exact h
  | list q => exact h
  | now => exact ⟨h.act, h.row, h.event, h.tokens, h.timers, h.tasks⟩
  | lock r' => exact h
  | unlock r' => exact h
  | recordFailure id retrying => exact h
  | clearFailure id => exact h
  | _ => exact he.elim

/-- The outcome of an activity is stored whether or not its run is still
there. -/
theorem recordOutcome_stores {seq : Int} {b : WorkflowActivity} {attrs : EventAttrs}
    {id : FailureIdentity} {A : World → Prop} (hb : b.storable = true) :
    (recordOutcome r seq b attrs id).spec A (fun _ _ => True)
      (fun _ w' => w'.store.get (.wfact r seq) = some b) w := by
  simp only [recordOutcome, Go.spec_bind, putWorkflowActivity_spec, if_pos hb, spec_appendHistory,
    Store.resolve_coe, true_and]
  have hput : (w.write (.put (.wfact r seq) b)).store.get (.wfact r seq) = some b := by simp
  generalize w.write (.put (.wfact r seq) b) = w₁ at hput ⊢
  cases w₁.store.get (.wf r) with
  | none => exact hput
  | some row =>
    simp only [Option.map_some, spec_reportOutcome, spec_scheduleWorkflowTask]
    refine ⟨along_of_forall (fun _ _ => trivial) _ _, ?_⟩
    set w₂ := w₁.tick.writes (appendWrites r row w₁.time attrs)
    have hget : w₂.store.get (.wfact r seq) = some b := by
      simp [w₂, appendWrites, Store.get_put_of_ne, hput]
    cases w₂.store.get (.wf r) with
    | none => exact hget
    | some row' =>
      dsimp only
      split_ifs
      · exact hget
      · cases decodeEvents (w₂.store.events r) <;> exact hget

/-- A report of a failure uses up an attempt of a pending activity, or ends
it. -/
theorem failure_advances {seq : Int} {failure : Raw} {a : WorkflowActivity}
    {row : WorkflowExecution} {A : World → Prop} (hact : w.store.get (.wfact r seq) = some a)
    (hpending : a.isTerminal = false) (hrow : w.store.get (.wf r) = some row)
    (hopen : row.isOpen = true) (hfailed : failure.isEmpty = false)
    (hstorable : failure.storable = true) (ha : a.storable = true) :
    (completeWorkflowActivity r seq .empty failure).spec A (fun _ _ => True)
      (fun _ w' => ∃ b, w'.store.get (.wfact r seq) = some b ∧
        (b.isTerminal = true ∨ b.attempt = a.attempt + 1)) w := by
  refine completeWorkflowActivity_cases (by simp [hact])
    (by simp [hact, hpending, hrow, hopen]) fun _ hget _ _ => ?_
  obtain rfl := Option.some.inj (hact.symm.trans hget)
  unfold completeWorkflowActivity.advance
  rw [if_neg (by simp [hfailed])]
  split_ifs with hretry
  · simp only [Go.spec_bind, Go.spec_recordFailure, putWorkflowActivity_spec, storable_failure ha,
      hstorable, if_true, Go.spec_afterFunc, true_and]
    exact ⟨_, by simp; rfl, .inr rfl⟩
  · refine Go.spec_mono (fun _ w' hget => ⟨_, hget, .inl rfl⟩) _ (recordOutcome_stores ?_)
    exact (storable_failure ha .failed a.attempt).trans hstorable

/-! ## Recovery from nothing -/

/-- The accesses that take back no token and touch no timer. -/
def Effect.HandsOut : Effect → Prop
  | .resolveActivityToken _ | .afterFunc _ _ | .fire _ _ => False
  | _ => True

/-- How many tokens are out for an activity, and how many retry timers armed. -/
def World.live (w : World) (r : RunRef) (seq : Int) : Nat :=
  w.disp.actByToken.countP fun p => p.2.ref = r ∧ p.2.seq = seq

def World.armed (w : World) (r : RunRef) (seq : Int) : Nat := w.timers.count (r, seq)

structure World.Handed (w : World) : Prop
  extends Ledger.Minted w.disp.actByToken w.disp.nextToken where
  timers : w.timers = []
  live : ∀ r seq, w.live r seq = w.attempts r seq

theorem World.Handed.effect {e : Effect} (he : e.HandsOut) (h : w.Handed) :
    (handler e w).2.Handed := by
  cases e with
  | resolveActivityToken token => exact he.elim
  | afterFunc r seq => exact he.elim
  | fire r seq => exact he.elim
  | enqueueWorkflowTask t =>
    exact ⟨⟨h.unique, fun p hp => (h.minted p hp).trans (Nat.lt_succ_self _)⟩, h.timers, h.live⟩
  | dispatchActivity t n =>
    refine ⟨h.toMinted.mint t, h.timers, fun r seq => ?_⟩
    have hlive := h.live r seq
    simp only [handler, World.live, World.attempts_dispatch] at hlive ⊢
    simp only [World.dispatch, Dispatcher.dispatchActivity, List.countP_cons, hlive,
      decide_eq_true_eq]
  | _ => exact ⟨h.toMinted, h.timers, h.live⟩

def Store.Patient (s : Store) : Prop := ∀ r seq a, s.get (.wfact r seq) = some a → a.Patient

theorem Store.Patient.write {s : Store} {win : Window} {x : Write} (h : s.Patient)
    (hx : Allowed .lenient s win x) : (s.apply x).Patient := by
  intro r seq a ha
  rcases Store.get_apply_some ha with ha | rfl
  · exact h r seq a ha
  · cases hx with
    | record storable pending running patient =>
      rcases patient with hpatient | ⟨b, hb, hfollows⟩
      · exact hpatient
      · exact (h _ _ b hb).follows hfollows

/-- A shard that began empty and was worked on, with crashes anywhere, by earlier
processes. -/
def World.Worked (fuel : Nat) (w : World) : Prop :=
  ∃ w₀ code, World.Fresh w₀ ∧ (system fuel).Reachable readablePolicy w₀ ⟨w, code⟩

theorem World.Worked.indexed (h : w.Worked fuel) : ∃ bare, w.store.Indexed bare := by
  obtain ⟨w₀, code, hfresh, hr⟩ := h
  exact ⟨_, (indexed_inductive w₀.store.Bare).reachable readable_conforms hfresh.keyed
    hfresh.preIndex.indexed (.inl hfresh.window) hr⟩

/-- One operation of one tenant: run ids that are given or drawn are not in use,
workers report JSON, and no run is purged. -/
inductive Moment.Step (fuel : Nat) (m : Moment) : Moment → Prop
  | mk (p : Principal) (o : Operation) (hwithin : o.Within Scope.lifetime (m.process p))
      (hdraws : (program fuel o).Meets handler (onDraw Scope.lifetime.draws) (m.process p).begin) :
      Step fuel m ⟨m.process.perform fuel p o, (m.process.answer fuel p o).toList ++ m.log⟩

/-- The world of the token's tenant as its token is consumed. -/
def Answer.begun (x : Answer) : World :=
  let w := (x.before x.token.principal).begin
  { w with disp := (w.disp.resolveActivityToken x.token.id).2 }

/-- An answer changed nothing but what is about the activity its token was
minted for. -/
structure Answer.Confined (x : Answer) : Prop where
  tenants : ∀ p, p ≠ x.token.principal → x.after p = x.before p
  rest : DurableTasks.Confined x.task.ref x.task.seq x.begun (x.after x.token.principal)

/-- A pending activity of an open run is with one worker or behind one timer and
not both, attempts are bounded, an activity that failed as often as its policy
allows is over, and each token was answered once, for its own activity. -/
structure Moment.Sound (m : Moment) : Prop where
  one : ∀ p r row, (m.process p).store.get (.wf r) = some row → row.isOpen = true →
    ∀ seq a, (m.process p).store.get (.wfact r seq) = some a → a.isTerminal = false →
      ((m.process p).live r seq = 1 ∧ (m.process p).armed r seq = 0) ∨
        ((m.process p).live r seq = 0 ∧ (m.process p).armed r seq = 1)
  bounded : ∀ p r seq a, (m.process p).store.get (.wfact r seq) = some a →
    a.attempt ≤ (Temporal.effectiveRetryPolicy a.retryPolicy).maximumAttempts
  ended : ∀ p r row, (m.process p).store.get (.wf r) = some row → row.isOpen = true →
    ∀ seq a, (m.process p).store.get (.wfact r seq) = some a →
      (Temporal.effectiveRetryPolicy a.retryPolicy).maximumAttempts ≤ failures m.log p r seq →
        a.isTerminal = true
  consumed : (m.log.map Answer.token).Nodup
  confined : ∀ x ∈ m.log, x.Confined

/-! ## Accounts -/

def Ledger.attempt (L : Ledger) (r : RunRef) (seq : Int) : Nat :=
  ((L.act r seq).map WorkflowActivity.attempt).getD 0

structure Accounted (log : List Answer) (p : Principal) (L : Ledger) : Prop where
  tended : L.Tended
  spent : ∀ x ∈ log, x.token.principal = p →
    x.token.id < L.nextToken ∧ ∀ q ∈ L.tokens, q.1 ≠ x.token.id
  counted : ∀ r, (∀ row, L.row r = some row → row.isOpen = true) → ∀ seq,
    failures log p r seq + L.pending r seq ≤ L.attempt r seq

theorem Ledger.Tended.pending_le (h : L.Tended) (r : RunRef) (seq : Int) :
    L.pending r seq ≤ L.attempt r seq := by
  cases ha : L.act r seq with
  | none => simp [Ledger.pending_of_none ha]
  | some a =>
    have hpos := (h.patient r seq a ha).1
    rw [Ledger.pending_of_some ha, Ledger.attempt, ha]
    change _ ≤ a.attempt
    split_ifs <;> omega

theorem Ledger.Grows.notClosed {L' : Ledger} (h : L.Grows L')
    (hr : ∀ row, L'.row r = some row → row.isOpen = true) :
    ∀ row, L.row r = some row → row.isOpen = true := by
  intro row hrow
  obtain ⟨row', hrow'⟩ := Option.isSome_iff_exists.mp ((h.run r).row (by simp [hrow]))
  rcases (h.run r).opened row' hrow' (hr row' hrow') with hnone | ⟨row₁, hrow₁, hopen⟩
  · cases hnone.symm.trans hrow
  · obtain rfl : row = row₁ := Option.some.inj (hrow.symm.trans hrow₁)
    exact hopen

/-- Moves use up attempts, and answer nothing of their own. -/
theorem Accounted.moves {log : List Answer} {L' : Ledger} (h : Accounted log p L)
    (hmoves : Moves Scope.lifetime L L') : Accounted log p L' := by
  obtain ⟨htended, hgrows⟩ := Moves.tended h.tended hmoves
  refine ⟨htended, fun x hx hp => ⟨?_, fun q hq => ?_⟩, fun r hr seq => ?_⟩
  · exact (h.spent x hx hp).1.trans_le hgrows.next
  · rcases hgrows.token q hq with hold | hnew
    · exact (h.spent x hx hp).2 q hold
    · have hlt := (h.spent x hx hp).1
      omega
  · have hbefore := h.counted r (hgrows.notClosed hr) seq
    cases ha : L.act r seq with
    | none =>
      rw [Ledger.attempt, ha] at hbefore
      have hle := htended.pending_le r seq
      simp only [Option.map_none, Option.getD_none] at hbefore
      omega
    | some a =>
      obtain ⟨a', ha' : L'.act r seq = some a', hle, hterm⟩ := (hgrows.run r).act seq a ha
      rw [Ledger.pending_of_some ha, Ledger.attempt, ha] at hbefore
      rw [Ledger.pending_of_some ha', Ledger.attempt, ha']
      simp only [Option.map_some, Option.getD_some] at hbefore ⊢
      split_ifs at hbefore ⊢ <;> first | omega | simp_all

/-! ## One operation -/

/-- What an answer is: a token that was out, a report, and the process once the
activity has been advanced with it. -/
structure Answer.Of (fuel : Nat) (P : Process) (p : Principal) (o : Operation)
  (result failure : Raw) (x : Answer) : Prop where
  tenant : x.token.principal = p
  before : x.before = P
  after : x.after = P.perform fuel p o
  out : (x.token.id, x.task) ∈ (P p).disp.actByToken
  failed : x.failed = !failure.isEmpty
  report : x.failed = true → result = .empty ∧ failure.storable = true
  run : ∀ Q : World → Prop, (completeWorkflowActivity x.task.ref x.task.seq result failure).spec
    (fun _ => True) (fun _ _ => True) (fun _ => Q) x.begun → Q (x.after p)

theorem mem_of_resolve {d : Dispatcher} {token : Nat} {task : ActivityTask}
    (h : (d.resolveActivityToken token).1 = some task) : (token, task) ∈ d.actByToken := by
  obtain ⟨⟨k, task'⟩, hfind, rfl⟩ := Option.map_eq_some_iff.mp h
  obtain rfl : k = token := by simpa using List.find?_some hfind
  exact List.mem_of_find?_eq_some hfind

theorem Process.answer_cases {P : Process} {o : Operation} {x : Answer}
    (hwithin : o.Within Scope.lifetime (P p)) (h : P.answer fuel p o = some x) :
    ∃ result failure, x.Of fuel P p o result failure := by
  cases o with
  | respondActivityCompleted token result =>
    obtain ⟨task, hres, rfl⟩ := Option.map_eq_some_iff.mp h
    refine ⟨result, .empty, rfl, rfl, rfl, mem_of_resolve hres, rfl, by simp, fun Q hQ => ?_⟩
    change Q (P.perform fuel p _ p)
    rw [perform_self]
    refine Go.run_drop (G := fun _ _ => True) ?_
    rw [respondActivityCompleted, Go.spec_bind, Go.spec_resolveActivityToken]
    rw [show ((P p).begin.disp.resolveActivityToken token).1 = some task from hres]
    exact hQ
  | respondActivityFailed token failure =>
    obtain ⟨task, hres, rfl⟩ := Option.map_eq_some_iff.mp h
    refine ⟨.empty, failure, rfl, rfl, rfl, mem_of_resolve hres, rfl, fun hf => ⟨rfl, ?_⟩,
      fun Q hQ => ?_⟩
    · have hreport : Scope.lifetime.Reports .empty failure := hwithin
      have hne : failure.isEmpty = false := by simpa using hf
      rw [Scope.Reports, if_neg (by simp [hne])] at hreport
      exact hreport
    · change Q (P.perform fuel p _ p)
      rw [perform_self]
      refine Go.run_drop (G := fun _ _ => True) ?_
      rw [respondActivityFailed, Go.spec_bind, Go.spec_resolveActivityToken]
      rw [show ((P p).begin.disp.resolveActivityToken token).1 = some task from hres]
      exact hQ
  | _ => cases h

/-- An answer keeps to the activity its token was minted for. -/
theorem Answer.Of.confined {P : Process} {o : Operation} {result failure : Raw} {x : Answer}
    (h : x.Of fuel P p o result failure) : x.Confined := by
  refine ⟨fun q hq => ?_, ?_⟩
  · rw [h.after, h.before]
    exact Process.perform_of_ne (h.tenant ▸ hq)
  · rw [h.tenant]
    exact h.run _ (Go.spec_mono (fun _ _ h => h.2) _ (Go.spec_onlyOf
      (fun _ _ _ => trivial) (fun e w he hw => hw.effect he) ((completion_about _ _ _).onlyOf _)
      (.refl _ _ _)))

theorem failures_cons (x : Answer) (log : List Answer) (p : Principal) (r : RunRef) (seq : Int) :
    failures (x :: log) p r seq = failures log p r seq +
      if x.failed = true ∧ x.token.principal = p ∧ (x.task.ref, x.task.seq) = (r, seq) then 1
      else 0 := by
  simp [failures, List.countP_cons]

theorem Accounted.other {log : List Answer} {x : Answer} (h : Accounted log p L)
    (hx : x.token.principal ≠ p) : Accounted (x :: log) p L := by
  refine ⟨h.tended, fun y hy hp => ?_, fun r hr seq => ?_⟩
  · rcases List.mem_cons.mp hy with rfl | hy
    · exact absurd hp hx
    · exact h.spent y hy hp
  · rw [failures_cons, if_neg (by simp [hx])]
    exact h.counted r hr seq

section Operation

variable {fuel : Nat} {P : Process} {p : Principal} {o : Operation} {result failure : Raw}
  {x : Answer} {log : List Answer} {L L' : Ledger}

/-- A failure that is counted has used up an attempt. -/
theorem Answer.Of.counted (hx : x.Of fuel P p o result failure) (hshows : (P p).Shows L)
    (hshows' : (P.perform fuel p o p).Shows L') (hacc : Accounted log p L) (hgrows : L.Grows L')
    (hfailed : x.failed = true) (hr : ∀ row, L'.row x.task.ref = some row → row.isOpen = true) :
    failures log p x.task.ref x.task.seq + 1 + L'.pending x.task.ref x.task.seq ≤
      L'.attempt x.task.ref x.task.seq := by
  obtain ⟨rfl, hstorable⟩ := hx.report hfailed
  have hout : (x.token.id, x.task) ∈ L.tokens := hshows.tokens ▸ hx.out
  obtain ⟨row, hrow⟩ := Option.isSome_iff_exists.mp (hacc.tended.booked.tokens _ hout)
  have hopen := hgrows.notClosed hr row hrow
  obtain ⟨a, ha, hpending⟩ := hacc.tended.act_of_token hout hrow hopen
  have hused : failures log p x.task.ref x.task.seq + 1 ≤ a.attempt := by
    have hcount := hacc.counted x.task.ref (hgrows.notClosed hr) x.task.seq
    rw [Ledger.pending_of_some ha, hpending, Ledger.attempt, ha] at hcount
    simpa using hcount
  have hstore : x.begun.store = (P p).store := by
    rw [Answer.begun, hx.before, hx.tenant]
    rfl
  have hnonempty : failure.isEmpty = false := by simpa [hx.failed] using hfailed
  obtain ⟨b, hb, hadvanced⟩ := hx.run _ (failure_advances
    (by rw [hstore, hshows.act, ha]) hpending (by rw [hstore, hshows.row, hrow]) hopen hnonempty
    hstorable (hshows.storable _ _ a ha))
  have hb' : L'.act x.task.ref x.task.seq = some b := by
    rw [← hshows'.act, ← hx.after]
    exact hb
  obtain ⟨b', hb₁, hle, -⟩ := (hgrows.run _).act _ a ha
  obtain rfl : b = b' := Option.some.inj (hb'.symm.trans hb₁)
  rw [Ledger.pending_of_some hb', Ledger.attempt, hb']
  simp only [Option.map_some, Option.getD_some]
  rcases hadvanced with hterm | hnext
  · rw [if_pos hterm]
    omega
  · split_ifs <;> omega

/-- The account of the tenant an answer is for. -/
theorem Answer.Of.accounted (hx : x.Of fuel P p o result failure) (hshows : (P p).Shows L)
    (hshows' : (P.perform fuel p o p).Shows L') (hacc : Accounted log p L)
    (hmoves : Moves Scope.lifetime L L') : Accounted (x :: log) p L' := by
  obtain ⟨htended, hgrows⟩ := Moves.tended hacc.tended hmoves
  have hacc' := hacc.moves hmoves
  have hout : (x.token.id, x.task) ∈ L.tokens := hshows.tokens ▸ hx.out
  have hgone : ∀ q ∈ L'.tokens, q.1 ≠ x.token.id := by
    intro q hq
    have htokens := hx.confined.rest.tokens
    rw [hx.tenant, hx.after, hshows'.tokens] at htokens
    rw [htokens] at hq
    simpa using List.of_mem_filter hq
  refine ⟨htended, fun y hy hp => ?_, fun r hr seq => ?_⟩
  · rcases List.mem_cons.mp hy with rfl | hy
    · exact ⟨(hacc.tended.booked.minted _ hout).trans_le hgrows.next, hgone⟩
    · exact hacc'.spent y hy hp
  · rw [failures_cons]
    split_ifs with hcounts
    · obtain ⟨hfailed, -, hkey⟩ := hcounts
      obtain ⟨rfl, rfl⟩ := Prod.mk.inj hkey
      exact hx.counted hshows hshows' hacc hgrows hfailed hr
    · exact hacc'.counted r hr seq

end Operation

structure Moment.Kept (m : Moment) : Prop where
  accounts : ∀ p, ∃ L, (m.process p).Shows L ∧ Accounted m.log p L
  consumed : (m.log.map Answer.token).Nodup
  confined : ∀ x ∈ m.log, x.Confined

theorem Moment.Step.kept {m m' : Moment} (h : m.Kept) (hstep : m.Step fuel m') : m'.Kept := by
  obtain ⟨p, o, hwithin, hdraws⟩ := hstep
  obtain ⟨L, hshows, hacc⟩ := h.accounts p
  obtain ⟨L', hshows', hmoves⟩ :=
    Program.wp_of_meets _ (program_moves fuel hshows hwithin) hdraws
  rw [← Process.perform_self] at hshows'
  cases hanswer : m.process.answer fuel p o with
  | none =>
    refine ⟨fun q => ?_, h.consumed, h.confined⟩
    by_cases hq : q = p
    · subst hq
      exact ⟨L', hshows', hacc.moves hmoves⟩
    · change ∃ L, (m.process.perform fuel p o q).Shows L ∧ _
      rw [Process.perform_of_ne hq]
      exact h.accounts q
  | some x =>
    obtain ⟨result, failure, hx⟩ := Process.answer_cases hwithin hanswer
    refine ⟨fun q => ?_, ?_, fun y hy => ?_⟩
    · by_cases hq : q = p
      · subst hq
        exact ⟨L', hshows', hx.accounted hshows hshows' hacc hmoves⟩
      · change ∃ L, (m.process.perform fuel p o q).Shows L ∧ _
        rw [Process.perform_of_ne hq]
        obtain ⟨Lq, hshowsq, haccq⟩ := h.accounts q
        exact ⟨Lq, hshowsq, haccq.other (hx.tenant ▸ Ne.symm hq)⟩
    · refine List.nodup_cons.mpr ⟨fun hmem => ?_, h.consumed⟩
      -- a token that was answered is not out
      obtain ⟨y, hy, heq⟩ := List.mem_map.mp hmem
      have hspent := (hacc.spent y hy (by rw [heq, hx.tenant])).2 _ (hshows.tokens ▸ hx.out)
      exact hspent (by rw [heq])
    · rcases List.mem_cons.mp hy with rfl | hy
      · exact hx.confined
      · exact h.confined y hy

def busyShard : World :=
  (system 1).turns [.whole startRun,
    .whole (.respondWorkflow 0 [.scheduleActivity 0 "A" (.ofJson "null" .null) "" 0 0 none])]
      emptyShard

end DurableTasks
