import DurableTasks.Concurrency.LiveIndex
import DurableTasks.Concurrency.Replies

/-!
Dispatches beside live traffic: an activity passes from hand to hand, and only
who holds it may dispatch it. So no attempt is dispatched twice as long as
recovery keeps away from activities that this process has had to do with.
-/

namespace DurableTasks

open Effects Engine RecoveryWatch

variable {I : Type} [DecidableEq I] {a : WorkflowActivity}

/-- An activity has at most one permit: a token a worker has, an armed timer, or a
thread that handles it. -/
structure DispatchInv (recovery : I → Prop) (s : Shared I (RecoveryWatch I)) (know : I → View) :
    Prop where
  locks : ∀ i r, (know i).held = some r ↔ s.locks r = some i
  recs : ∀ i r, (know i).held = some r → ∀ seq o, (know i).acts seq = some o →
    s.world.store.get (.wfact r seq) = o
  role : ∀ i, (know i).recovering = true → recovery i
  idle : ∀ r seq, s.mon.permit r seq = .idle → ∀ n, (r, seq, n) ∉ s.world.dispatched
  record : ∀ r seq, s.mon.permit r seq ≠ .idle → ∃ a, s.world.store.get (.wfact r seq) = some a
  bound : ∀ r seq n a, (r, seq, n) ∈ s.world.dispatched →
    s.world.store.get (.wfact r seq) = some a → n ≤ a.attempt
  nodup : s.world.dispatched.Nodup
  tokens : ∀ p ∈ s.world.disp.actByToken, s.mon.permit p.2.ref p.2.seq = .out
  single : (s.world.disp.actByToken.map fun p => (p.2.ref, p.2.seq)).Nodup
  timers : ∀ r seq, (r, seq) ∈ s.world.timers → s.mon.permit r seq = .armed
  once : s.world.timers.Nodup
  armed : ∀ r seq a, s.mon.permit r seq = .armed → s.world.store.get (.wfact r seq) = some a →
    (r, seq, a.attempt) ∉ s.world.dispatched
  may : ∀ i r seq, (know i).may = some (r, seq) → s.mon.permit r seq = .held i ∧
    ∀ a, s.world.store.get (.wfact r seq) = some a → (r, seq, a.attempt) ∉ s.world.dispatched
  duty : ∀ i r seq, (know i).duty = some (r, seq) → s.mon.permit r seq = .held i
  ahead : ∀ i, (know i).recovering = true → ∀ r, (know i).held = some r →
    ∀ seq, seq ∉ (know i).handed → s.mon.permit r seq = .idle

namespace DispatchInv

variable {recovery : I → Prop} {s s' : Shared I (RecoveryWatch I)} {know : I → View} {i : I}
  {k : View} {r : RunRef} {seq : Int}

theorem frame (h : DispatchInv recovery s know)
    (hact : ∀ r seq, s'.world.store.get (.wfact r seq) = s.world.store.get (.wfact r seq))
    (hdisp : s'.world.dispatched = s.world.dispatched)
    (htok : s'.world.disp.actByToken = s.world.disp.actByToken)
    (htim : s'.world.timers = s.world.timers) (hlocks : s'.locks = s.locks)
    (hpermit : s'.mon.permit = s.mon.permit) (hheld : k.held = (know i).held)
    (hacts : ∀ r, k.held = some r → ∀ seq o, k.acts seq = some o →
      s.world.store.get (.wfact r seq) = o)
    (hduty : k.duty = (know i).duty) (hmay : k.may = (know i).may)
    (hrec : k.recovering = (know i).recovering) (hhanded : k.handed = (know i).handed) :
    DispatchInv recovery s' (Function.update know i k) := by
  have hheld' := update_view know i k View.held hheld
  have hduty' := update_view know i k View.duty hduty
  have hmay' := update_view know i k View.may hmay
  have hrec' := update_view know i k View.recovering hrec
  have hhanded' := update_view know i k View.handed hhanded
  constructor
  case recs => grind [h.recs]
  all_goals simp only [hheld', hduty', hmay', hrec', hhanded', hlocks, hact, hdisp, htok, htim,
    hpermit]
  exacts [h.locks, h.role, h.idle, h.record, h.bound, h.nodup, h.tokens, h.single, h.timers,
    h.once, h.armed, h.may, h.duty, h.ahead]

/-- The permit of an activity that this process has had to do with passes from
its holder on, and the holder may have dispatched it. -/
theorem transfer (h : DispatchInv recovery s know) (r : RunRef) (seq : Int) {next : Permit I}
    (hstore : s'.world.store = s.world.store) (hlocks : s'.locks = s.locks)
    (hpermit : s'.mon = s.mon.grant r seq next) (hnext : next ≠ .idle)
    (hfrom : s.mon.permit r seq ≠ .idle) (hnone : ∀ j, j ≠ i → s.mon.permit r seq ≠ .held j)
    (hview : k.held = (know i).held ∧ k.acts = (know i).acts ∧
      k.recovering = (know i).recovering ∧ k.handed = (know i).handed)
    (hduty : ∀ r' seq', k.duty = some (r', seq') → next = .held i ∧ r' = r ∧ seq' = seq ∨
      (know i).duty = some (r', seq') ∧ (r', seq') ≠ (r, seq))
    (hmay : ∀ r' seq', k.may = some (r', seq') → next = .held i ∧ r' = r ∧ seq' = seq ∧
        (∀ a, s.world.store.get (.wfact r seq) = some a →
          (r, seq, a.attempt) ∉ s'.world.dispatched) ∨
      (know i).may = some (r', seq') ∧ (r', seq') ≠ (r, seq))
    (hother : ∀ r' seq' n, (r', seq') ≠ (r, seq) →
      ((r', seq', n) ∈ s'.world.dispatched ↔ (r', seq', n) ∈ s.world.dispatched))
    (hbound : ∀ n a, (r, seq, n) ∈ s'.world.dispatched →
      s.world.store.get (.wfact r seq) = some a → n ≤ a.attempt)
    (hnodup : s'.world.dispatched.Nodup)
    (htokens : ∀ p ∈ s'.world.disp.actByToken, (p.2.ref, p.2.seq) = (r, seq) ∧ next = .out ∨
      p ∈ s.world.disp.actByToken ∧ (p.2.ref, p.2.seq) ≠ (r, seq))
    (hsingle : (s'.world.disp.actByToken.map fun p => (p.2.ref, p.2.seq)).Nodup)
    (htimers : ∀ r' seq', (r', seq') ∈ s'.world.timers → (r', seq') = (r, seq) ∧ next = .armed ∨
      (r', seq') ∈ s.world.timers ∧ (r', seq') ≠ (r, seq))
    (honce : s'.world.timers.Nodup)
    (harmed : next = .armed → ∀ a, s.world.store.get (.wfact r seq) = some a →
      (r, seq, a.attempt) ∉ s'.world.dispatched) :
    DispatchInv recovery s' (Function.update know i k) := by
  have hself : s'.mon.permit r seq = next := by simp [hpermit]
  have hrest : ∀ r' seq', (r', seq') ≠ (r, seq) → s'.mon.permit r' seq' = s.mon.permit r' seq' := by
    intro r' seq' hne
    rw [hpermit]
    exact permit_grant_of_ne _ _ hne
  obtain ⟨hheld, hacts, hrec, hhanded⟩ := hview
  have hheld' := update_view know i k View.held hheld
  have hacts' := update_view know i k View.acts hacts
  have hrec' := update_view know i k View.recovering hrec
  have hhanded' := update_view know i k View.handed hhanded
  have hsplit : ∀ r' seq', r' = r ∧ seq' = seq ∨ (r', seq') ≠ (r, seq) := by
    intro r' seq'
    rw [← Prod.mk.injEq]
    exact em _
  constructor
  case nodup => exact hnodup
  case single => exact hsingle
  case once => exact honce
  case tokens =>
    intro p hp
    rcases htokens p hp with ⟨heq, rfl⟩ | ⟨hp, hne⟩
    · obtain ⟨hr, hs⟩ := Prod.mk.inj heq
      rw [hr, hs]
      exact hself
    · rw [hrest _ _ hne]
      exact h.tokens p hp
  case timers => grind [h.timers]
  case may => grind [h.may]
  case duty => grind [h.duty]
  case idle =>
    intro r' seq' hidle n
    obtain ⟨rfl, rfl⟩ | hne := hsplit r' seq'
    · exact absurd (hself.symm.trans hidle) hnext
    · rw [hother r' seq' n hne]
      exact h.idle r' seq' (hrest r' seq' hne ▸ hidle) n
  all_goals simp only [hheld', hacts', hrec', hhanded', hlocks, hstore]
  case locks => exact h.locks
  case recs => exact h.recs
  case role => exact h.role
  case record =>
    intro r' seq'
    obtain ⟨rfl, rfl⟩ | hne := hsplit r' seq'
    · exact fun _ => h.record r' seq' hfrom
    · rw [hrest r' seq' hne]
      exact h.record r' seq'
  case bound =>
    intro r' seq' n a
    obtain ⟨rfl, rfl⟩ | hne := hsplit r' seq'
    · exact hbound n a
    · rw [hother r' seq' n hne]
      exact h.bound r' seq' n a
  case armed =>
    intro r' seq' a
    obtain ⟨rfl, rfl⟩ | hne := hsplit r' seq'
    · exact fun harm => harmed (hself.symm.trans harm) a
    · rw [hother r' seq' _ hne, hrest r' seq' hne]
      exact h.armed r' seq' a
  case ahead => grind [h.ahead]

omit [DecidableEq I] in
theorem exclusive (h : DispatchInv recovery s know) {j : I} (hi : (know i).held = some r)
    (hj : (know j).held = some r) : j = i :=
  Option.some.inj (((h.locks j r).mp hj).symm.trans ((h.locks i r).mp hi))

omit [DecidableEq I] in
/-- A record that takes no attempt back has one that was not dispatched if the
one before has. -/
theorem attempt_new (h : DispatchInv recovery s know)
    (hattempt : ∀ old, s.world.store.get (.wfact r seq) = some old → old.attempt ≤ a.attempt)
    (hnot : ∀ old, s.world.store.get (.wfact r seq) = some old → old.attempt = a.attempt →
      (r, seq, old.attempt) ∉ s.world.dispatched) :
    (r, seq, a.attempt) ∉ s.world.dispatched := by
  intro hmem
  cases hold : s.world.store.get (.wfact r seq) with
  | none =>
    -- an activity without a record is nobody's, so it was never dispatched
    refine h.idle r seq ?_ _ hmem
    by_contra hne
    obtain ⟨a', ha'⟩ := h.record r seq hne
    rw [hold] at ha'
    cases ha'
  | some old =>
    have hle := h.bound r seq _ old hmem hold
    have heq : old.attempt = a.attempt := le_antisymm (hattempt old hold) hle
    exact hnot old hold heq (heq ▸ hmem)

theorem put_record (h : DispatchInv recovery s know) {o : Option WorkflowActivity}
    (hstore : s'.world = s.world.write (.put (.wfact r seq) a)) (hlocks : s'.locks = s.locks)
    (hmon : s'.mon = if s.mon.permit r seq = .idle then s.mon.grant r seq (.held i) else s.mon)
    (hheld : (know i).held = some r) (hread : (know i).acts seq = some o)
    (hattempt : ∀ old, o = some old → old.attempt ≤ a.attempt)
    (honce : (know i).recovering = true → seq ∉ (know i).handed) :
    DispatchInv recovery s'
      (Function.update know i ((know i).wrote (.put (.wfact r seq) a))) := by
  have hread' : s.world.store.get (.wfact r seq) = o := h.recs i r hheld seq o hread
  have hself : s'.world.store.get (.wfact r seq) = some a := by
    rw [hstore]
    exact Store.get_put_self _ (.wfact r seq) a
  have hother : ∀ r' seq', (r', seq') ≠ (r, seq) →
      s'.world.store.get (.wfact r' seq') = s.world.store.get (.wfact r' seq') := by
    intro r' seq' hne
    rw [hstore]
    refine handler_write_get (x := .put (.wfact r seq) a) (fun heq => hne ?_) _
    obtain ⟨rfl, rfl⟩ := Key.wfact.inj (Option.some.inj heq)
    rfl
  have hdisp : s'.world.dispatched = s.world.dispatched := by rw [hstore]; rfl
  have hdispatcher : s'.world.disp = s.world.disp := by rw [hstore]; rfl
  have htimers : s'.world.timers = s.world.timers := by rw [hstore]; rfl
  -- a permit is only given where there was none
  have hpermit : ∀ r' seq', s.mon.permit r' seq' ≠ .idle →
      s'.mon.permit r' seq' = s.mon.permit r' seq' := by
    intro r' seq' hne
    rw [hmon]
    split_ifs with hidle
    · refine permit_grant_of_ne _ _ fun heq => hne ?_
      obtain ⟨rfl, rfl⟩ := Prod.mk.inj heq
      exact hidle
    · rfl
  have hrest : ∀ r' seq', (r', seq') ≠ (r, seq) →
      s'.mon.permit r' seq' = s.mon.permit r' seq' := by
    intro r' seq' hne
    rw [hmon]
    split_ifs
    · exact permit_grant_of_ne _ _ hne
    · rfl
  have hmine : s.mon.permit r seq = .idle → s'.mon.permit r seq = .held i := by
    intro hidle
    simp [hmon, hidle]
  have hback : ∀ r' seq' (q : Permit I), s'.mon.permit r' seq' = q → (∀ j, q ≠ .held j) →
      s.mon.permit r' seq' = q := by
    intro r' seq' q hq hne
    by_cases heq : (r', seq') = (r, seq)
    · grind
    · exact (hrest r' seq' heq).symm.trans hq
  have hnone : o = none → s.mon.permit r seq = .idle := by
    intro ho
    by_contra hne
    obtain ⟨a', ha'⟩ := h.record r seq hne
    rw [hread', ho] at ha'
    cases ha'
  -- who could dispatch the record that was there can dispatch this one
  have hpass : ∀ r' seq', (∀ a, s.world.store.get (.wfact r' seq') = some a →
      (r', seq', a.attempt) ∉ s.world.dispatched) →
      ∀ a, s'.world.store.get (.wfact r' seq') = some a →
        (r', seq', a.attempt) ∉ s'.world.dispatched := by
    intro r' seq' hnot a' ha'
    rw [hdisp]
    by_cases heq : (r', seq') = (r, seq)
    · grind [h.attempt_new]
    · exact hnot a' ((hother r' seq' heq).symm.trans ha')
  constructor
  case locks =>
    intro j r
    rw [hlocks, update_view know i _ View.held (by rfl)]
    exact h.locks j r
  case recs =>
    refine Function.forall_update_iff know (fun _ k' => ∀ r, k'.held = some r →
      ∀ seq o, k'.acts seq = some o → s'.world.store.get (.wfact r seq) = o) |>.mpr ⟨?_, ?_⟩
    · intro r' hr' seq' o' ho'
      obtain rfl := Option.some.inj (hheld.symm.trans hr')
      by_cases hseq : seq' = seq
      · subst hseq
        simp only [View.wrote, Function.update_self, Option.some.injEq] at ho'
        rw [hself, ho']
      · simp only [View.wrote, Function.update_of_ne hseq] at ho'
        rw [hother r seq' (by simpa using hseq)]
        exact h.recs i r hheld seq' o' ho'
    · grind [h.exclusive, h.recs]
  case role =>
    intro j
    rw [update_view know i _ View.recovering (by rfl)]
    exact h.role j
  case idle =>
    intro r' seq' hidle
    rw [hdisp]
    exact h.idle r' seq' (hback r' seq' _ hidle (by simp))
  case record =>
    intro r' seq' hne
    by_cases heq : (r', seq') = (r, seq)
    · obtain ⟨rfl, rfl⟩ := Prod.mk.inj heq
      exact ⟨a, hself⟩
    · rw [hother r' seq' heq]
      exact h.record r' seq' (hrest r' seq' heq ▸ hne)
  case bound =>
    intro r' seq' n a' hn ha'
    rw [hdisp] at hn
    by_cases heq : (r', seq') = (r, seq)
    · obtain ⟨rfl, rfl⟩ := Prod.mk.inj heq
      obtain rfl := Option.some.inj (hself.symm.trans ha')
      cases ho : o with
      | none => exact absurd hn (h.idle r' seq' (hnone ho) n)
      | some old => exact (h.bound r' seq' n old hn (hread'.trans ho)).trans (hattempt old ho)
    · exact h.bound r' seq' n a' hn ((hother r' seq' heq).symm.trans ha')
  case nodup => exact hdisp ▸ h.nodup
  case tokens =>
    intro p hp
    rw [hdispatcher] at hp
    rw [hpermit _ _ (by rw [h.tokens p hp]; simp)]
    exact h.tokens p hp
  case single => exact hdispatcher ▸ h.single
  case timers =>
    intro r' seq' hp
    rw [htimers] at hp
    rw [hpermit _ _ (by rw [h.timers r' seq' hp]; simp)]
    exact h.timers r' seq' hp
  case once => exact htimers ▸ h.once
  case armed =>
    intro r' seq' a' harm ha'
    exact hpass r' seq' (fun a ha => h.armed r' seq' a (hback r' seq' _ harm (by simp)) ha) a' ha'
  case may =>
    have hold : ∀ j r' seq', (know j).may = some (r', seq') → s'.mon.permit r' seq' = .held j ∧
        ∀ a, s'.world.store.get (.wfact r' seq') = some a →
          (r', seq', a.attempt) ∉ s'.world.dispatched := by
      intro j r' seq' hj
      obtain ⟨hp, hnot⟩ := h.may j r' seq' hj
      exact ⟨(hpermit r' seq' (by simp [hp])).trans hp, hpass r' seq' hnot⟩
    intro j r' seq' hj
    rcases update_cases (fun k : View => k.may = some (r', seq')) hj with ⟨rfl, hj⟩ | ⟨-, hj⟩
    swap
    · exact hold j r' seq' hj
    simp only [View.wrote] at hj
    split_ifs at hj with hent
    · obtain ⟨rfl, rfl⟩ := Prod.mk.inj (Option.some.inj hj)
      refine (?_ : s.mon.permit r seq = .idle ∨ s.mon.permit r seq = .held j ∧
        ∀ old, s.world.store.get (.wfact r seq) = some old → old.attempt < a.attempt).elim
        (fun hidle => ⟨hmine hidle, hpass r seq fun old _ => h.idle r seq hidle _⟩)
        fun hp => ⟨(hpermit r seq (by simp [hp.1])).trans hp.1, fun a' ha' => ?_⟩
      · cases o with
        | none => exact .inl (hnone rfl)
        | some old =>
          simp only [View.entitles, hread, Bool.or_eq_true, Bool.and_eq_true,
            decide_eq_true_eq] at hent
          rcases hent with hrec | ⟨hduty, hlt⟩
          · exact .inl (h.ahead j hrec r hheld seq (honce hrec))
          · grind [h.duty]
      · grind [h.attempt_new]
    · exact hold j r' seq' hj
  case duty =>
    intro j r' seq' hj
    rw [update_view know i _ View.duty (by rfl)] at hj
    have hp := h.duty j r' seq' hj
    exact (hpermit r' seq' (by simp [hp])).trans hp
  case ahead =>
    refine Function.forall_update_iff know (fun _ k' => k'.recovering = true → ∀ r,
      k'.held = some r → ∀ seq, seq ∉ k'.handed → s'.mon.permit r seq = .idle) |>.mpr ⟨?_, ?_⟩
    · intro hrec r' hr' seq' hseq'
      simp only [View.wrote, List.mem_cons, not_or] at hseq'
      rw [hrest r' seq' (by simp [hseq'.1])]
      exact h.ahead i hrec r' hr' seq' hseq'.2
    · grind [h.exclusive, h.ahead]

theorem relock (h : DispatchInv recovery s know) (hworld : s'.world = s.world)
    (hmon : s'.mon = s.mon)
    (hlocks : ∀ j r', (Function.update know i k j).held = some r' ↔ s'.locks r' = some j)
    (hacts : k.acts = fun _ => none) (hduty : k.duty = (know i).duty)
    (hmay : k.may = (know i).may) (hrec : k.recovering = (know i).recovering)
    (hahead : k.recovering = true → ∀ r, k.held = some r → ∀ seq, s.mon.permit r seq = .idle) :
    DispatchInv recovery s' (Function.update know i k) := by
  constructor
  case locks => exact hlocks
  case recs => grind [h.recs]
  case role => grind [h.role]
  case may => grind [h.may]
  case duty => grind [h.duty]
  case ahead => grind [h.ahead]
  all_goals rw [hworld]
  case nodup => exact h.nodup
  case single => exact h.single
  case once => exact h.once
  case bound => exact h.bound
  all_goals rw [hmon]
  case idle => exact h.idle
  case record => exact h.record
  case tokens => exact h.tokens
  case timers => exact h.timers
  case armed => exact h.armed

theorem lock (h : DispatchInv recovery s know) (hworld : s'.world = s.world)
    (hlocks : s'.locks = Function.update s.locks r (some i)) (hmon : s'.mon = s.mon)
    (hfree : s.locks r = none) (hheld : (know i).held = none)
    (hidle : recovery i → ∀ seq, s.mon.permit r seq = .idle) :
    DispatchInv recovery s' (Function.update know i
      { know i with held := some r, acts := fun _ => none, handed := [] }) := by
  refine h.relock hworld hmon ?_ rfl rfl rfl rfl fun hrec r' hr' seq => ?_
  · rw [hlocks]
    refine Function.forall_update_iff know (fun j k' => ∀ r', k'.held = some r' ↔
      Function.update s.locks r (some i) r' = some j) |>.mpr ⟨fun r' => ?_, fun j hj r' => ?_⟩
    · grind [h.locks]
    · grind [h.locks]
  · obtain rfl := Option.some.inj hr'
    exact hidle (h.role i hrec) seq

theorem unlock (h : DispatchInv recovery s know) (hworld : s'.world = s.world)
    (hlocks : s'.locks = Function.update s.locks r none) (hmon : s'.mon = s.mon)
    (hheld : (know i).held = some r) :
    DispatchInv recovery s' (Function.update know i
      { know i with held := none, acts := fun _ => none }) := by
  refine h.relock hworld hmon ?_ rfl rfl rfl rfl fun _ r' hr' => ?_
  · rw [hlocks]
    refine Function.forall_update_iff know (fun j k' => ∀ r', k'.held = some r' ↔
      Function.update s.locks r none r' = some j) |>.mpr ⟨fun r' => ?_, fun j hj r' => ?_⟩
    · by_cases hne : r' = r
      · subst hne
        simp
      · have hnot : s.locks r' ≠ some i := fun hi => by
          rw [(h.locks i r').mpr hi] at hheld
          exact hne (Option.some.inj hheld)
        simp [hne, hnot]
    · grind [h.exclusive, h.locks]
  · cases hr'

omit [DecidableEq I] in
theorem token_ne (h : DispatchInv recovery s know) {p : Nat × ActivityTask}
    (hp : p ∈ s.world.disp.actByToken) (hnot : s.mon.permit r seq ≠ .out) :
    (p.2.ref, p.2.seq) ≠ (r, seq) := by
  rintro heq
  obtain ⟨rfl, rfl⟩ := Prod.mk.inj heq
  exact hnot (h.tokens p hp)

omit [DecidableEq I] in
theorem timer_ne (h : DispatchInv recovery s know) {p : RunRef × Int} (hp : p ∈ s.world.timers)
    (hnot : s.mon.permit r seq ≠ .armed) : p ≠ (r, seq) := by
  rintro rfl
  exact hnot (h.timers r seq hp)

theorem dispatch (h : DispatchInv recovery s know) {t : ActivityTask}
    (hheld : (know i).held = some t.ref) (hmay : (know i).may = some (t.ref, t.seq))
    (hread : (know i).acts t.seq = some (some a)) :
    DispatchInv recovery (s.after observe i (.dispatchActivity t a.attempt))
      (Function.update know i { know i with may := none, duty := none }) := by
  obtain ⟨hpermit, hnot⟩ := h.may i t.ref t.seq hmay
  have ha : s.world.store.get (.wfact t.ref t.seq) = some a := h.recs i t.ref hheld t.seq _ hread
  have hnotok : ∀ p ∈ s.world.disp.actByToken, (p.2.ref, p.2.seq) ≠ (t.ref, t.seq) :=
    fun p hp => h.token_ne hp (by simp [hpermit])
  refine h.transfer t.ref t.seq rfl rfl rfl (by simp) (by simp [hpermit])
    (fun j hj => by simp [hpermit, Ne.symm hj]) ⟨rfl, rfl, rfl, rfl⟩ (by simp) (by simp)
    (fun r' seq' n hne => ?_) (fun n a' hn ha' => ?_) (List.nodup_cons.mpr ⟨hnot a ha, h.nodup⟩)
    (fun p hp => ?_) (List.nodup_cons.mpr ⟨by simpa using hnotok, h.single⟩)
    (fun r' seq' hp => .inr ⟨hp, h.timer_ne hp (by simp [hpermit])⟩) h.once (by simp)
  · refine List.mem_cons.trans (or_iff_right fun heq => hne ?_)
    obtain ⟨rfl, rfl, -⟩ := heq
    rfl
  · obtain rfl := Option.some.inj (ha.symm.trans ha')
    rcases List.mem_cons.mp hn with heq | hn
    · obtain ⟨-, -, rfl⟩ := heq
      exact le_rfl
    · exact h.bound _ _ n a hn ha
  · rcases List.mem_cons.mp hp with rfl | hp
    · exact .inl ⟨rfl, rfl⟩
    · exact .inr ⟨hp, hnotok p hp⟩

theorem resolve (h : DispatchInv recovery s know) {token : Nat} {t : ActivityTask}
    (ht : (s.world.disp.resolveActivityToken token).1 = some t) :
    DispatchInv recovery (s.after observe i (.resolveActivityToken token))
      (Function.update know i { know i with duty := some (t.ref, t.seq) }) := by
  obtain ⟨p, hfind, rfl⟩ := Option.map_eq_some_iff.mp ht
  have hp := List.mem_of_find?_eq_some hfind
  have htoken : p.1 = token := by simpa using List.find?_some hfind
  have hout := h.tokens p hp
  have hmon : (s.after observe i (.resolveActivityToken token)).mon =
      s.mon.grant p.2.ref p.2.seq (.held i) := by
    simp only [Shared.after, observe, ht]
  refine h.transfer p.2.ref p.2.seq rfl rfl hmon (by simp) (by simp [hout])
    (fun j _ => by simp [hout]) ⟨rfl, rfl, rfl, rfl⟩ (fun r' seq' heq => ?_)
    (fun r' seq' hm => .inr ⟨hm, fun heq => ?_⟩) (fun _ _ _ _ => Iff.rfl) (h.bound _ _) h.nodup
    (fun q hq => .inr ?_) (h.single.sublist (List.filter_sublist.map _))
    (fun r' seq' hq => .inr ⟨hq, h.timer_ne hq (by simp [hout])⟩) h.once (by simp)
  · obtain ⟨rfl, rfl⟩ := Prod.mk.inj (Option.some.inj heq)
    exact .inl ⟨rfl, rfl, rfl⟩
  · obtain ⟨rfl, rfl⟩ := Prod.mk.inj heq
    have hmine := (h.may i _ _ hm).1
    rw [hout] at hmine
    cases hmine
  · obtain ⟨hq, hne⟩ := List.mem_filter.mp hq
    refine ⟨hq, fun heq => ?_⟩
    obtain rfl := List.inj_on_of_nodup_map h.single hq hp heq
    simp [htoken] at hne

theorem arm (h : DispatchInv recovery s know) (hmay : (know i).may = some (r, seq)) :
    DispatchInv recovery (s.after observe i (.afterFunc r seq))
      (Function.update know i { know i with may := none, duty := none }) := by
  obtain ⟨hpermit, hnot⟩ := h.may i r seq hmay
  have hnew : (r, seq) ∉ s.world.timers := fun hp => h.timer_ne hp (by simp [hpermit]) rfl
  refine h.transfer r seq rfl rfl rfl (by simp) (by simp [hpermit])
    (fun j hj => by simp [hpermit, Ne.symm hj]) ⟨rfl, rfl, rfl, rfl⟩ (by simp) (by simp)
    (fun _ _ _ _ => Iff.rfl) (h.bound r seq) h.nodup
    (fun p hp => .inr ⟨hp, h.token_ne hp (by simp [hpermit])⟩) h.single (fun r' seq' hp => ?_)
    (List.nodup_cons.mpr ⟨hnew, h.once⟩) fun _ => hnot
  rcases List.mem_cons.mp hp with heq | hp
  · exact .inl ⟨heq, rfl⟩
  · exact .inr ⟨hp, ne_of_mem_of_not_mem hp hnew⟩

theorem fire (h : DispatchInv recovery s know) (hin : (r, seq) ∈ s.world.timers) :
    DispatchInv recovery (s.after observe i (.fire r seq))
      (Function.update know i { know i with may := some (r, seq) }) := by
  have harm := h.timers r seq hin
  have hmon : (s.after observe i (.fire r seq)).mon = s.mon.grant r seq (.held i) := by
    simp only [Shared.after, observe]
    exact if_pos (List.contains_iff_mem.mpr hin)
  refine h.transfer r seq rfl rfl hmon (by simp) (by simp [harm])
    (fun j _ => by simp [harm]) ⟨rfl, rfl, rfl, rfl⟩ (fun r' seq' hd => .inr ⟨hd, fun heq => ?_⟩)
    (fun r' seq' hm => .inl ?_) (fun _ _ _ _ => Iff.rfl) (h.bound r seq) h.nodup
    (fun p hp => .inr ⟨hp, h.token_ne hp (by simp [harm])⟩) h.single (fun r' seq' hp => .inr ?_)
    (h.once.erase _) (by simp)
  · obtain ⟨rfl, rfl⟩ := Prod.mk.inj heq
    have hmine := h.duty i _ _ hd
    rw [harm] at hmine
    cases hmine
  · obtain ⟨rfl, rfl⟩ := Prod.mk.inj (Option.some.inj hm)
    exact ⟨rfl, rfl, rfl, fun a ha => h.armed r seq a harm ha⟩
  · obtain ⟨hne, hp⟩ := (h.once.mem_erase_iff).mp hp
    exact ⟨hp, hne⟩

/-- Every access that recovery is not troubled by keeps the permits. -/
theorem keep (h : DispatchInv recovery s know) {e : Effect} (hguard : (know i).guard True e)
    (hP : Untroubled recovery s i e) (hwait : s.waits e = false) :
    DispatchInv recovery (s.after observe i e)
      (Function.update know i ((know i).learn e (handler e s.world).1)) := by
  -- an access that has nothing to do with activities and locks
  have haside : e.offActs = true →
      (∀ r seq, (handler e s.world).2.store.get (.wfact r seq) =
        s.world.store.get (.wfact r seq)) →
      (handler e s.world).2.dispatched = s.world.dispatched →
      (handler e s.world).2.disp.actByToken = s.world.disp.actByToken →
      (handler e s.world).2.timers = s.world.timers →
      DurableTasks.relock i s.locks e = s.locks →
      (observe i e s.world s.mon).permit = s.mon.permit →
      DispatchInv recovery (s.after observe i e)
        (Function.update know i ((know i).learn e (handler e s.world).1)) := by
    intro he hact hdisp htok htim hlocks hpermit
    have hsame := (know i).learn_offActs he (handler e s.world).1
    refine h.frame hact hdisp htok htim hlocks hpermit hsame.held (fun r hr seq o ho => ?_)
      hsame.duty hsame.may hsame.recovering hsame.handed
    exact h.recs i r (hsame.held ▸ hr) seq o (hsame.acts ▸ ho)
  cases e with
  | get key =>
    cases key with
    | wfact r seq =>
      simp only [View.learn, View.readActivity, handler]
      split_ifs with hheld
      · refine h.frame (fun _ _ => rfl) rfl rfl rfl rfl rfl rfl (fun r' hr' seq' o ho => ?_)
          rfl rfl rfl rfl
        obtain rfl := Option.some.inj (hheld.symm.trans hr')
        by_cases hne : seq' = seq
        · subst hne
          simpa using ho
        · exact h.recs i r hheld seq' o (by simpa [hne] using ho)
      · exact h.frame (fun _ _ => rfl) rfl rfl rfl rfl rfl rfl (h.recs i) rfl rfl rfl rfl
    | _ => exact haside rfl (fun _ _ => rfl) rfl rfl rfl rfl rfl
  | list q =>
    cases q with
    | acts r =>
      simp only [View.learn, View.readActivities, handler]
      split_ifs with hheld
      · refine h.frame (fun _ _ => rfl) rfl rfl rfl rfl rfl rfl (fun r' hr' seq' o ho => ?_)
          rfl rfl rfl rfl
        obtain rfl := Option.some.inj (hheld.symm.trans hr')
        rw [← Store.lookup_acts]
        exact Option.some.inj ho
      · exact h.frame (fun _ _ => rfl) rfl rfl rfl rfl rfl rfl (h.recs i) rfl rfl rfl rfl
    | _ => exact haside rfl (fun _ _ => rfl) rfl rfl rfl rfl rfl
  | write x =>
    cases hguard with
    | activity hheld hread hattempt honce =>
      exact h.put_record rfl rfl rfl hheld hread hattempt honce
    | note => exact haside rfl (fun _ _ => rfl) rfl rfl rfl rfl rfl
    | _ => exact haside rfl (fun _ _ => handler_write_get (by simp) _) rfl rfl rfl
              rfl rfl
  | lock r =>
    refine h.lock rfl rfl rfl ?_ hguard hP
    simpa [Shared.waits] using hwait
  | unlock r => exact h.unlock rfl rfl rfl hguard
  | resolveActivityToken token =>
    cases ht : (s.world.disp.resolveActivityToken token).1 with
    | some t =>
      have hkeep := h.resolve (i := i) ht
      simpa only [View.learn, handler, ht] using hkeep
    | none =>
      have hmon : observe i (.resolveActivityToken token) s.world s.mon = s.mon := by
        simp only [observe, ht]
      have htok : (s.world.disp.resolveActivityToken token).2.actByToken =
          s.world.disp.actByToken := by
        simp only [Dispatcher.resolveActivityToken, Option.map_eq_none_iff,
          List.find?_eq_none] at ht
        exact List.filter_eq_self.mpr (by simpa using ht)
      simp only [View.learn, handler, ht]
      exact h.frame (fun _ _ => rfl) rfl htok rfl rfl (congrArg permit hmon) rfl (h.recs i)
        rfl rfl rfl rfl
  | fire r seq =>
    by_cases hin : (r, seq) ∈ s.world.timers
    · have hkeep := h.fire (i := i) hin
      simpa only [View.learn, handler, List.contains_iff_mem.mpr hin] using hkeep
    · have hfalse : s.world.timers.contains (r, seq) = false := by simpa using hin
      have hmon : observe i (.fire r seq) s.world s.mon = s.mon := by
        simp only [observe]
        exact if_neg (by simpa using hin)
      simp only [View.learn, handler, hfalse]
      exact h.frame (fun _ _ => rfl) rfl rfl (List.erase_of_not_mem hin) rfl
        (congrArg permit hmon) rfl (h.recs i) rfl rfl rfl rfl
  | dispatchActivity t n =>
    obtain ⟨hheld, hmay, a, hread, rfl⟩ := hguard
    exact h.dispatch hheld hmay hread
  | afterFunc r seq => exact h.arm hguard.2
  | _ => exact haside rfl (fun _ _ => rfl) rfl rfl rfl rfl rfl

end DispatchInv

def Recovers (ops : I → Operation) (i : I) : Prop := (ops i).view.recovering = true

def Store.closedRuns (s : Store) (r : RunRef) : Bool := (s.get (.wf r)).any fun row => !row.isOpen

def RecoveryWatch.boot (s : Store) (ops : I → Operation) : RecoveryWatch I where
  closed := s.closedRuns
  taken id := ∃ i, (ops i).givenRun = some id

omit [DecidableEq I] in
theorem EntryInv.init {w : World} {ops : I → Operation}
    (hgiven : ∀ i run, (ops i).givenRun = some run →
      (∀ ns wf, w.store.get (.wf ⟨ns, wf, run⟩) = none) ∧
        ∀ j, (ops j).givenRun = some run → i = j)
    (hindex : ∀ r row, w.store.get (.wf r) = some row → row.isOpen = true →
      w.store.get (.wfopen r) = some ()) :
    EntryInv ⟨w, fun _ => none, RecoveryWatch.boot w.store ops⟩ fun i => (ops i).view := by
  refine ⟨RunIds.init hgiven, fun r row hr ho => ?_, fun r hc => ?_, fun i r row hr => ?_,
    fun r row hr hc => hindex r row hr ?_, fun i r hr => ?_⟩
  · simp [RecoveryWatch.boot, Store.closedRuns, hr, ho]
  · cases hrow : w.store.get (.wf r) with
    | none => simp [RecoveryWatch.boot, Store.closedRuns, hrow] at hc
    | some row => exact ⟨row, rfl⟩
  · simp [Operation.view_row] at hr
  · simpa [RecoveryWatch.boot, Store.closedRuns, hr] using hc
  · cases hop : ops i <;> simp [hop, Operation.view] at hr

omit [DecidableEq I] in
theorem DispatchInv.init {w : World} {ops : I → Operation} {mon : RecoveryWatch I}
    (hdispatched : w.dispatched = []) (htokens : w.disp.actByToken = [])
    (htimers : w.timers = []) (hmon : mon.permits = []) :
    DispatchInv (Recovers ops) ⟨w, fun _ => none, mon⟩ fun i => (ops i).view := by
  have hview : ∀ i, (ops i).view.held = none ∧ (ops i).view.may = none ∧
      (ops i).view.duty = none := by
    intro i
    cases ops i <;> exact ⟨rfl, rfl, rfl⟩
  have hidle : ∀ r seq, mon.permit r seq = .idle := fun r seq => by simp [permit, hmon]
  constructor <;> simp_all [Recovers]

end DurableTasks
