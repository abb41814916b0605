import DurableTasks.Standalone.Starts

/-!
What the operations on standalone activities come down to: an activity is
created, or its row is written again and one event appended. Each operation is
a sequence of such moves.
-/

namespace DurableTasks

open Effects Standalone

def ActivityEventAttrs.closes : ActivityEventAttrs → Option ActivityState
  | .completed _ _ => some .completed
  | .failed _ _ => some .failed
  | .canceled _ _ => some .canceled
  | _ => none

def ActivityEventAttrs.Routine : ActivityEventAttrs → Prop
  | .scheduled _ _ _ _ => False
  | .heartbeat _ => False
  | _ => True

/-- An activity is created under a run id that is not stored. -/
def FreshStart (s : ActivityStore) (r : RunRef) : ActivityEventAttrs → Prop
  | .scheduled _ _ _ _ => s.get (.act r) = none
  | _ => True

theorem freshStart_routine (s : ActivityStore) (r : RunRef) (attrs : ActivityEventAttrs)
    (h : attrs.Routine) : FreshStart s r attrs := by
  cases attrs <;> trivial

namespace Standalone

inductive Tending (a : StandaloneActivity) : ActivityEventAttrs → StandaloneActivity → Prop
  | claim {identity : String} {t exp : Nat} (h : a.status = .scheduled) :
      Tending a (.started identity a.attempt exp)
        { a with
          status := .started, identity := identity, lastHeartbeatTime := some t
          leaseExpiry := some exp }
  /-- A lease that is held is renewed, and none is given. -/
  | heartbeat {details : Json} {t : Nat} {lease : Option Nat} (h : a.status.isTerminal = false)
      (hlease : lease.isSome = a.leaseExpiry.isSome) :
      Tending a (.heartbeat details)
        { a with
          lastHeartbeatTime := some t
          status := if a.status = .scheduled then .started else a.status
          leaseExpiry := lease }
  | reap (h : a.status = .started)
      (hleft : ¬(0 < a.maximumAttempts ∧ a.maximumAttempts ≤ a.attempt)) :
      Tending a (.timedOut "lease expired" (a.attempt + 1)) (reapedRow a)
  | close {status : ActivityState} {attrs : ActivityEventAttrs} {t : Nat} {result : Json}
      {cause : String} (h : a.status.isTerminal = false) (hattrs : attrs.closes = some status) :
      Tending a attrs
        { a with status := status, closeTime := some t, result := result, failureCause := cause }

namespace Tending

variable {a a' : StandaloneActivity} {attrs : ActivityEventAttrs}

theorem historyLength (h : Tending a attrs a') : a'.historyLength = a.historyLength := by
  cases h <;> rfl

theorem maximumAttempts (h : Tending a attrs a') : a'.maximumAttempts = a.maximumAttempts := by
  cases h <;> rfl

theorem status_open (h : Tending a attrs a') : a.status.isTerminal = false := by
  cases h with
  | claim h => rw [h]; rfl
  | heartbeat h hlease => exact h
  | reap h hleft => rw [h]; rfl
  | close h hattrs => exact h

end Tending

/-- One move, where `C` says which events may be appended. -/
inductive ActivityMove (C : ActivityStore → RunRef → ActivityEventAttrs → Prop)
    (s : ActivityStore) :
    ActivityStore → Prop
  | tend {r : RunRef} {a a' : StandaloneActivity} {t : Nat} {attrs : ActivityEventAttrs}
      (ha : s.get (.act r) = some a) (h : Tending a attrs a') (hC : C s r attrs) :
      ActivityMove C s ((s.put (.act r) a').appended r a' t attrs)
  | create {q : StartActivityRequest} {run : String} {t t' : Nat}
      (hC : C s ⟨q.ns, q.activityID, run⟩ q.event) :
      ActivityMove C s ((s.entered q run t).appended ⟨q.ns, q.activityID, run⟩ (q.row t) t' q.event)

abbrev ActivityMoves (C : ActivityStore → RunRef → ActivityEventAttrs → Prop) :
    ActivityStore → ActivityStore → Prop :=
  Relation.ReflTransGen (ActivityMove C)

inductive Touch (C : ActivityStore → RunRef → ActivityEventAttrs → Prop) (r : RunRef)
  (s : ActivityStore) : ActivityStore → Prop
  | none : Touch C r s s
  | one {a a' : StandaloneActivity} {t : Nat} {attrs : ActivityEventAttrs}
      (ha : s.get (.act r) = some a) (h : Tending a attrs a') (hC : C s r attrs) :
      Touch C r s ((s.put (.act r) a').appended r a' t attrs)

namespace Touch

variable {C : ActivityStore → RunRef → ActivityEventAttrs → Prop} {r : RunRef}
  {s s' : ActivityStore}

theorem moves (h : Touch C r s s') : ActivityMoves C s s' := by
  cases h with
  | none => exact .refl
  | one ha h hC => exact .single (.tend ha h hC)

theorem row (h : Touch C r s s') {c : RunRef} (hc : c ≠ r) :
    s'.get (.act c) = s.get (.act c) := by
  cases h with
  | none => rfl
  | one ha h hC => exact (ActivityStore.same_put hc).row

end Touch

section Functions

variable {C : ActivityStore → RunRef → ActivityEventAttrs → Prop} {r : RunRef} {s : Shard}
  {a a' : StandaloneActivity} {attrs : ActivityEventAttrs}

theorem spec_tend {Q : Post ActivityEvent Shard}
    (hQ : ∀ s', s'.acts = (s.acts.put (.act r) a').appended r a' (rfc3339 s.time) attrs →
      ∀ ev, Q (.ok ev) s') :
    Act.spec (appendActivityHistory r attrs) Q (s.put (.act r) a') := by
  rw [spec_appendActivityHistory (ActivityStore.get_put_self s.acts (.act r) a')]
  exact hQ _ rfl _

theorem activityTerminal_touch {status : ActivityState} {result : Option Json} {cause : String}
    (hattrs : attrs.closes = some status) (hC : C s.acts r attrs) :
    Act.spec (activityTerminal r status attrs result cause)
      (fun _ s' => Touch C r s.acts s'.acts) s := by
  rw [activityTerminal, Act.spec_bind, Act.spec_attempt, Act.spec_describeActivity]
  cases ha : s.acts.get (.act r) with
  | none => exact .none
  | some a =>
    cases hterm : a.status.isTerminal with
    | true =>
      simp only [hterm, if_true]
      exact .none
    | false =>
      simp only [hterm, Bool.false_eq_true, if_false, Act.spec_bind, Act.spec_nowRFC3339,
        Act.spec_put]
      refine spec_tend (s := s.tick) fun s' hs' _ => ?_
      show Touch C r s.acts s'.acts
      rw [hs']
      exact .one ha (.close hterm hattrs) hC

theorem heartbeatActivity_touch {details : Json} (hC : C s.acts r (.heartbeat details)) :
    Act.spec (heartbeatActivity r details) (fun _ s' => Touch C r s.acts s'.acts) s := by
  rw [heartbeatActivity, Act.spec_bind, Act.spec_attempt, Act.spec_describeActivity]
  cases ha : s.acts.get (.act r) with
  | none => exact .none
  | some a =>
    cases hterm : a.status.isTerminal with
    | true =>
      simp only [hterm, if_true]
      exact .none
    | false =>
      simp only [hterm, Bool.false_eq_true, if_false, Act.spec_bind, Act.spec_nowRFC3339]
      cases hlease : a.leaseExpiry with
      | none =>
        simp only [heartbeatActivity.renewedLease, hlease, Act.spec_pure, Act.spec_put]
        refine spec_tend (s := s.tick) fun s' hs' _ => ?_
        show Touch C r s.acts s'.acts
        rw [hs']
        exact .one ha (.heartbeat hterm (by rw [hlease])) hC
      | some exp =>
        simp only [heartbeatActivity.renewedLease, hlease, Act.spec_bind, Act.spec_now,
          Act.spec_pure, Act.spec_put]
        refine spec_tend (s := s.tick.tick) fun s' hs' _ => ?_
        show Touch C r s.acts s'.acts
        rw [hs']
        exact .one ha (.heartbeat hterm (by rw [hlease]; rfl)) hC

variable (hroutine : ∀ s r attrs, attrs.Routine → C s r attrs)
include hroutine

theorem reapOne_touch {t : Nat} (ha : s.acts.get (.act r) = some a) :
    Act.spec (reapOne t r a) (fun _ s' => Touch C r s.acts s'.acts) s := by
  rw [reapOne]
  split_ifs with hexp hmax
  · simp only [Act.spec_bind, Act.spec_attempt, Act.spec_pure]
    exact activityTerminal_touch rfl (hroutine _ _ _ trivial)
  · have hstarted : a.status = .started := by
      simp only [leaseExpired, Bool.and_eq_true, decide_eq_true_eq] at hexp
      exact hexp.1
    simp only [Act.spec_bind, Act.spec_put]
    refine spec_tend fun s' hs' _ => ?_
    show Touch C r s.acts s'.acts
    rw [hs']
    exact .one ha (.reap hstarted hmax) (hroutine _ _ _ trivial)
  · exact .none

/-- The loop of `reapExpiredLeases`: a row is still as it was listed when its
turn comes, as the turns before wrote other rows. -/
theorem reapAll_moves {t : Nat} {l : List (RunRef × StandaloneActivity)}
    (hnodup : (l.map Prod.fst).Nodup) (hrows : ∀ p ∈ l, s.acts.get (.act p.1) = some p.2) :
    Act.spec (l.forM fun p => reapOne t p.1 p.2)
      (fun _ s' => ActivityMoves C s.acts s'.acts) s := by
  induction l generalizing s with
  | nil => exact .refl
  | cons p l ih =>
    rw [List.map_cons, List.nodup_cons] at hnodup
    rw [Act.spec_forM_cons, Act.spec_bind]
    refine Act.spec_mono ?_ _ (reapOne_touch hroutine (hrows p (by simp)))
    rintro (e | u) s' htouch
    · exact htouch.moves
    · have hrest : ∀ q ∈ l, s'.acts.get (.act q.1) = some q.2 := by
        intro q hq
        have hne : q.1 ≠ p.1 := fun heq => hnodup.1 (heq ▸ List.mem_map_of_mem hq)
        rw [htouch.row hne]
        exact hrows q (by simp [hq])
      exact Act.spec_mono (fun _ _ h => htouch.moves.trans h) _ (ih hnodup.2 hrest)

theorem reapExpiredLeases_moves {ns : String} :
    Act.spec (reapExpiredLeases ns) (fun _ s' => ActivityMoves C s.acts s'.acts) s := by
  simp only [reapExpiredLeases, Act.spec_bind, Act.spec_listRows, Act.spec_now]
  exact reapAll_moves (s := s.tick) hroutine (s.acts.nodup_rows ns) fun p hp =>
    (ActivityStore.mem_rows.mp hp).2

theorem claimNextActivity_moves {ns taskQueue identity : String} {lease : Int} :
    Act.spec (claimNextActivity ns taskQueue identity lease)
      (fun _ s' => ActivityMoves C s.acts s'.acts) s := by
  simp only [claimNextActivity, Act.spec_bind, Act.spec_attempt, Act.spec_describeNamespace]
  cases s.world.store.get (.ns ns) with
  | none => exact .refl
  | some n =>
    simp only [Act.spec_withClaim, Act.spec_bind, Act.spec_listRows]
    refine Act.spec_mono ?_ _ (reapExpiredLeases_moves hroutine)
    rintro (e | u) s₁ h
    · exact h
    dsimp only
    cases hfind : (s₁.acts.rows ns).mergeSort claimOrder |>.find? fun p =>
        claimable taskQueue p.2 with
    | none => exact h
    | some p =>
      obtain ⟨r, a⟩ := p
      have hmem := List.mem_of_find?_eq_some hfind
      rw [List.mem_mergeSort] at hmem
      have ha := (ActivityStore.mem_rows.mp hmem).2
      have hscheduled : a.status = .scheduled := by
        have hclaimable := List.find?_some hfind
        simp only [claimable, Bool.and_eq_true, decide_eq_true_eq] at hclaimable
        exact hclaimable.1
      simp only [Act.spec_bind, Act.spec_now, Act.spec_put]
      refine spec_tend (s := s₁.tick) fun s' hs' _ => ?_
      simp only [Act.spec_attempt, Act.spec_describeActivity]
      have hmoves : ActivityMoves C s.acts s'.acts := by
        rw [hs']
        exact h.tail (.tend ha (.claim hscheduled) (hroutine _ _ _ trivial))
      exact hmoves

omit hroutine in
theorem startActivity_moves {q : StartActivityRequest}
    (hC : C s.acts ⟨q.ns, q.activityID, q.runID.getD s.world.nextId⟩ q.event) :
    Act.spec (startActivity q) (fun _ s' => ActivityMoves C s.acts s'.acts) s := by
  rw [spec_startActivity]
  split_ifs with hns htype hid
  · exact .refl
  · exact .refl
  · exact .refl
  cases s.acts.prior q with
  | some found => exact .refl
  | none =>
    cases hrun : q.runID with
    | some run =>
      rw [hrun] at hC
      exact .single (.create hC)
    | none =>
      rw [hrun] at hC
      exact .single (.create hC)

/-- What `C` has to say for an operation: that a start may create its activity
and a heartbeat be recorded. Nothing is purged. -/
def ActivityOperation.Permitted (C : ActivityStore → RunRef → ActivityEventAttrs → Prop)
    (s : Shard) : ActivityOperation → Prop
  | .start q => C s.acts ⟨q.ns, q.activityID, q.runID.getD s.world.nextId⟩ q.event
  | .heartbeat r details => C s.acts r (.heartbeat details)
  | .purge _ _ => False
  | _ => True

/-- Every operation but a purge is a sequence of moves. -/
theorem operation_moves (o : ActivityOperation) (ho : o.Permitted C s) :
    ActivityMoves C s.acts ((program o).run activityHandler s).2.acts := by
  have htouch : ∀ {α : Type} {r : RunRef} {x : Act α},
      Act.spec x (fun _ s' => Touch C r s.acts s'.acts) s →
        ActivityMoves C s.acts ((drop x).run activityHandler s).2.acts := fun hx =>
    (Act.run_of_spec hx).moves
  cases o with
  | start q => exact Act.run_of_spec (startActivity_moves ho)
  | claim ns taskQueue identity lease => exact Act.run_of_spec (claimNextActivity_moves hroutine)
  | reap ns => exact Act.run_of_spec (Act.spec_withClaim.mpr (reapExpiredLeases_moves hroutine))
  | heartbeat r details => exact htouch (heartbeatActivity_touch ho)
  | complete r result identity =>
    exact htouch (activityTerminal_touch rfl (hroutine _ _ _ trivial))
  | fail r cause identity => exact htouch (activityTerminal_touch rfl (hroutine _ _ _ trivial))
  | cancel r reason identity => exact htouch (activityTerminal_touch rfl (hroutine _ _ _ trivial))
  | purge r cutoff => exact ho.elim

end Functions

end Standalone

end DurableTasks
