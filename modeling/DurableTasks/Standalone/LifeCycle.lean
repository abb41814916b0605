import DurableTasks.Standalone.History
import Mathlib.Data.List.Induction

/-!
The life of a standalone activity. Its history is a word of a small automaton
whose state is the activity's status and attempt; what can be said of such
words is said of lists, and holds of every history by the moves.
-/

namespace DurableTasks

open Effects Standalone

variable {st : ActivityState} {a : StandaloneActivity} {s s' : ActivityStore} {r : RunRef}

/-! ## The automaton -/

inductive Life where
  | unborn
  | living (status : ActivityState) (attempt : Nat)
deriving DecidableEq

def ActivityEventAttrs.IsStarted : ActivityEventAttrs → Prop
  | .started _ _ _ => True
  | _ => False

instance : DecidablePred ActivityEventAttrs.IsStarted
  | .started _ _ _ => .isTrue trivial
  | .scheduled _ _ _ _ | .timedOut _ _ | .heartbeat _ | .completed _ _ | .failed _ _
  | .canceled _ _ => .isFalse id

def ActivityEventAttrs.isTimedOut : ActivityEventAttrs → Bool
  | .timedOut _ _ => true
  | _ => false

section Kinds

variable {e : ActivityEventAttrs}

theorem ActivityEventAttrs.IsStarted.only (h : e.IsStarted) :
    e.isTimedOut = false ∧ e.closes = none := by
  cases e <;> first | exact h.elim | exact ⟨rfl, rfl⟩

theorem ActivityEventAttrs.closes_only (h : e.closes = some st) :
    ¬e.IsStarted ∧ e.isTimedOut = false ∧ st.isTerminal = true := by
  cases e <;> cases h <;> exact ⟨id, rfl, rfl⟩

end Kinds

/-- Which event may come next, and where it leads. -/
def Life.next : Life → ActivityEventAttrs → Option Life
  | .unborn, .scheduled _ _ _ _ => some (.living .scheduled 1)
  | .living st n, .started _ k _ =>
    if st = .scheduled ∧ k = n then some (.living .started n) else none
  | .living st n, .timedOut _ k =>
    if st = .started ∧ k = n + 1 then some (.living .scheduled (n + 1)) else none
  | .living st n, .heartbeat _ => if st.isTerminal then none else some (.living .started n)
  | .living st n, .completed _ _ => if st.isTerminal then none else some (.living .completed n)
  | .living st n, .failed _ _ => if st.isTerminal then none else some (.living .failed n)
  | .living st n, .canceled _ _ => if st.isTerminal then none else some (.living .canceled n)
  | _, _ => none

def lifeOf (evs : List ActivityEventAttrs) : Option Life := evs.foldlM Life.next .unborn

/-- What the histories that lead to a status and an attempt have in common. -/
structure LifeWord (evs : List ActivityEventAttrs) (st : ActivityState) (n : Nat) : Prop where
  starts : ∃ e rest, evs = e :: rest ∧ e.IsScheduled
  attempt : n = 1 + evs.countP ActivityEventAttrs.isTimedOut
  /-- Every claim of an activity that is scheduled was timed out. -/
  rested : st = .scheduled → ∀ pre e post, evs = pre ++ e :: post → e.IsStarted →
    ∃ x ∈ post, x.isTimedOut = true
  spaced : ∀ pre e mid e' post, evs = pre ++ e :: (mid ++ e' :: post) → e.IsStarted →
    e'.IsStarted → ∃ x ∈ mid, x.isTimedOut = true
  last : ∀ pre e post st', evs = pre ++ e :: post → e.closes = some st' → post = [] ∧ st = st'
  closed : st.isTerminal = true → ∃ pre e, evs = pre ++ [e] ∧ e.closes = some st

namespace LifeWord

variable {evs : List ActivityEventAttrs} {st : ActivityState} {n : Nat} {e : ActivityEventAttrs}

theorem first (h : e.IsScheduled) : LifeWord [e] .scheduled 1 := by
  cases e with
  | scheduled type queue input identity =>
    have hsingle : ∀ {pre : List ActivityEventAttrs} {x : ActivityEventAttrs} {post},
        [ActivityEventAttrs.scheduled type queue input identity] = pre ++ x :: post →
        x = .scheduled type queue input identity := by
      intro pre x post h
      have hmem : x ∈ [ActivityEventAttrs.scheduled type queue input identity] := by
        rw [h]
        simp
      exact List.mem_singleton.mp hmem
    refine ⟨⟨_, [], rfl, trivial⟩, rfl, fun _ pre x post h hx => ?_,
      fun pre x mid x' post h hx => ?_, fun pre x post st' h hx => ?_,
      by simp [ActivityState.isTerminal]⟩
    · rw [hsingle h] at hx
      exact hx.elim
    · rw [hsingle h] at hx
      exact hx.elim
    · rw [hsingle h] at hx
      cases hx
  | _ => exact h.elim

end LifeWord

def ActivityStore.history (s : ActivityStore) (r : RunRef) : List ActivityEventAttrs :=
  (s.events r).map fun p => p.2.attrs

namespace ActivityStore

variable {s s' : ActivityStore} {r c : RunRef} {a : StandaloneActivity} {t : Nat}
  {attrs : ActivityEventAttrs}

theorem sorted_events (s : ActivityStore) (r : RunRef) : Listing.Sorted compare (s.events r) :=
  Std.TreeMap.ordered_keys_toList

/-- A list of an activity's events in the order of their ids is its listing. -/
theorem events_eq {l : List (Nat × ActivityEvent)} (hsorted : Listing.Sorted compare l)
    (hmem : ∀ id ev, (id, ev) ∈ l ↔ s.get (.ahist r id) = some ev) : s.events r = l := by
  refine (s.sorted_events r).eq_of_mem_iff hsorted ?_
  rintro ⟨id, ev⟩
  rw [mem_events, hmem]

theorem history_congr (h : ∀ id, s'.get (.ahist r id) = s.get (.ahist r id)) :
    s'.history r = s.history r := by
  have hevents : s'.events r = s.events r :=
    events_eq (s.sorted_events r) fun id ev => by rw [mem_events, h]
  rw [history, hevents, history]

end ActivityStore

/-! ## The invariant -/

theorem heartbeat_status (h : st.isTerminal = false) :
    (if st = .scheduled then .started else st) = ActivityState.started := by
  cases st <;> first | rfl | cases h

theorem Standalone.Tending.next {a' : StandaloneActivity} {attrs : ActivityEventAttrs}
    (h : Tending a attrs a') :
    (Life.living a.status a.attempt).next attrs = some (.living a'.status a'.attempt) := by
  cases h with
  | claim h => simp [Life.next, h]
  | heartbeat h hlease =>
    simp [Life.next, h, heartbeat_status h]
  | reap h hleft => simp [Life.next, h, reapedRow]
  | close h hattrs =>
    cases attrs <;> cases hattrs <;> simp [Life.next, h]

structure ActivityStore.Alive (s : ActivityStore) (r : RunRef) : Prop where
  counted : ∀ id ev, s.get (.ahist r id) = some ev →
    ∃ a, s.get (.act r) = some a ∧ id ≤ a.historyLength
  life : ∀ a, s.get (.act r) = some a →
    lifeOf (s.history r) = some (.living a.status a.attempt)
  limit : ∀ a, s.get (.act r) = some a → 0 < a.maximumAttempts →
    (a.attempt : Int) ≤ a.maximumAttempts

namespace ActivityStore

variable {s s' : ActivityStore} {r c : RunRef} {a a' : StandaloneActivity} {t : Nat}
  {attrs : ActivityEventAttrs}

theorem Alive.congr (h : s.Alive r) (hact : s'.get (.act r) = s.get (.act r))
    (hhist : ∀ id, s'.get (.ahist r id) = s.get (.ahist r id)) : s'.Alive r := by
  refine ⟨fun id ev hev => ?_, fun a ha => ?_, fun a ha => ?_⟩
  · rw [hact]
    exact h.counted id ev ((hhist id).symm.trans hev)
  · rw [history_congr hhist]
    exact h.life a (hact.symm.trans ha)
  · exact h.limit a (hact.symm.trans ha)

end ActivityStore

theorem Standalone.ActivityMove.same (h : ActivityMove FreshStart s s')
    (ha : s.get (.act r) = some a) (hterm : a.status.isTerminal = true) : s.SameActivity s' r := by
  cases h with
  | @tend c b b' t attrs hb h hC =>
    have hc : r ≠ c := by
      rintro rfl
      obtain rfl := Option.some.inj (ha.symm.trans hb)
      rw [h.status_open] at hterm
      cases hterm
    exact ActivityStore.same_put hc
  | @create q run t t' hC =>
    have hnone : s.get (.act ⟨q.ns, q.activityID, run⟩) = none := hC
    have hc : r ≠ ⟨q.ns, q.activityID, run⟩ := by
      rintro rfl
      rw [hnone] at ha
      cases ha
    exact ActivityStore.same_entered hc

theorem Standalone.ActivityMoves.same (h : ActivityMoves FreshStart s s')
    (ha : s.get (.act r) = some a) (hterm : a.status.isTerminal = true) : s.SameActivity s' r := by
  induction h with
  | refl => exact ⟨rfl, fun _ => rfl⟩
  | tail _ hmove ih =>
    have hsame := hmove.same (ih.row.trans ha) hterm
    exact ⟨hsame.row.trans ih.row, fun id => (hsame.event id).trans (ih.event id)⟩

/-! ## Whole runs -/

def Shard.Does (C : ActivityStore → RunRef → ActivityEventAttrs → Prop) (s s' : Shard) : Prop :=
  ∃ o : ActivityOperation, o.Permitted C s ∧ s' = ((program o).run activityHandler s).2

theorem Shard.moves_of_does {C : ActivityStore → RunRef → ActivityEventAttrs → Prop}
    (hroutine : ∀ s r attrs, attrs.Routine → C s r attrs) {s s' : Shard}
    (h : Relation.ReflTransGen (Shard.Does C) s s') : ActivityMoves C s.acts s'.acts := by
  induction h with
  | refl => exact .refl
  | tail _ hstep ih =>
    obtain ⟨o, ho, rfl⟩ := hstep
    exact ih.trans (operation_moves hroutine o ho)

def Shard.perform (s : Shard) (ops : List ActivityOperation) : Shard :=
  ops.foldl (fun s o => ((program o).run activityHandler s).2) s

def Shard.Permits (C : ActivityStore → RunRef → ActivityEventAttrs → Prop) (s : Shard) :
    List ActivityOperation → Prop
  | [] => True
  | o :: ops => o.Permitted C s ∧ Shard.Permits C ((program o).run activityHandler s).2 ops

theorem Shard.Permits.does {C : ActivityStore → RunRef → ActivityEventAttrs → Prop}
    {ops : List ActivityOperation} {s : Shard} (h : s.Permits C ops) :
    Relation.ReflTransGen (Shard.Does C) s (s.perform ops) := by
  induction ops generalizing s with
  | nil => exact .refl
  | cons o ops ih => exact .head ⟨o, h.1, rfl⟩ (ih h.2)

def slowShard : Shard := { oneRun with clock := fun n => n * (100 * second) }

def claimOne : ActivityOperation := .claim "n" "" "w" 0

def ActivityStore.Claimed (s : ActivityStore) (r : RunRef) : Prop :=
  ∃ id ev, s.get (.ahist r id) = some ev ∧ ev.attrs.IsStarted

/-- A worker can claim it, or it has a lease that a reap finds expired from some
time on. -/
def StandaloneActivity.Reclaimable (a : StandaloneActivity) : Prop :=
  a.status = .scheduled ∨ a.status = .started ∧ ∃ t₀, ∀ t, t₀ < t → leaseExpired t a = true

def ActivityStore.NoneStranded (s : ActivityStore) : Prop :=
  ∀ r a, s.get (.act r) = some a → s.Claimed r → a.status.isTerminal = false → a.Reclaimable

/-- No heartbeat comes for an activity that was claimed and is scheduled again. -/
def HeldHeartbeat (s : ActivityStore) (r : RunRef) : ActivityEventAttrs → Prop
  | .heartbeat _ => ∀ a, s.get (.act r) = some a → a.status = .scheduled → ¬s.Claimed r
  | _ => True

/-- A lease that is set is found expired once its second has passed. -/
theorem StandaloneActivity.reclaimable_of_lease (hst : a.status = .started)
    (hlease : a.leaseExpiry.isSome = true) : a.Reclaimable := by
  obtain ⟨exp, hexp⟩ := Option.isSome_iff_exists.mp hlease
  refine .inr ⟨hst, exp * second, fun t ht => ?_⟩
  simp [leaseExpired, hst, hexp, ht]

theorem StandaloneActivity.Reclaimable.lease (h : a.Reclaimable) (hst : a.status ≠ .scheduled) :
    a.leaseExpiry.isSome = true := by
  obtain h | ⟨-, t₀, ht₀⟩ := h
  · exact absurd h hst
  · have hexp := ht₀ (t₀ + 1) (by omega)
    cases hlease : a.leaseExpiry with
    | none => simp [leaseExpired, hlease] at hexp
    | some exp => rfl

theorem ActivityStore.claimed_appended {t : Nat} {attrs : ActivityEventAttrs}
    (h : (s.appended r a t attrs).Claimed r) : s.Claimed r ∨ attrs.IsStarted := by
  obtain ⟨id, ev, hev, hstarted⟩ := h
  rcases eq_or_ne id (a.historyLength + 1) with rfl | hid
  · rw [get_appended_event] at hev
    obtain rfl := Option.some.inj hev
    exact .inr hstarted
  · rw [get_appended_of_ne hid] at hev
    exact .inl ⟨id, ev, hev, hstarted⟩

theorem ActivityStore.Claimed.congr (h : s'.Claimed r)
    (hhist : ∀ id, s'.get (.ahist r id) = s.get (.ahist r id)) : s.Claimed r := by
  obtain ⟨id, ev, hev, hstarted⟩ := h
  exact ⟨id, ev, (hhist id).symm.trans hev, hstarted⟩

theorem Standalone.ActivityMove.noneStranded (h : ActivityMove HeldHeartbeat s s')
    (hs : s.NoneStranded) : s'.NoneStranded := by
  intro c b hb hclaimed hopen
  cases h with
  | @tend r a a' t attrs ha h hC =>
    rcases eq_or_ne c r with rfl | hc
    · rw [ActivityStore.get_appended_row] at hb
      obtain rfl := Option.some.inj hb
      have hbefore : attrs.IsStarted ∨ s.Claimed c := by
        rcases ActivityStore.claimed_appended hclaimed with h | h
        · exact .inr (h.congr fun id => ActivityStore.get_put_of_ne _ _ (by simp))
        · exact .inl h
      cases h with
      | claim h => exact StandaloneActivity.reclaimable_of_lease rfl rfl
      | heartbeat h hlease =>
        have hclaimed := hbefore.resolve_left id
        have hst : a.status ≠ .scheduled := fun hst => hC a ha hst hclaimed
        have hheld := (hs c a ha hclaimed h).lease hst
        exact StandaloneActivity.reclaimable_of_lease (heartbeat_status h)
          (hlease.trans hheld)
      | reap h hleft => exact .inl rfl
      | close h hattrs =>
        have hterm := (ActivityEventAttrs.closes_only hattrs).2.2
        exact absurd hopen (by simpa using hterm)
    · exact hs c b ((ActivityStore.same_put hc).row.symm.trans hb)
        (hclaimed.congr (ActivityStore.same_put hc).event) hopen
  | @create q run t t' hC =>
    rcases eq_or_ne c ⟨q.ns, q.activityID, run⟩ with rfl | hc
    · rw [ActivityStore.get_appended_row] at hb
      obtain rfl := Option.some.inj hb
      exact .inl rfl
    · exact hs c b ((ActivityStore.same_entered hc).row.symm.trans hb)
        (hclaimed.congr (ActivityStore.same_entered hc).event) hopen

theorem Standalone.ActivityMoves.noneStranded (h : ActivityMoves HeldHeartbeat s s')
    (hs : s.NoneStranded) : s'.NoneStranded := by
  induction h with
  | refl => exact hs
  | tail _ hmove ih => exact hmove.noneStranded ih

theorem heldHeartbeat_routine (s : ActivityStore) (r : RunRef) (attrs : ActivityEventAttrs)
    (h : attrs.Routine) : HeldHeartbeat s r attrs := by
  cases attrs <;> trivial

/-- Where no heartbeat comes for an activity that was claimed and is scheduled
again, no claimed activity is stranded. -/
theorem claimed_activity_reclaimable {s s' : Shard} (hs : s.acts.NoneStranded)
    (h : Relation.ReflTransGen (Shard.Does HeldHeartbeat) s s') : s'.acts.NoneStranded :=
  ActivityMoves.noneStranded (Shard.moves_of_does heldHeartbeat_routine h) hs

def claimAndBeat : List ActivityOperation :=
  [startActivityOne, claimOne, .heartbeat ⟨"n", "a", "q"⟩ .null]

theorem claimed_activity_reclaimable_claimAndBeat :
    slowShard.acts.NoneStranded ∧
      Relation.ReflTransGen (Shard.Does HeldHeartbeat) slowShard
        (slowShard.perform claimAndBeat) ∧
      (slowShard.perform claimAndBeat).acts.NoneStranded := by
  have hs : slowShard.acts.NoneStranded := by
    intro r a ha
    rw [show slowShard.acts = {} from rfl, ActivityStore.get_empty] at ha
    cases ha
  have hbeat : ((slowShard.perform [startActivityOne, claimOne]).acts.get
      (.act ⟨"n", "a", "q"⟩)).map (fun a => a.status) = some .started := by
    decide +kernel
  have hdoes : Relation.ReflTransGen (Shard.Does HeldHeartbeat) slowShard
      (slowShard.perform claimAndBeat) := by
    refine Shard.Permits.does ⟨trivial, trivial, fun a ha hst => ?_, trivial⟩
    obtain ⟨b, hb, hstarted⟩ := Option.map_eq_some_iff.mp hbeat
    obtain rfl := Option.some.inj (hb.symm.trans ha)
    rw [hstarted] at hst
    cases hst
  exact ⟨hs, hdoes, claimed_activity_reclaimable hs hdoes⟩

def lateBeat : List ActivityOperation :=
  [startActivityOne, claimOne, .reap "n", .heartbeat ⟨"n", "a", "q"⟩ .null]

/-- A heartbeat that comes after the lease was reaped leaves the activity
started and without a lease: no worker can claim it, and no reap takes it
back. -/
theorem late_heartbeat_strands :
    ∃ a, (slowShard.perform lateBeat).acts.get (.act ⟨"n", "a", "q"⟩) = some a ∧
      (slowShard.perform lateBeat).acts.Claimed ⟨"n", "a", "q"⟩ ∧ a.status = .started ∧
      (∀ t, leaseExpired t a = false) ∧ ¬a.Reclaimable := by
  have hrow : ((slowShard.perform lateBeat).acts.get (.act ⟨"n", "a", "q"⟩)).map
      (fun a => (a.status, a.leaseExpiry)) = some (.started, none) := by
    decide +kernel
  have hclaim : ((slowShard.perform lateBeat).acts.get (.ahist ⟨"n", "a", "q"⟩ 2)).map
      (fun ev => decide ev.attrs.IsStarted) = some true := by
    decide +kernel
  obtain ⟨a, ha, hobs⟩ := Option.map_eq_some_iff.mp hrow
  obtain ⟨hstatus, hlease⟩ := Prod.mk.inj hobs
  obtain ⟨ev, hev, hstarted⟩ := Option.map_eq_some_iff.mp hclaim
  have hexpired : ∀ t, leaseExpired t a = false := by
    intro t
    simp [leaseExpired, hlease]
  refine ⟨a, ha, ⟨2, ev, hev, of_decide_eq_true hstarted⟩, hstatus, hexpired, ?_⟩
  rintro (h | ⟨-, t₀, h⟩)
  · rw [hstatus] at h
    cases h
  · have hlater := h (t₀ + 1) (by omega)
    rw [hexpired] at hlater
    cases hlater

end DurableTasks
