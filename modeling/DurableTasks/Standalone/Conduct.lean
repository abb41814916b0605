import DurableTasks.Concurrency.Threads
import DurableTasks.Standalone.LifeCycle

/-!
Operations on standalone activities that run at the same time. Every access is
one step, and the claim lock of a namespace excludes only claims and reaps.

What an operation knows is an `ActivityView`: the rows it has read or written,
the lock it holds, and the event it has yet to append to what it has done.
-/

namespace DurableTasks

open Effects Standalone

variable {a old : StandaloneActivity}

structure ActivityView where
  /-- The row it last read or wrote of an activity. -/
  row : RunRef → Option StandaloneActivity := fun _ => none
  held : Option String := none
  /-- It has claimed this activity and not yet recorded the claim. -/
  claimed : Option RunRef := none
  /-- It has put this activity back and not yet recorded the timeout. -/
  reaped : Option RunRef := none
  /-- The activity it has closed, and how. -/
  closed : Option (RunRef × ActivityState) := none
  /-- The claim it has recorded last. -/
  took : Option (RunRef × ActivityEvent) := none

namespace ActivityView

structure Settled (k : ActivityView) : Prop where
  claimed : k.claimed = none
  reaped : k.reaped = none

/-- How a thread may change the status of activity `r`. -/
inductive Change (k : ActivityView) (r : RunRef) : ActivityState → ActivityState → Prop
  | keep {st : ActivityState} : Change k r st st
  | claim (hheld : k.held = some r.ns) (hk : k.Settled) : Change k r .scheduled .started
  /-- A heartbeat of a worker that has not claimed. -/
  | beat (hheld : k.held = none) : Change k r .scheduled .started
  | reap (hheld : k.held = some r.ns) (hk : k.Settled) : Change k r .started .scheduled
  | close {st st' : ActivityState} (h : st.isTerminal = false) (h' : st'.isTerminal = true) :
      Change k r st st'

/-- What must have been done before an event is appended to `r`. -/
def Owes (k : ActivityView) (r : RunRef) : ActivityEventAttrs → Prop
  | .started _ _ _ => k.claimed = some r ∧ k.reaped = none
  | .timedOut _ _ => k.reaped = some r ∧ k.claimed = none
  | _ => k.Settled

def guard (k : ActivityView) : ActivityEffect → Prop
  | .put (.act r) a => ∃ old, k.row r = some old ∧ k.Change r old.status a.status
  | .put (.ahist r id) ev => ev.eventId = id ∧ k.Owes r ev.attrs
  | .put (.aidem _ _ _) _ => False
  | .del _ => False
  | .lock _ => k.held = none ∧ k.Settled
  | .unlock ns => k.held = some ns ∧ k.Settled
  | _ => True

def read (k : ActivityView) (r : RunRef) (o : Option StandaloneActivity) : ActivityView :=
  { k with
    row := Function.update k.row r o
    claimed := if o.isNone ∧ k.claimed = some r then none else k.claimed
    reaped := if o.isNone ∧ k.reaped = some r then none else k.reaped }

def listed (k : ActivityView) (ns : String) (l : List (RunRef × StandaloneActivity)) :
    ActivityView :=
  { k with row := fun r => if r.ns = ns then l.lookup r else k.row r }

def wrote (k : ActivityView) (r : RunRef) (a : StandaloneActivity) : ActivityView :=
  let was (st : ActivityState) : Prop := (k.row r).map (fun old => old.status) = some st
  { k with
    row := Function.update k.row r (some a)
    claimed := if k.held = some r.ns ∧ was .scheduled ∧ a.status = .started then some r
      else k.claimed
    reaped := if was .started ∧ a.status = .scheduled then some r else k.reaped
    closed := if (k.row r).any (fun old => !old.status.isTerminal) ∧ a.status.isTerminal then
        some (r, a.status)
      else k.closed }

def recorded (k : ActivityView) (r : RunRef) (ev : ActivityEvent) : ActivityView :=
  match ev.attrs with
  | .started _ _ _ => { k with claimed := none, took := some (r, ev) }
  | .timedOut _ _ => { k with reaped := none }
  | _ => k

def learn (k : ActivityView) : (e : ActivityEffect) → e.Answer → ActivityView
  | .get (.act r), .ok o => k.read r o
  | .rows ns, .ok l => k.listed ns l
  | .put (.act r) a, _ => k.wrote r a
  | .put (.ahist r _) ev, _ => k.recorded r ev
  | .lock ns, _ => { k with held := some ns }
  | .unlock _, _ => { k with held := none }
  | _, _ => k

end ActivityView

structure ListsActivities (ns : String) (l : List (RunRef × StandaloneActivity)) : Prop where
  ns : ∀ p ∈ l, p.1.ns = ns
  nodup : (l.map Prod.fst).Nodup
  lookup : ∀ p ∈ l, l.lookup p.1 = some p.2

def ActivityEffect.Sound : (e : ActivityEffect) → e.Answer → Prop
  | .describeNamespace _, a => ∃ o, a = .ok o
  | .get _, a => ∃ o, a = .ok o
  | .put _ _, a => ∃ u, a = .ok u
  | .del _, a => ∃ u, a = .ok u
  | .rows ns, a => ∃ l, a = .ok l ∧ ListsActivities ns l
  | .events _, a => ∃ l, a = .ok l
  | .requests _ _, a => ∃ l, a = .ok l
  | .now, _ | .newRunId, _ | .lock _, _ | .unlock _, _ => True

def activityProtocol : Protocol ActivityEffect ActivityEffect.Answer ActivityView where
  guard := ActivityView.guard
  valid := ActivityEffect.Sound
  learn := ActivityView.learn

theorem ActivityStore.lookup_rows (s : ActivityStore) (r : RunRef) :
    (s.rows r.ns).lookup r = s.get (.act r) := by
  refine Listing.lookup_eq (s.nodup_rows r.ns) fun a => ?_
  rw [mem_rows]
  exact ⟨fun h => h.2, fun h => ⟨rfl, h⟩⟩

theorem ActivityStore.lists_rows (s : ActivityStore) (ns : String) :
    ListsActivities ns (s.rows ns) where
  ns := fun _ hp => (mem_rows.mp hp).1
  nodup := s.nodup_rows ns
  lookup := fun _ hp => Listing.lookup_of_nodup (s.nodup_rows ns) hp

theorem activityHandler_sound (e : ActivityEffect) (s : Shard) :
    e.Sound (activityHandler e s).1 := by
  cases e with
  | rows ns => exact ⟨_, rfl, s.acts.lists_rows ns⟩
  | now => trivial
  | newRunId => trivial
  | lock ns => trivial
  | unlock ns => trivial
  | _ => exact ⟨_, rfl⟩

/-! ## Following the protocol -/

/-- `x` follows the protocol from the view `k`, whatever other threads do in
between, and returns with `Q`. -/
def Standalone.Act.follows {α : Type} (x : Act α) (Q : Except String α → ActivityView → Prop)
    (k : ActivityView) : Prop :=
  x.run.conforms activityProtocol Q k

namespace Standalone.Act

variable {α β : Type} {k : ActivityView} {r : RunRef} {ns : String}

@[simp] theorem follows_pure {Q : Post α ActivityView} (a : α) :
    (pure a : Act α).follows Q k ↔ Q (.ok a) k := Iff.rfl

@[simp] theorem follows_throw {Q : Post α ActivityView} (e : String) :
    (throw e : Act α).follows Q k ↔ Q (.error e) k := Iff.rfl

@[simp] theorem follows_bind {Q : Post β ActivityView} (x : Act α) (f : α → Act β) :
    (x >>= f).follows Q k ↔
      x.follows (fun res k' => match res with
        | .ok a => (f a).follows Q k'
        | .error e => Q (.error e) k') k :=
  FollowsOf.bind_iff x f (fun _ _ => Iff.rfl) fun _ _ => Iff.rfl

theorem follows_mono {Q Q' : Post α ActivityView} (hQ : ∀ a k, Q a k → Q' a k)
    {x : Act α} (hx : x.follows Q k) : x.follows Q' k :=
  Program.conforms_mono hQ _ hx

@[simp] theorem follows_attempt {x : Act α} {Q : Post (Except String α) ActivityView} :
    (attempt x).follows Q k ↔ x.follows (fun res k' => Q (.ok res) k') k :=
  FollowsOf.lift_run_iff

@[simp] theorem follows_describeNamespace {Q : Post (Option Namespace) ActivityView} :
    (describeNamespace ns).follows Q k ↔ ∀ o, Q (.ok o) k := ok_answer

@[simp] theorem follows_describeActivity {Q : Post (Option StandaloneActivity) ActivityView} :
    (describeActivity r).follows Q k ↔ ∀ o, Q (.ok o) (k.read r o) := ok_answer

@[simp] theorem follows_listRows {Q : Post (List (RunRef × StandaloneActivity)) ActivityView} :
    (listRows ns).follows Q k ↔ ∀ l, ListsActivities ns l → Q (.ok l) (k.listed ns l) :=
  ok_listing

theorem follows_put {key : ActivityKey} {v : key.Val} {Q : Post Unit ActivityView} :
    (put key v).follows Q k ↔
      k.guard (.put key v) ∧ Q (.ok ()) (k.learn (.put key v) (.ok ())) :=
  and_congr_right fun _ => by
    constructor
    · exact fun h => h _ ⟨(), rfl⟩
    · rintro h _ ⟨u, rfl⟩
      exact h

@[simp] theorem follows_putRow {Q : Post Unit ActivityView} :
    (put (.act r) a).follows Q k ↔
      (∃ old, k.row r = some old ∧ k.Change r old.status a.status) ∧ Q (.ok ()) (k.wrote r a) :=
  follows_put

@[simp] theorem follows_putEvent {id : Nat} {ev : ActivityEvent} {Q : Post Unit ActivityView} :
    (put (.ahist r id) ev).follows Q k ↔
      (ev.eventId = id ∧ k.Owes r ev.attrs) ∧ Q (.ok ()) (k.recorded r ev) :=
  follows_put

@[simp] theorem follows_now {Q : Post Nat ActivityView} :
    now.follows Q k ↔ ∀ t, Q (.ok t) k := free_answer

@[simp] theorem follows_nowRFC3339 {Q : Post Nat ActivityView} :
    nowRFC3339.follows Q k ↔ ∀ t, Q (.ok (rfc3339 t)) k := by
  simp only [nowRFC3339, follows_bind, follows_now, follows_pure]

theorem follows_forM_cons {l : List β} {b : β} {f : β → Act Unit} {Q : Post Unit ActivityView} :
    ((b :: l).forM f).follows Q k ↔ (f b >>= fun _ => l.forM f).follows Q k := Iff.rfl

/-- A claim or a reap takes the lock when it holds none, and gives it back with
every change recorded. -/
theorem follows_withClaim {body : Act α} {Q : Post α ActivityView}
    (hheld : k.held = none) (hk : k.Settled)
    (hbody : body.follows (fun res k' => (k'.held = some ns ∧ k'.Settled) ∧
      Q res { k' with held := none }) { k with held := some ns }) :
    (withClaim ns body).follows Q k := by
  have hlock : ∀ (e : ActivityEffect) {Q : Post e.Answer ActivityView},
      (call e).follows Q k ↔ k.guard e ∧ ∀ a, e.Sound a → Q (.ok a) (k.learn e a) := by
    intro e Q
    exact Iff.rfl
  have hunlock : ∀ {k : ActivityView} {Q : Post Unit ActivityView},
      (call (.unlock ns)).follows Q k ↔
        (k.held = some ns ∧ k.Settled) ∧ Q (.ok ()) { k with held := none } := unit_answer
  rw [withClaim, follows_bind, hlock]
  refine ⟨⟨hheld, hk⟩, fun _ _ => ?_⟩
  rw [follows_bind, follows_attempt]
  refine follows_mono ?_ hbody
  rintro res k' ⟨hend, hQ⟩
  show (call (.unlock ns) >>= fun _ => ExceptT.mk (pure res)).follows Q k'
  rw [follows_bind, hunlock]
  refine ⟨hend, ?_⟩
  cases res with
  | ok a => exact hQ
  | error e => exact hQ

end Standalone.Act

/-! ## The operations -/

namespace Standalone

open ActivityView

structure Done (r : RunRef) (k k' : ActivityView) : Prop where
  settled : k'.Settled
  held : k'.held = k.held
  row : ∀ c, c ≠ r → k'.row c = k.row c

section Functions

variable {k : ActivityView} {r : RunRef} {ns : String} {attrs : ActivityEventAttrs}
  {ev : ActivityEvent}

theorem Done.refl (hk : k.Settled) : Done r k k := ⟨hk, rfl, fun _ _ => rfl⟩

theorem Done.trans {k₁ k₂ : ActivityView} (h : Done r k k₁) (h' : Done r k₁ k₂) : Done r k k₂ :=
  ⟨h'.settled, h'.held.trans h.held, fun c hc => (h'.row c hc).trans (h.row c hc)⟩

theorem listed_row {l : List (RunRef × StandaloneActivity)} (h : r.ns = ns) :
    (k.listed ns l).row r = l.lookup r := if_pos h

theorem settled_read (hk : k.Settled) (o : Option StandaloneActivity) : (k.read r o).Settled :=
  ⟨by simp [ActivityView.read, hk.claimed], by simp [ActivityView.read, hk.reaped]⟩

theorem done_read (hk : k.Settled) (o : Option StandaloneActivity) : Done r k (k.read r o) :=
  ⟨settled_read hk o, rfl, fun _ hc => Function.update_of_ne hc _ _⟩

theorem owes_read_none (h : k.Owes r attrs) : (k.read r none).Settled := by
  cases attrs with
  | started identity attempt lease =>
    exact ⟨by simp [ActivityView.read, h.1], by simp [ActivityView.read, h.2]⟩
  | timedOut reason attempt =>
    exact ⟨by simp [ActivityView.read, h.2], by simp [ActivityView.read, h.1]⟩
  | _ => exact settled_read h none

theorem owes_read_some (h : k.Owes r attrs) (a : StandaloneActivity) :
    (k.read r (some a)).Owes r attrs := by
  cases attrs with
  | started identity attempt lease => simpa [Owes, ActivityView.read] using h
  | timedOut reason attempt => simpa [Owes, ActivityView.read] using h
  | _ => exact settled_read h _

theorem owes_recorded (h : k.Owes r ev.attrs) : (k.recorded r ev).Settled := by
  obtain ⟨id, t, attrs⟩ := ev
  cases attrs with
  | started identity attempt lease => exact ⟨rfl, h.2⟩
  | timedOut reason attempt => exact ⟨h.2, rfl⟩
  | _ => exact h

@[simp] theorem recorded_row : (k.recorded r ev).row = k.row := by
  unfold recorded
  split <;> rfl

@[simp] theorem recorded_held : (k.recorded r ev).held = k.held := by
  unfold recorded
  split <;> rfl

@[simp] theorem recorded_closed : (k.recorded r ev).closed = k.closed := by
  unfold recorded
  split <;> rfl

theorem recorded_took (h : ev.attrs.IsStarted) : (k.recorded r ev).took = some (r, ev) := by
  obtain ⟨id, t, attrs⟩ := ev
  cases attrs with
  | started identity attempt lease => rfl
  | _ => exact h.elim

theorem wrote_keep (hrow : k.row r = some old) (hstatus : a.status = old.status) :
    k.wrote r a = { k with row := Function.update k.row r (some a) } := by
  simp only [wrote, hrow, Option.map_some, Option.some.injEq, Option.any_some, hstatus]
  cases old.status <;> simp [ActivityState.isTerminal]

/-- What is owed is recorded, and the row counts it. -/
theorem appendActivityHistory_follows (h : k.Owes r attrs) :
    (appendActivityHistory r attrs).follows (fun res k' => Done r k k' ∧ k'.closed = k.closed ∧
      ∀ ev, res = .ok ev → attrs.IsStarted → k'.took = some (r, ev)) k := by
  rw [appendActivityHistory, Act.follows_bind, Act.follows_attempt, Act.follows_describeActivity]
  intro o
  cases o with
  | none =>
    exact ⟨⟨owes_read_none h, rfl, fun c hc => Function.update_of_ne hc _ _⟩, rfl, by simp⟩
  | some a =>
    simp only [Act.follows_bind, Act.follows_nowRFC3339, Act.follows_putRow,
      Act.follows_putEvent, Act.follows_pure]
    intro t
    have howes := owes_read_some h a
    generalize hev : ActivityEvent.mk (a.historyLength + 1) (rfc3339 t) attrs = ev
    have hattrs : ev.attrs = attrs := hev ▸ rfl
    have hrow : ((k.read r (some a)).recorded r ev).row r = some a := by
      simp [ActivityView.read]
    have hwrote := wrote_keep hrow (a := { a with historyLength := a.historyLength + 1 }) rfl
    refine ⟨⟨trivial, howes⟩, ⟨a, hrow, .keep⟩, ?_⟩
    rw [hwrote]
    have hsettled := owes_recorded (hattrs.symm ▸ howes)
    refine ⟨⟨⟨hsettled.claimed, hsettled.reaped⟩, recorded_held, ?_⟩, recorded_closed, ?_⟩
    · intro c hc
      simp [ActivityView.read, hc]
    · rintro _ ⟨⟩ hst
      exact recorded_took (hattrs.symm ▸ hst)

/-- The row of `r` is changed and the event that goes with it appended. -/
theorem change_follows {α : Type} {x : ActivityEvent → Act α} {Q : Post α ActivityView}
    (hrow : k.row r = some old) (hchange : k.Change r old.status a.status)
    (howes : (k.wrote r a).Owes r attrs)
    (hQ : ∀ k', Done r k k' → k'.closed = (k.wrote r a).closed → (∀ e, Q (.error e) k') ∧
      ∀ ev, (attrs.IsStarted → k'.took = some (r, ev)) → (x ev).follows Q k') :
    (do
      put (.act r) a
      let ev ← appendActivityHistory r attrs
      x ev : Act α).follows Q k := by
  simp only [Act.follows_bind, Act.follows_putRow]
  refine ⟨⟨old, hrow, hchange⟩, ?_⟩
  refine Act.follows_mono ?_ (appendActivityHistory_follows howes)
  rintro res k' ⟨hdone, hclosed, htook⟩
  have hall : Done r k k' :=
    ⟨hdone.settled, hdone.held, fun c hc =>
      (hdone.row c hc).trans (Function.update_of_ne hc _ _)⟩
  cases res with
  | error e => exact (hQ k' hall hclosed).1 e
  | ok ev => exact (hQ k' hall hclosed).2 ev (htook ev rfl)

theorem wrote_close (hk : k.Settled) (hrow : k.row r = some old)
    (hopen : old.status.isTerminal = false) (hclosed : a.status.isTerminal = true) :
    (k.wrote r a).Settled ∧ (k.wrote r a).closed = some (r, a.status) := by
  have hne : a.status ≠ .started ∧ a.status ≠ .scheduled := by
    constructor <;> intro heq <;> simp [heq, ActivityState.isTerminal] at hclosed
  refine ⟨⟨?_, ?_⟩, ?_⟩
  · simp [wrote, hne.1, hk.claimed]
  · simp [wrote, hne.2, hk.reaped]
  · simp [wrote, hrow, hopen, hclosed]

theorem owes_of_closes {status : ActivityState} (hk : k.Settled)
    (hattrs : attrs.closes = some status) : k.Owes r attrs := by
  cases attrs with
  | started identity attempt lease => cases hattrs
  | timedOut reason attempt => cases hattrs
  | _ => exact hk

theorem activityTerminal_follows {status : ActivityState} {result : Option Json} {cause : String}
    (hk : k.Settled) (hstatus : status.isTerminal = true) (hattrs : attrs.closes = some status) :
    (activityTerminal r status attrs result cause).follows
      (fun res k' => Done r k k' ∧ (res = .ok () → k'.closed = some (r, status))) k := by
  rw [activityTerminal, Act.follows_bind, Act.follows_attempt, Act.follows_describeActivity]
  intro o
  have hread := done_read (r := r) hk o
  cases o with
  | none => exact ⟨hread, by simp⟩
  | some a =>
    cases hterm : a.status.isTerminal with
    | true =>
      simp only [hterm, if_true, Act.follows_throw]
      exact ⟨hread, by simp⟩
    | false =>
      simp only [hterm, Bool.false_eq_true, if_false]
      rw [Act.follows_bind, Act.follows_nowRFC3339]
      intro t
      have hrow : (k.read r (some a)).row r = some a := Function.update_self _ _ _
      have hclose : ∀ a' : StandaloneActivity, a'.status = status →
          ((k.read r (some a)).wrote r a').Settled ∧
            ((k.read r (some a)).wrote r a').closed = some (r, status) := by
        rintro a' rfl
        exact wrote_close hread.settled hrow hterm hstatus
      refine change_follows hrow (.close hterm hstatus)
        (owes_of_closes (hclose _ rfl).1 hattrs) fun k' hdone hclosed => ?_
      have hall := hread.trans hdone
      exact ⟨fun e => ⟨hall, by simp⟩,
        fun ev _ => ⟨hall, fun _ => hclosed.trans (hclose _ rfl).2⟩⟩

theorem beat_change {st : ActivityState} (hheld : k.held = none) :
    k.Change r st (if st = .scheduled then .started else st) := by
  by_cases hst : st = .scheduled
  · rw [if_pos hst, hst]
    exact .beat hheld
  · rw [if_neg hst]
    exact .keep

theorem settled_beat (hk : k.Settled) (hheld : k.held = none) (hstatus : a.status ≠ .scheduled) :
    (k.wrote r a).Settled :=
  ⟨by simp [wrote, hheld, hk.claimed], by simp [wrote, hstatus, hk.reaped]⟩

theorem renewedLease_follows {Q : Post (Option Nat) ActivityView}
    (hQ : ∀ lease, Q (.ok lease) k) : (heartbeatActivity.renewedLease a).follows Q k := by
  rw [heartbeatActivity.renewedLease]
  cases a.leaseExpiry with
  | none => exact hQ none
  | some exp =>
    rw [Act.follows_bind, Act.follows_now]
    exact fun t => hQ _

theorem heartbeatActivity_follows {details : Json} (hk : k.Settled) (hheld : k.held = none) :
    (heartbeatActivity r details).follows (fun _ k' => Done r k k') k := by
  rw [heartbeatActivity, Act.follows_bind, Act.follows_attempt, Act.follows_describeActivity]
  intro o
  have hread := done_read (r := r) hk o
  cases o with
  | none => exact hread
  | some a =>
    cases hterm : a.status.isTerminal with
    | true =>
      simp only [hterm, if_true, Act.follows_throw]
      exact hread
    | false =>
      simp only [hterm, Bool.false_eq_true, if_false]
      rw [Act.follows_bind, Act.follows_nowRFC3339]
      intro beat
      have hrow : (k.read r (some a)).row r = some a := Function.update_self _ _ _
      have hstatus : (if a.status = .scheduled then .started else a.status) ≠
          ActivityState.scheduled := by
        split_ifs with h
        · exact fun h => by cases h
        · exact h
      have hput : ∀ lease : Option Nat, (do
          put (.act r)
            { a with
              lastHeartbeatTime := some (rfc3339 beat)
              status := if a.status = .scheduled then .started else a.status
              leaseExpiry := lease }
          let _ ← appendActivityHistory r (.heartbeat details) : Act Unit).follows
            (fun _ k' => Done r k k') (k.read r (some a)) := by
        intro lease
        refine change_follows hrow (beat_change hheld)
          (settled_beat hread.settled hheld hstatus) fun k' hdone _ => ?_
        have hall := hread.trans hdone
        exact ⟨fun e => hall, fun ev _ => hall⟩
      dsimp only
      rw [Act.follows_bind]
      exact renewedLease_follows hput

/-- One turn of the loop, of a thread that has listed the activity and holds the
claim lock. -/
theorem reapOne_follows {t : Nat} (hk : k.Settled) (hheld : k.held = some r.ns)
    (hrow : k.row r = some a) : (reapOne t r a).follows (fun _ k' => Done r k k') k := by
  rw [reapOne]
  split_ifs with hexp hmax
  · simp only [Act.follows_bind, Act.follows_attempt, Act.follows_pure, failActivity]
    refine Act.follows_mono ?_ (activityTerminal_follows hk rfl rfl)
    exact fun res k' h => h.1
  · have hstarted : a.status = .started := by
      simp only [leaseExpired, Bool.and_eq_true, decide_eq_true_eq] at hexp
      exact hexp.1
    have hchange : k.Change r a.status (reapedRow a).status := by
      rw [hstarted]
      exact .reap hheld hk
    have howes : (k.wrote r (reapedRow a)).Owes r (.timedOut "lease expired" (a.attempt + 1)) := by
      constructor
      · simp [wrote, hrow, hstarted, reapedRow]
      · simp [wrote, reapedRow, hk.claimed]
    exact change_follows hrow hchange howes fun k' hdone _ => ⟨fun e => hdone, fun ev _ => hdone⟩
  · exact .refl hk

/-- The loop of `reapExpiredLeases`. A turn leaves what is known of the
activities after it alone. -/
theorem reapAll_follows {t : Nat} {l : List (RunRef × StandaloneActivity)} (hk : k.Settled)
    (hheld : k.held = some ns) (hns : ∀ p ∈ l, p.1.ns = ns) (hnodup : (l.map Prod.fst).Nodup)
    (hrows : ∀ p ∈ l, k.row p.1 = some p.2) :
    (l.forM fun p => reapOne t p.1 p.2).follows
      (fun _ k' => k'.Settled ∧ k'.held = some ns) k := by
  induction l generalizing k with
  | nil => exact ⟨hk, hheld⟩
  | cons p l ih =>
    rw [List.map_cons, List.nodup_cons] at hnodup
    rw [Act.follows_forM_cons, Act.follows_bind]
    have hheld' : k.held = some p.1.ns := by rw [hheld, hns p (by simp)]
    refine Act.follows_mono ?_ (reapOne_follows hk hheld' (hrows p (by simp)))
    rintro res k' hdone
    have hheld' : k'.held = some ns := hdone.held.trans hheld
    cases res with
    | error e => exact ⟨hdone.settled, hheld'⟩
    | ok u => grind [hdone.settled, hdone.row]

theorem reapExpiredLeases_follows (hk : k.Settled) (hheld : k.held = some ns) :
    (reapExpiredLeases ns).follows (fun _ k' => k'.Settled ∧ k'.held = some ns) k := by
  simp only [reapExpiredLeases, Act.follows_bind, Act.follows_listRows, Act.follows_now]
  intro l hl t
  refine reapAll_follows (k := k.listed ns l) ⟨hk.claimed, hk.reaped⟩ hheld hl.ns hl.nodup ?_
  intro p hp
  rw [listed_row (hl.ns p hp)]
  exact hl.lookup p hp

structure Idle (k : ActivityView) : Prop where
  settled : k.Settled
  held : k.held = none

theorem sweepLease_follows (hk : Idle k) : (sweepLease ns).follows (fun _ k' => Idle k') k := by
  refine Act.follows_withClaim hk.held hk.settled ?_
  refine Act.follows_mono ?_
    (reapExpiredLeases_follows ⟨hk.settled.claimed, hk.settled.reaped⟩ rfl)
  rintro res k' ⟨hk', hheld⟩
  exact ⟨⟨hheld, hk'⟩, ⟨hk'.claimed, hk'.reaped⟩, rfl⟩

/-- A claim that hands out an activity has recorded it. -/
theorem claimNextActivity_follows {taskQueue identity : String} {lease : Int} (hk : Idle k) :
    (claimNextActivity ns taskQueue identity lease).follows
      (fun res k' => ∀ r o, res = .ok (some (r, o)) → ∃ ev, k'.took = some (r, ev)) k := by
  rw [claimNextActivity, Act.follows_bind, Act.follows_attempt, Act.follows_describeNamespace]
  intro o
  cases o with
  | none => simp
  | some n =>
    refine Act.follows_withClaim hk.held hk.settled ?_
    simp only [Act.follows_bind, Act.follows_listRows]
    refine Act.follows_mono ?_
      (reapExpiredLeases_follows ⟨hk.settled.claimed, hk.settled.reaped⟩ rfl)
    rintro res k₁ ⟨hk₁, hheld⟩
    cases res with
    | error e => exact ⟨⟨hheld, hk₁⟩, by simp⟩
    | ok u =>
      intro l hl
      cases hfind : (l.mergeSort claimOrder).find? fun p => claimable taskQueue p.2 with
      | none => exact ⟨⟨hheld, hk₁.claimed, hk₁.reaped⟩, by simp⟩
      | some p =>
        obtain ⟨r, a⟩ := p
        have hmem := List.mem_of_find?_eq_some hfind
        rw [List.mem_mergeSort] at hmem
        have hns : r.ns = ns := hl.ns _ hmem
        have hrow : (k₁.listed ns l).row r = some a := by
          rw [listed_row hns]
          exact hl.lookup _ hmem
        have hscheduled : a.status = .scheduled := by
          have hclaimable := List.find?_some hfind
          simp only [claimable, Bool.and_eq_true, decide_eq_true_eq] at hclaimable
          exact hclaimable.1
        have hheld' : (k₁.listed ns l).held = some r.ns := by rw [hns]; exact hheld
        rw [Act.follows_bind, Act.follows_now]
        intro t
        have hclaim : ∀ a' : StandaloneActivity, a'.status = .started →
            (k₁.listed ns l).Change r a.status a'.status ∧
              ((k₁.listed ns l).wrote r a').claimed = some r ∧
              ((k₁.listed ns l).wrote r a').reaped = none := by
          intro a' ha'
          refine ⟨?_, ?_, ?_⟩
          · rw [hscheduled, ha']
            exact .claim hheld' ⟨hk₁.claimed, hk₁.reaped⟩
          · simp [wrote, hheld', hrow, hscheduled, ha']
          · simp [wrote, ha', listed, hk₁.reaped]
        refine change_follows hrow (hclaim _ rfl).1 (hclaim _ rfl).2 fun k₂ hdone _ => ?_
        have hheld₂ : k₂.held = some ns := hdone.held.trans hheld
        refine ⟨fun e => ⟨⟨hheld₂, hdone.settled⟩, by simp⟩, fun ev htook => ?_⟩
        simp only [Act.follows_bind, Act.follows_attempt, Act.follows_describeActivity,
          Act.follows_pure]
        refine fun o => ⟨⟨hheld₂, settled_read hdone.settled o⟩, fun r' o' heq => ?_⟩
        obtain ⟨rfl, -⟩ := Prod.mk.inj (Option.some.inj (Except.ok.inj heq))
        exact ⟨ev, htook trivial⟩

end Functions

/-! ## Threads -/

def report {α : Type} (x : Act α) (handsOut : α → Option RunRef := fun _ => none) :
    Program ActivityEffect ActivityEffect.Answer (Except String (Option RunRef)) :=
  x.run >>= fun res => pure (res.map handsOut)

/-- An operation, with the activity that a claim hands out. -/
def outcome : ActivityOperation →
    Program ActivityEffect ActivityEffect.Answer (Except String (Option RunRef))
  | .start a => report (startActivity a)
  | .claim ns taskQueue identity lease =>
    report (claimNextActivity ns taskQueue identity lease) (Option.map Prod.fst)
  | .reap ns => report (sweepLease ns)
  | .heartbeat r details => report (heartbeatActivity r details)
  | .complete r result identity => report (completeActivity r result identity)
  | .fail r cause identity => report (failActivity r cause identity)
  | .cancel r reason identity => report (cancelActivity r reason identity)
  | .purge r cutoff => report (purgeActivityRun r cutoff)

/-- Operations on activities that exist, which delete nothing. -/
def ActivityOperation.Tends : ActivityOperation → Prop
  | .start _ => False
  | .purge _ _ => False
  | _ => True

/-- The activity a terminal call closes, and how. -/
def ActivityOperation.closes : ActivityOperation → Option (RunRef × ActivityState)
  | .complete r _ _ => some (r, .completed)
  | .fail r _ _ => some (r, .failed)
  | .cancel r _ _ => some (r, .canceled)
  | _ => none

/-- What the view shows of an operation that has returned: the activity it was to
close, and the record of the one it has handed out. -/
structure Concludes (o : ActivityOperation) (res : Except String (Option RunRef))
  (k : ActivityView) : Prop where
  closed : ∀ r st, o.closes = some (r, st) → (∃ h, res = .ok h) → k.closed = some (r, st)
  took : ∀ r, res = .ok (some r) → ∃ ev, k.took = some (r, ev)

theorem report_conforms {α : Type} {x : Act α} {f : α → Option RunRef} {k : ActivityView}
    {Q : Post (Option RunRef) ActivityView}
    (hx : x.follows (fun res k' => Q (res.map f) k') k) :
    (report x f).conforms activityProtocol Q k := by
  rw [report, Program.conforms_bind]
  exact hx

/-- An operation that closes and hands out nothing. -/
theorem Concludes.of_none {α : Type} {o : ActivityOperation} {res : Except String α}
    {k : ActivityView} (ho : o.closes = none) : Concludes o (res.map fun _ => none) k where
  closed r st h := by
    rw [ho] at h
    cases h
  took r h := by
    cases res <;> cases h

/-- Every such operation follows the protocol. -/
theorem outcome_follows {o : ActivityOperation} (ho : o.Tends) :
    (outcome o).conforms activityProtocol (Concludes o) {} := by
  have hidle : Idle {} := ⟨⟨rfl, rfl⟩, rfl⟩
  have hterminal : ∀ {r : RunRef} {status : ActivityState} {attrs : ActivityEventAttrs}
      {result : Option Json} {cause : String}, o.closes = some (r, status) →
      status.isTerminal = true → attrs.closes = some status →
      (report (activityTerminal r status attrs result cause)).conforms activityProtocol
        (Concludes o) {} := by
    intro r status attrs result cause ho hstatus hattrs
    refine report_conforms (Act.follows_mono ?_
      (activityTerminal_follows hidle.settled hstatus hattrs))
    rintro (e | u) k ⟨-, hclosed⟩
    · exact ⟨fun _ _ _ hok => (by cases hok.choose_spec), fun _ h => (by cases h)⟩
    · exact ⟨fun _ _ h _ => (hclosed rfl).trans (ho.symm.trans h), fun _ h => (by cases h)⟩
  cases o with
  | start a => exact ho.elim
  | claim ns taskQueue identity lease =>
    refine report_conforms (Act.follows_mono ?_ (claimNextActivity_follows hidle))
    rintro (e | o) k htook
    · exact ⟨fun _ _ h => (by cases h), fun _ h => (by cases h)⟩
    · refine ⟨fun _ _ h => (by cases h), fun r h => ?_⟩
      obtain ⟨⟨c, o'⟩, rfl, rfl⟩ := Option.map_eq_some_iff.mp (Except.ok.inj h)
      exact htook c o' rfl
  | reap ns =>
    exact report_conforms (Act.follows_mono (fun _ _ _ => .of_none rfl) (sweepLease_follows hidle))
  | heartbeat r details =>
    exact report_conforms (Act.follows_mono (fun _ _ _ => .of_none rfl)
      (heartbeatActivity_follows hidle.settled hidle.held))
  | complete r result identity => exact hterminal rfl rfl rfl
  | fail r cause identity => exact hterminal rfl rfl rfl
  | cancel r reason identity => exact hterminal rfl rfl rfl
  | purge r cutoff => exact ho.elim

end Standalone

end DurableTasks
