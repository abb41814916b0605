import DurableTasks.Dispatch.Conservation

/-!
Who holds a task. A task that was sent is not offered again when its worker
goes, so it stays within reach only as long as no subscription is taken from a
peer that holds tasks of it.
-/

namespace DurableTasks.Dispatch

namespace Dispatcher

def Outstanding (d : Dispatcher) (t : Task) : Prop := t ∈ d.byToken t.work.kind

def Subscribed (d : Dispatcher) (p : String) (key : SubKey) : Prop :=
  ∃ s ∈ d.byPeer, s.peerID = p ∧ s.key = key

/-- A task waits, or the peer it was handed to last is still subscribed to its
key. -/
def Covered (d : Dispatcher) (t : Task) : Prop :=
  t ∈ d.pending t.key ∨ ∃ p, d.workerPeer t.token = some p ∧ d.Subscribed p t.key

def Holds (d : Dispatcher) (p : String) (key : SubKey) : Prop :=
  ∃ t, d.Outstanding t ∧ t.key = key ∧ t ∉ d.pending key ∧ d.workerPeer t.token = some p

/-- Sends to the subscribers of a key fail for no peer that holds a task of it,
nor for one that took a task in the same call. -/
def Reaches (reach : Nat → String → Bool) (d : Dispatcher) (key : SubKey) : Prop :=
  (∀ i p, d.Holds p key → reach i p = true) ∧
    ∀ i j p, i ≤ j → reach i p = true → reach j p = true

/-- A call that takes no subscription from a peer that holds a task of it,
unless the peer has another one for the key. -/
def Spares (d : Dispatcher) (reach : Nat → String → Bool) : Action → Prop
  | .subscribe _ ns queue kind => Reaches reach d ⟨ns, queue, kind⟩
  | .unsubscribe subID => ∀ s ∈ d.byPeer, s.id = subID → d.Holds s.peerID s.key →
      ∃ s' ∈ d.byPeer, s'.id ≠ subID ∧ s'.peerID = s.peerID ∧ s'.key = s.key
  | .removePeer peerID => ∀ key, ¬d.Holds peerID key
  | .enqueue _ work => Reaches reach d work.key
  | .consume _ _ => True

def SparesAll (d : Dispatcher) : List (Action × (Nat → String → Bool)) → Prop
  | [] => True
  | (a, reach) :: rest => d.Spares reach a ∧ ∀ d', d.act reach a = some d' → d'.SparesAll rest

end Dispatcher

/-! ## Along a delivery -/

/-- Of the tasks in `A`: the unanswered ones are covered, and whoever holds one
of the key can be reached from now on. -/
structure Covering (reach : Nat → String → Bool) (key : SubKey) (A : Task → Prop)
  (d : Dispatcher) : Prop where
  covered : ∀ x, A x → d.Outstanding x → d.Covered x
  reached : ∀ x p, A x → d.Outstanding x → x.key = key → x ∉ d.pending key →
    d.workerPeer x.token = some p → ∀ i, d.sends ≤ i → reach i p = true

section Deliver

variable {reach : Nat → String → Bool} {key : SubKey} {t : Task} {d d' : Dispatcher}

def Besides (t x : Task) : Prop := x.token ≠ t.token

theorem workerPeer_offer (d : Dispatcher) (s : Subscription) {x : Task} (h : Besides t x) :
    (d.offer s t).workerPeer x.token = d.workerPeer x.token :=
  Function.update_of_ne h _ _

theorem Covering.offer (h : Covering reach key (Besides t) d) (rr : SubKey → Nat)
    (s : Subscription) :
    Covering reach key (Besides t) (Dispatcher.offer { d with rrIdx := rr } s t) := by
  constructor
  · intro x hne hx
    rcases h.covered x hne hx with hwaits | ⟨p, hp, hsub⟩
    · exact .inl hwaits
    · refine .inr ⟨p, ?_, hsub⟩
      rw [workerPeer_offer _ s hne]
      exact hp
  · intro x p hne hx hkey hwaits hp i hi
    rw [workerPeer_offer _ s hne] at hp
    exact h.reached x p hne hx hkey hwaits hp i (Nat.le_of_succ_le hi)

/-- Pruning a subscriber of the key that cannot be reached: nobody who holds a
task of the key is pruned. -/
theorem Covering.prune {A : Task → Prop} (h : Covering reach key A d) (htables : Tables d)
    {s : Subscription} (hs : s ∈ d.subsOf key) (hreach : reach d.sends s.peerID = false) :
    Covering reach key A (d.removeSub s) := by
  obtain ⟨hmem, hskey⟩ := List.mem_filter.mp hs
  have hskey : s.key = key := by simpa using hskey
  constructor
  · intro x hA hx
    by_cases hwaits : x ∈ d.pending x.key
    · exact .inl hwaits
    · obtain ⟨p, hp, s', hs', hpeer, hkey⟩ := (h.covered x hA hx).resolve_left hwaits
      refine .inr ⟨p, hp, s', (mem_dropSub htables.byPeer s.id s').mpr ⟨hs', ?_⟩, hpeer, hkey⟩
      intro hid
      obtain rfl := eq_of_id_eq htables.byPeer hs' ((htables.agree s).mp hmem) hid
      have hx' : x ∉ d.pending key := by rwa [← hskey, hkey]
      have hreached := h.reached x p hA hx (hkey.symm.trans hskey) hx' hp d.sends le_rfl
      rw [hpeer, hreached] at hreach
      cases hreach
  · exact h.reached

/-- The others stay covered while a task is offered; one that is sent is held by
a subscriber that stays within reach. -/
theorem Delivers.covering {b : Bool} (h : Delivers reach key t d b d') (htables : Tables d)
    (hsteady : ∀ i j p, i ≤ j → reach i p = true → reach j p = true)
    (hd : Covering reach key (Besides t) d) :
    Covering reach key (Besides t) d' ∧ (b = true → ∃ p, d'.workerPeer t.token = some p ∧
      d'.Subscribed p key ∧ ∀ i, d'.sends ≤ i → reach i p = true) := by
  induction h with
  | nobody => exact ⟨hd, nofun⟩
  | @reached d d' s hpick hreach =>
    obtain ⟨hs, rr, rfl⟩ := pick_eq_some hpick
    obtain ⟨hmem, hkey⟩ := List.mem_filter.mp hs
    have hkept := hd.offer rr s
    refine ⟨⟨hkept.covered, hkept.reached⟩, fun _ => ⟨s.peerID, ?_, ?_, ?_⟩⟩
    · exact Function.update_self _ _ _
    · exact ⟨s, (htables.agree s).mp hmem, rfl, by simpa using hkey⟩
    · intro i hi
      exact hsteady d.sends i s.peerID (Nat.le_of_succ_le hi) hreach
  | @pruned d d' d'' s b hpick hreach rest ih =>
    obtain ⟨hs, rr, rfl⟩ := pick_eq_some hpick
    -- pruning first and offering then gives the same tables
    have hpruned := hd.prune htables hs hreach
    exact ih (htables.drop s.id rfl rfl rfl) (hpruned.offer _ s)

end Deliver

/-! ## Along a run -/

structure Held (d : Dispatcher) : Prop where
  given : ∀ t, d.Outstanding t → t ∈ d.enqueued
  covered : ∀ t, d.Outstanding t → d.Covered t

section Calls

variable {reach : Nat → String → Bool} {d d' : Dispatcher}

theorem Covering.of_held {A : Task → Prop} {key : SubKey} (h : Held d)
    (hreach : d.Reaches reach key) : Covering reach key A d := by
  constructor
  · intro x _ hx
    exact h.covered x hx
  · intro x p _ hx hkey hwaits hp i _
    exact hreach.1 i p ⟨x, hx, hkey, hwaits, hp⟩

theorem Kept.enqueued_of_pending (h : Kept d) {key : SubKey} {t : Task}
    (ht : t ∈ d.pending key) : t ∈ d.enqueued := by
  have hmem : t ∈ d.enqueuedAt key := by
    rw [h.kept]
    exact List.mem_append_right _ ht
  exact (List.mem_filter.mp hmem).1

theorem outstanding_of_byToken (h : d'.byToken = d.byToken) (t : Task) :
    d'.Outstanding t ↔ d.Outstanding t := by
  rw [Dispatcher.Outstanding, Dispatcher.Outstanding, h]

theorem Covering.drained {key : SubKey} {t : Task} {rest : List Task} (h : Kept d)
    (hgiven : ∀ t, d.Outstanding t → t ∈ d.enqueued) (hpending : d.pending key = t :: rest)
    (hd : Delivers reach key t d true d')
    (hsteady : ∀ i j p, i ≤ j → reach i p = true → reach j p = true)
    (hcover : Covering reach key (fun _ => True) d) :
    Covering reach key (fun _ => True)
      { d' with pending := Function.update d'.pending key rest } := by
  have hdel := hd.delivery h.tables
  have hwaits : t ∈ d.pending key := by
    rw [hpending]
    exact List.mem_cons_self
  obtain ⟨hothers, hsent⟩ := hd.covering h.tables hsteady
    ⟨fun x _ => hcover.covered x trivial, fun x p _ => hcover.reached x p trivial⟩
  obtain ⟨p, hp, hsub, hreached⟩ := hsent rfl
  have hsame : ∀ x, d'.Outstanding x → ¬Besides t x → x = t := fun x hx hne =>
    h.eq_of_token (h.enqueued_of_pending hwaits)
      (hgiven x ((outstanding_of_byToken hdel.byToken x).mp hx)) (not_not.mp hne)
  constructor
  · intro x _ hx
    by_cases hne : Besides t x
    · rcases hothers.covered x hne hx with hx | hx
      · left
        show x ∈ Function.update d'.pending key rest x.key
        by_cases hkey : x.key = key
        · rw [hkey, Function.update_self]
          rw [hdel.pending, hkey, hpending] at hx
          exact (List.mem_cons.mp hx).resolve_left fun hxt => hne (congrArg Task.token hxt)
        · rwa [Function.update_of_ne hkey]
      · exact .inr hx
    · obtain rfl := hsame x hx hne
      rw [← h.key_of_pending hwaits] at hsub
      exact .inr ⟨p, hp, hsub⟩
  · intro x q _ hx hkey hnot hq
    by_cases hne : Besides t x
    · refine hothers.reached x q hne hx hkey ?_ hq
      rw [hdel.pending, hpending]
      intro hmem
      apply hnot
      show x ∈ Function.update d'.pending key rest key
      rw [Function.update_self]
      exact (List.mem_cons.mp hmem).resolve_left fun hxt => hne (congrArg Task.token hxt)
    · obtain rfl := hsame x hx hne
      obtain rfl := Option.some.inj (hq.symm.trans hp)
      exact hreached

theorem drainTasks_held {fuel : Nat} {key : SubKey} {ts : List Task} (h : Kept d)
    (hgiven : ∀ t, d.Outstanding t → t ∈ d.enqueued) (hpending : d.pending key = ts)
    (hsteady : ∀ i j p, i ≤ j → reach i p = true → reach j p = true)
    (hcover : Covering reach key (fun _ => True) d)
    (hdrain : d.drainTasks reach fuel key ts = some d') : Held d' := by
  induction ts generalizing d with
  | nil =>
    obtain rfl := Option.some.inj hdrain
    exact ⟨hgiven, fun t => hcover.covered t trivial⟩
  | cons t rest ih =>
    have hwaits : t ∈ d.pending key := by
      rw [hpending]
      exact List.mem_cons_self
    have hkey := h.key_of_pending hwaits
    rw [Dispatcher.drainTasks] at hdrain
    split at hdrain
    · cases hdrain
    · next d₁ hdeliver =>
        obtain rfl := Option.some.inj hdrain
        have hd := deliver_delivers hdeliver
        have hdel := hd.delivery h.tables
        obtain ⟨hothers, -⟩ := hd.covering h.tables hsteady
          ⟨fun x _ => hcover.covered x trivial, fun x p _ => hcover.reached x p trivial⟩
        have hgiven' : ∀ x, d₁.Outstanding x → x ∈ d₁.enqueued := by
          intro x hx
          rw [hd.enqueued]
          exact hgiven x ((outstanding_of_byToken hdel.byToken x).mp hx)
        refine ⟨hgiven', fun x hx => ?_⟩
        by_cases hne : Besides t x
        · exact hothers.covered x hne hx
        · have hmem := hgiven' x hx
          rw [hd.enqueued] at hmem
          obtain rfl := h.eq_of_token (h.enqueued_of_pending hwaits) hmem (not_not.mp hne)
          left
          rwa [hdel.pending, hkey]
    · next d₁ hdeliver =>
        have hd := deliver_delivers hdeliver
        have hdel := hd.delivery h.tables
        apply ih _ _ _ _ hdrain
        · exact h.drained hkey hpending hd
        · intro x hx
          show x ∈ d₁.enqueued
          rw [hd.enqueued]
          exact hgiven x ((outstanding_of_byToken hdel.byToken x).mp hx)
        · exact Function.update_self key rest d₁.pending
        · exact hcover.drained h hgiven hpending hd hsteady

theorem subscribe_held (h : Conserved d) (hheld : Held d) {fuel : Nat} {peerID ns queue : String}
    {kind : TaskKind} (hreach : d.Reaches reach ⟨ns, queue, kind⟩)
    (hd : d.subscribe reach fuel peerID ns queue kind = some d') : Held d' := by
  unfold Dispatcher.subscribe at hd
  split_ifs at hd
  · obtain rfl := Option.some.inj hd
    exact hheld
  · have hcover := Covering.of_held (A := fun _ => True) hheld hreach
    apply drainTasks_held _ _ _ hreach.2 _ hd
    · exact ⟨h.kept.tables.addSub peerID _, h.kept.kept, h.kept.tokens, h.kept.minted⟩
    · exact hheld.given
    · rfl
    · refine ⟨fun x _ hx => ?_, hcover.reached⟩
      rcases hheld.covered x hx with hwaits | ⟨p, hp, s, hs, hsub⟩
      · exact .inl hwaits
      · exact .inr ⟨p, hp, s, List.mem_append_left _ hs, hsub⟩

theorem outstanding_mint (d : Dispatcher) (t x : Task) :
    (d.mint t).Outstanding x ↔ x = t ∨ d.Outstanding x := by
  rw [Dispatcher.Outstanding, mem_byToken_mint]
  exact or_congr_left ⟨And.right, fun hx => ⟨hx ▸ rfl, hx⟩⟩

theorem enqueue_held (h : Conserved d) (hheld : Held d) {fuel : Nat} {principal : Principal}
    {work : Work} (hreach : d.Reaches reach work.key)
    (hd : d.enqueue reach fuel principal work = some d') : Held d' := by
  obtain ⟨t, ht⟩ : ∃ t : Task, t = ⟨d.nextToken, principal, work⟩ := ⟨_, rfl⟩
  have htables : Tables (d.mint t) := h.kept.tables.frame rfl rfl rfl
  have hkey : t.key = work.key := by rw [ht]; rfl
  -- the tasks there were before are covered, and told from the new one by their tokens
  have hold : ∀ x, (d.mint t).Outstanding x → Besides t x → d.Outstanding x := by
    intro x hx hne
    exact ((outstanding_mint d t x).mp hx).resolve_left fun hxt => hne (congrArg Task.token hxt)
  have hnew : ∀ x, (d.mint t).Outstanding x → ¬Besides t x → x = t := by
    intro x hx hne
    refine ((outstanding_mint d t x).mp hx).resolve_right fun hx => ?_
    have hlt := h.kept.minted x (hheld.given x hx)
    have heq : x.token = t.token := not_not.mp hne
    rw [heq, ht] at hlt
    exact absurd hlt (Nat.lt_irrefl _)
  have hcover : Covering reach work.key (Besides t) (d.mint t) := by
    have hbefore := Covering.of_held (A := Besides t) hheld hreach
    exact ⟨fun x hne hx => hbefore.covered x hne (hold x hx hne),
      fun x p hne hx => hbefore.reached x p hne (hold x hx hne)⟩
  have hgiven : ∀ x, (d.mint t).Outstanding x → x ∈ (d.mint t).enqueued := by
    intro x hx
    rcases (outstanding_mint d t x).mp hx with rfl | hx
    · exact List.mem_append_right _ List.mem_cons_self
    · exact List.mem_append_left _ (hheld.given x hx)
  obtain ⟨b, d₁, hd₁, rfl⟩ := enqueue_cases hd
  rw [← ht] at hd₁ ⊢
  have hdel := hd₁.delivery htables
  have hout : ∀ x, (if b then d₁ else d₁.queue t).Outstanding x → d₁.Outstanding x := by
    intro x hx
    cases b <;> exact hx
  have hmint : ∀ x, d₁.Outstanding x → (d.mint t).Outstanding x :=
    fun x => (outstanding_of_byToken hdel.byToken x).mp
  obtain ⟨hothers, hsent⟩ := hd₁.covering htables hreach.2 hcover
  refine ⟨fun x hx => ?_, fun x hx => ?_⟩
  · have hmem : x ∈ d₁.enqueued := by
      rw [hd₁.enqueued]
      exact hgiven x (hmint x (hout x hx))
    cases b <;> exact hmem
  by_cases hne : Besides t x
  · have hcovered := hothers.covered x hne (hout x hx)
    cases b with
    | true => exact hcovered
    | false => exact hcovered.imp_left fun hwaits => mem_pending_queue.mpr (.inl hwaits)
  · obtain rfl := hnew x (hmint x (hout x hx)) hne
    cases b with
    | true =>
      obtain ⟨p, hp, hsub, -⟩ := hsent rfl
      rw [← hkey] at hsub
      exact .inr ⟨p, hp, hsub⟩
    | false => exact .inl (mem_pending_queue.mpr (.inr ⟨rfl, rfl⟩))

/-- Taking subscriptions away from peers that hold no task of them. -/
theorem Held.shrink (h : Held d) (hpending : d'.pending = d.pending)
    (htoken : d'.byToken = d.byToken) (hpeer : d'.workerPeer = d.workerPeer)
    (henqueued : d'.enqueued = d.enqueued)
    (hsubs : ∀ p key, d.Holds p key → d.Subscribed p key → d'.Subscribed p key) : Held d' := by
  have hout := outstanding_of_byToken htoken
  constructor
  · intro x hx
    rw [henqueued]
    exact h.given x ((hout x).mp hx)
  · intro x hx
    rw [hout] at hx
    rw [Dispatcher.Covered, hpending, hpeer]
    by_cases hwaits : x ∈ d.pending x.key
    · exact .inl hwaits
    · obtain ⟨p, hp, hsub⟩ := (h.covered x hx).resolve_left hwaits
      exact .inr ⟨p, hp, hsubs p x.key ⟨x, hx, rfl, hwaits, hp⟩ hsub⟩

theorem unsubscribe_held (h : Conserved d) (hheld : Held d) {subID : Nat}
    (hspares : d.Spares reach (.unsubscribe subID)) : Held (d.unsubscribe subID) := by
  unfold Dispatcher.unsubscribe
  split
  · exact hheld
  · refine hheld.shrink rfl rfl rfl rfl ?_
    rintro p key hholds ⟨s, hs, rfl, rfl⟩
    have hmem : ∀ s, s ∈ dropSub subID d.byPeer ↔ s ∈ d.byPeer ∧ s.id ≠ subID :=
      mem_dropSub h.kept.tables.byPeer subID
    by_cases hid : s.id = subID
    · obtain ⟨s', hs', hid', hsub⟩ := hspares s hs hid hholds
      exact ⟨s', (hmem s').mpr ⟨hs', hid'⟩, hsub⟩
    · exact ⟨s, (hmem s).mpr ⟨hs, hid⟩, rfl, rfl⟩

theorem removePeer_held (hheld : Held d) {peerID : String}
    (hspares : d.Spares reach (.removePeer peerID)) : Held (d.removePeer peerID) := by
  refine hheld.shrink rfl rfl rfl rfl ?_
  rintro p key hholds ⟨s, hs, rfl, rfl⟩
  refine ⟨s, List.mem_filter.mpr ⟨hs, ?_⟩, rfl, rfl⟩
  have hne : s.peerID ≠ peerID := by
    rintro rfl
    exact hspares s.key hholds
  simpa using hne

theorem consume_held (hheld : Held d) (kind : TaskKind) (token : Nat) :
    Held (d.consume kind token).2 := by
  have hout : ∀ x, (d.consume kind token).2.Outstanding x → d.Outstanding x :=
    fun x => mem_byToken_of_consume
  exact ⟨fun x hx => hheld.given x (hout x hx), fun x hx => hheld.covered x (hout x hx)⟩

theorem act_held (h : Conserved d) (hheld : Held d) {a : Action} (hspares : d.Spares reach a)
    (hd : d.act reach a = some d') : Held d' := by
  cases a with
  | subscribe peerID ns queue kind => exact subscribe_held h hheld hspares hd
  | unsubscribe subID =>
    obtain rfl := Option.some.inj hd
    exact unsubscribe_held h hheld hspares
  | removePeer peerID =>
    obtain rfl := Option.some.inj hd
    exact removePeer_held hheld hspares
  | enqueue principal work => exact enqueue_held h hheld hspares hd
  | consume kind token =>
    obtain rfl := Option.some.inj hd
    exact consume_held hheld kind token

theorem run_held (h : Conserved d) (hheld : Held d)
    {calls : List (Action × (Nat → String → Bool))} (hspares : d.SparesAll calls) :
    ∃ d', d.run calls = some d' ∧ Held d' := by
  induction calls generalizing d with
  | nil => exact ⟨d, rfl, hheld⟩
  | cons call calls ih =>
    obtain ⟨a, reach⟩ := call
    obtain ⟨d₁, hact, h₁⟩ := act_conserved reach h a
    obtain ⟨d', hrun, h'⟩ := ih h₁ (act_held h hheld hspares.1 hact) (hspares.2 d₁ hact)
    refine ⟨d', ?_, h'⟩
    rw [Dispatcher.run, hact, Option.bind_some, hrun]

end Calls

/-- A run that takes no subscription from a peer that holds tasks of it, by an
unsubscribe, a lost connection or a failed send: every task whose token has not
been consumed waits, or was last sent to a peer that is still subscribed. -/
theorem tasks_within_reach (calls : List (Action × (Nat → String → Bool)))
    (hspares : ({} : Dispatcher).SparesAll calls) :
    ∃ d, ({} : Dispatcher).run calls = some d ∧ ∀ t, d.Outstanding t → d.Covered t := by
  obtain ⟨d, hrun, h⟩ := run_held conserved_empty ⟨nofun, nofun⟩ hspares
  exact ⟨d, hrun, h.covered⟩

def lostTask : Work := .workflow ⟨⟨"ns", "wf", "r"⟩, "q", "T", []⟩

def handOver : List (Action × (Nat → String → Bool)) :=
  [(.subscribe "w" "ns" "q" .workflow, fun _ _ => true), (.enqueue {} lostTask, fun _ _ => true)]

theorem tasks_within_reach_handOver :
    ({} : Dispatcher).SparesAll handOver ∧
      ∃ d, ({} : Dispatcher).run handOver = some d ∧ ∀ t, d.Outstanding t → d.Covered t := by
  have hspares : ({} : Dispatcher).SparesAll handOver := by
    have hreach : ∀ (d : Dispatcher) key, d.Reaches (fun _ _ => true) key :=
      fun _ _ => ⟨fun _ _ _ => rfl, fun _ _ _ _ _ => rfl⟩
    exact ⟨hreach _ _, fun _ _ => ⟨hreach _ _, fun _ _ => trivial⟩⟩
  exact ⟨hspares, tasks_within_reach handOver hspares⟩

/-- The worker's connection is lost: its task is unanswered, waits nowhere, and
nobody is left to answer it. -/
theorem lost_worker_keeps_task :
    ∃ d t, ({} : Dispatcher).run (handOver ++ [(.removePeer "w", fun _ _ => true)]) = some d ∧
      d.Outstanding t ∧ ¬d.Covered t := by
  refine ⟨_, ⟨0, {}, lostTask⟩, rfl, List.mem_cons_self, ?_⟩
  rintro (hwaits | ⟨p, -, s, hs, -⟩)
  · cases hwaits
  · cases hs

end DurableTasks.Dispatch
