import DurableTasks.Dispatch.Basic

/-!
No task is lost, sent twice or sent out of turn. Trying the subscribers of a
key is described once, by `Delivers`, and every invariant of the tables is
proved against that description.
-/

namespace DurableTasks.Dispatch

variable {l : List Subscription} {d' d : Dispatcher} {key : SubKey} {fuel : Nat} {t x : Task}
  {s : Subscription} {principal : Principal} {work : Work}

/-! ## Slices -/

theorem mem_dropSub (h : (l.map Subscription.id).Nodup) (i : Nat) (x : Subscription) :
    x ∈ dropSub i l ↔ x ∈ l ∧ x.id ≠ i := by
  induction l with
  | nil => simp [dropSub]
  | cons s l ih => grind [dropSub]

theorem dropSub_sublist (i : Nat) (l : List Subscription) : (dropSub i l).Sublist l :=
  List.eraseP_sublist

theorem foldl_dropSub_sublist (held l : List Subscription) :
    (held.foldl (fun l s => dropSub s.id l) l).Sublist l := by
  induction held generalizing l with
  | nil => exact .refl l
  | cons s held ih => exact (ih (dropSub s.id l)).trans (dropSub_sublist s.id l)

theorem nodup_of_sublist {l' : List Subscription} (h : (l.map Subscription.id).Nodup)
    (hl : l'.Sublist l) : (l'.map Subscription.id).Nodup :=
  h.sublist (hl.map _)

theorem mem_foldl_dropSub {held : List Subscription} (h : (l.map Subscription.id).Nodup)
    (x : Subscription) :
    x ∈ held.foldl (fun l s => dropSub s.id l) l ↔ x ∈ l ∧ ∀ s ∈ held, x.id ≠ s.id := by
  induction held generalizing l with
  | nil => simp
  | cons s held ih =>
    rw [List.foldl_cons, ih (nodup_of_sublist h (dropSub_sublist s.id l)), mem_dropSub h]
    simp only [List.forall_mem_cons, and_assoc]

theorem eq_of_id_eq (h : (l.map Subscription.id).Nodup) {s' : Subscription} (hs : s ∈ l)
    (hs' : s' ∈ l) (hid : s.id = s'.id) : s = s' :=
  List.inj_on_of_nodup_map h hs hs' hid

/-! ## The subscription tables -/

structure Tables (d : Dispatcher) : Prop where
  agree : ∀ s, s ∈ d.subs ↔ s ∈ d.byPeer
  subs : (d.subs.map Subscription.id).Nodup
  byPeer : (d.byPeer.map Subscription.id).Nodup
  fresh : ∀ s ∈ d.subs, s.id < d.nextSub

namespace Tables

variable {d : Dispatcher}

theorem drop (h : Tables d) (i : Nat) (hsubs : d'.subs = dropSub i d.subs)
    (hpeer : d'.byPeer = dropSub i d.byPeer) (hnext : d'.nextSub = d.nextSub) : Tables d' := by
  constructor
  · intro s
    rw [hsubs, hpeer, mem_dropSub h.subs, mem_dropSub h.byPeer, h.agree]
  · rw [hsubs]
    exact nodup_of_sublist h.subs (dropSub_sublist i _)
  · rw [hpeer]
    exact nodup_of_sublist h.byPeer (dropSub_sublist i _)
  · intro s hs
    rw [hsubs, mem_dropSub h.subs] at hs
    rw [hnext]
    exact h.fresh s hs.1

theorem frame (h : Tables d) (hsubs : d'.subs = d.subs) (hpeer : d'.byPeer = d.byPeer)
    (hnext : d'.nextSub = d.nextSub) : Tables d' := by
  constructor
  · rw [hsubs, hpeer]
    exact h.agree
  · rw [hsubs]
    exact h.subs
  · rw [hpeer]
    exact h.byPeer
  · rw [hsubs, hnext]
    exact h.fresh

theorem addSub (h : Tables d) (peerID : String) (key : SubKey) :
    Tables (d.addSub peerID key) := by
  have hnew : ∀ l : List Subscription, (∀ s ∈ l, s ∈ d.subs) →
      (l.map Subscription.id).Nodup →
      ((l ++ [(⟨d.nextSub, peerID, key⟩ : Subscription)]).map Subscription.id).Nodup := by
    intro l hl hnodup
    rw [List.map_append, List.nodup_append]
    refine ⟨hnodup, List.nodup_singleton _, ?_⟩
    intro i hi j hj
    obtain ⟨s, hs, rfl⟩ := List.mem_map.mp hi
    obtain rfl : j = d.nextSub := by simpa using hj
    exact (h.fresh s (hl s hs)).ne
  constructor
  · intro s
    show s ∈ d.subs ++ _ ↔ s ∈ d.byPeer ++ _
    rw [List.mem_append, List.mem_append, h.agree]
  · exact hnew d.subs (fun s hs => hs) h.subs
  · exact hnew d.byPeer (fun s hs => (h.agree s).mpr hs) h.byPeer
  · intro s hs
    rcases List.mem_append.mp hs with hs | hs
    · exact Nat.lt_succ_of_lt (h.fresh s hs)
    · obtain rfl : s = ⟨d.nextSub, peerID, key⟩ := by simpa using hs
      exact Nat.lt_succ_self d.nextSub

theorem removePeer (h : Tables d) (peerID : String) : Tables (d.removePeer peerID) := by
  constructor
  · intro s
    show s ∈ List.foldl _ _ _ ↔ s ∈ List.filter _ _
    rw [mem_foldl_dropSub h.subs, List.mem_filter, ← h.agree]
    simp only [List.mem_filter, decide_eq_true_eq, and_imp, and_congr_right_iff]
    intro hs
    constructor
    · intro hids hpeer
      exact hids s ((h.agree s).mp hs) hpeer rfl
    · intro hpeer s' hs' hpeer' hid
      obtain rfl := eq_of_id_eq h.byPeer ((h.agree s).mp hs) hs' hid
      exact hpeer hpeer'
  · exact nodup_of_sublist h.subs (foldl_dropSub_sublist _ _)
  · exact nodup_of_sublist h.byPeer List.filter_sublist
  · intro s hs
    exact h.fresh s ((foldl_dropSub_sublist _ _).subset hs)

end Tables

/-! ## Trying the subscribers of a key -/

theorem pick_eq_none : d.pick key = none ↔ d.subsOf key = [] := by
  simp only [Dispatcher.pick, Option.map_eq_none_iff, List.getElem?_eq_none_iff]
  constructor
  · intro h
    by_contra hne
    have hpos : 0 < (d.subsOf key).length := List.length_pos_iff.mpr hne
    have hlt := Nat.mod_lt (d.rrIdx key) hpos
    omega
  · intro h
    simp [h]

/-- A subscriber of the key is picked, and only the turn is passed on. -/
theorem pick_eq_some (h : d.pick key = some (s, d')) :
    s ∈ d.subsOf key ∧ ∃ rr, d' = { d with rrIdx := rr } := by
  obtain ⟨s', hs', heq⟩ := Option.map_eq_some_iff.mp h
  obtain ⟨rfl, rfl⟩ := Prod.mk.inj heq
  exact ⟨List.mem_of_getElem? hs', _, rfl⟩

/-- What trying the subscribers of `key` for a task comes to: there is none, or
one is reached, or one is pruned and the others are tried. -/
inductive Delivers (reach : Nat → String → Bool) (key : SubKey) (t : Task) :
    Dispatcher → Bool → Dispatcher → Prop
  | nobody {d : Dispatcher} (h : d.subsOf key = []) : Delivers reach key t d false d
  | reached {d d' : Dispatcher} {s : Subscription} (h : d.pick key = some (s, d'))
      (hreach : reach d.sends s.peerID = true) :
      Delivers reach key t d true ((d'.offer s t).accept s t)
  | pruned {d d' d'' : Dispatcher} {s : Subscription} {b : Bool} (h : d.pick key = some (s, d'))
      (hreach : reach d.sends s.peerID = false)
      (rest : Delivers reach key t ((d'.offer s t).removeSub s) b d'') :
      Delivers reach key t d b d''

section Deliver

variable {reach : Nat → String → Bool} {key : SubKey} {t : Task} {d d' : Dispatcher} {b : Bool}

theorem deliver_delivers (h : d.deliver reach fuel key t = some (b, d')) :
    Delivers reach key t d b d' := by
  induction fuel generalizing d with
  | zero => simp [Dispatcher.deliver] at h
  | succ fuel ih =>
    unfold Dispatcher.deliver at h
    split at h
    · next hpick =>
        obtain ⟨rfl, rfl⟩ := Prod.mk.inj (Option.some.inj h)
        exact .nobody (pick_eq_none.mp hpick)
    · next s d₁ hpick =>
        split_ifs at h with hreach
        · obtain ⟨rfl, rfl⟩ := Prod.mk.inj (Option.some.inj h)
          exact .reached hpick hreach
        · exact .pruned hpick (by simpa using hreach) (ih h)

/-- Pruning a subscriber of the key leaves one less. -/
theorem length_subsOf_removeSub (h : Tables d) (hs : s ∈ d.subsOf key) :
    ((d.removeSub s).subsOf key).length < (d.subsOf key).length := by
  have hsub : ((d.removeSub s).subsOf key).Sublist (d.subsOf key) :=
    (dropSub_sublist s.id d.subs).filter _
  refine lt_of_le_of_ne hsub.length_le fun hlen => ?_
  have heq := hsub.eq_of_length hlen
  rw [← heq] at hs
  have hmem : s ∈ dropSub s.id d.subs := (List.mem_filter.mp hs).1
  rw [mem_dropSub h.subs] at hmem
  exact hmem.2 rfl

/-- The loop ends: every round but the last prunes a subscriber. -/
theorem deliver_ends (reach : Nat → String → Bool) (t : Task) (h : Tables d)
    (hfuel : (d.subsOf key).length < fuel) : ∃ b d', d.deliver reach fuel key t = some (b, d') := by
  induction fuel generalizing d with
  | zero => omega
  | succ fuel ih =>
    unfold Dispatcher.deliver
    split
    · exact ⟨false, d, rfl⟩
    · next s d₁ hpick =>
        obtain ⟨hs, rr, rfl⟩ := pick_eq_some hpick
        split_ifs
        · exact ⟨true, _, rfl⟩
        · have hlt := length_subsOf_removeSub h hs
          apply ih
          · exact h.drop s.id rfl rfl rfl
          · exact Nat.lt_of_lt_of_le hlt (Nat.le_of_lt_succ hfuel)

structure Delivery (d d' : Dispatcher) : Prop where
  tables : Tables d'
  subs : d'.subs.Sublist d.subs
  pending : d'.pending = d.pending
  byToken : d'.byToken = d.byToken
  nextToken : d'.nextToken = d.nextToken

theorem Delivers.delivery (h : Delivers reach key t d b d') (hd : Tables d) : Delivery d d' := by
  induction h with
  | nobody h => exact ⟨hd, .refl _, rfl, rfl, rfl⟩
  | reached h hreach =>
    obtain ⟨-, rr, rfl⟩ := pick_eq_some h
    exact ⟨hd.frame rfl rfl rfl, .refl _, rfl, rfl, rfl⟩
  | pruned h hreach rest ih =>
    obtain ⟨-, rr, rfl⟩ := pick_eq_some h
    have hrest := ih (hd.drop _ rfl rfl rfl)
    exact ⟨hrest.tables, hrest.subs.trans (dropSub_sublist _ _), hrest.pending, hrest.byToken,
      hrest.nextToken⟩

theorem Delivers.enqueued (h : Delivers reach key t d b d') : d'.enqueued = d.enqueued := by
  induction h with
  | nobody h => rfl
  | reached h hreach =>
    obtain ⟨-, rr, rfl⟩ := pick_eq_some h
    rfl
  | pruned h hreach rest ih =>
    obtain ⟨-, rr, rfl⟩ := pick_eq_some h
    exact ih

theorem Delivers.failed (h : Delivers reach key t d false d') :
    d'.subsOf key = [] ∧ d'.delivered = d.delivered := by
  generalize hb : false = b at h
  induction h with
  | nobody h => exact ⟨h, rfl⟩
  | reached => cases hb
  | pruned h hreach rest ih =>
    obtain ⟨-, rr, rfl⟩ := pick_eq_some h
    exact ih hb

theorem Delivers.succeeded (h : Delivers reach key t d true d') :
    ∃ s ∈ d.subsOf key, d'.delivered = d.delivered ++ [(s.peerID, t)] := by
  generalize hb : true = b at h
  induction h with
  | nobody => cases hb
  | reached h hreach =>
    obtain ⟨hs, rr, rfl⟩ := pick_eq_some h
    exact ⟨_, hs, rfl⟩
  | pruned h hreach rest ih =>
    obtain ⟨-, rr, rfl⟩ := pick_eq_some h
    obtain ⟨s, hs, hsent⟩ := ih hb
    exact ⟨s, ((dropSub_sublist _ _).filter _).subset hs, hsent⟩

end Deliver

/-! ## Conservation -/

def Dispatcher.enqueuedAt (d : Dispatcher) (key : SubKey) : List Task :=
  d.enqueued.filter fun t => t.key = key

def Dispatcher.deliveredAt (d : Dispatcher) (key : SubKey) : List Task :=
  (d.delivered.map Prod.snd).filter fun t => t.key = key

structure Kept (d : Dispatcher) : Prop where
  tables : Tables d
  kept : ∀ key, d.enqueuedAt key = d.deliveredAt key ++ d.pending key
  tokens : (d.enqueued.map Task.token).Nodup
  minted : ∀ t ∈ d.enqueued, t.token < d.nextToken

def Idle (d : Dispatcher) (key : SubKey) : Prop := d.pending key ≠ [] → d.subsOf key = []

structure Conserved (d : Dispatcher) : Prop where
  kept : Kept d
  idle : ∀ key, Idle d key

theorem Idle.of_sublist (h : Idle d key) (hsubs : d'.subs.Sublist d.subs)
    (hpending : d'.pending key = d.pending key) : Idle d' key := by
  intro hne
  rw [hpending] at hne
  have hnil : (d'.subsOf key).Sublist (d.subsOf key) := hsubs.filter _
  rw [h hne] at hnil
  exact List.sublist_nil.mp hnil

/-- Calls that send nothing and only take subscriptions away. -/
theorem Conserved.shrink (h : Conserved d) (htables : Tables d') (hsubs : d'.subs.Sublist d.subs)
    (hpending : d'.pending = d.pending) (henqueued : d'.enqueued = d.enqueued)
    (hdelivered : d'.delivered = d.delivered) (hnext : d'.nextToken = d.nextToken) :
    Conserved d' := by
  refine ⟨⟨htables, fun key => ?_, ?_, ?_⟩, fun key => ?_⟩
  · simp only [Dispatcher.enqueuedAt, Dispatcher.deliveredAt, henqueued, hdelivered, hpending]
    exact h.kept.kept key
  · rw [henqueued]
    exact h.kept.tokens
  · rw [henqueued, hnext]
    exact h.kept.minted
  · exact (h.idle key).of_sublist hsubs (congrFun hpending key)

section Calls

variable {reach : Nat → String → Bool} {d d' : Dispatcher}

theorem deliveredAt_append {p : String} (h : d'.delivered = d.delivered ++ [(p, t)])
    (key : SubKey) :
    d'.deliveredAt key = if t.key = key then d.deliveredAt key ++ [t] else d.deliveredAt key := by
  simp only [Dispatcher.deliveredAt, h, List.map_append, List.filter_append]
  split_ifs with hkey <;> simp [hkey]

/-- A waiting task that is sent moves from the queue to the end of the tasks
sent. -/
theorem Kept.drained {rest : List Task} (h : Kept d) (hkey : t.key = key)
    (hpending : d.pending key = t :: rest) (hd : Delivers reach key t d true d') :
    Kept { d' with pending := Function.update d'.pending key rest } := by
  have hdel := hd.delivery h.tables
  obtain ⟨s, -, hp⟩ := hd.succeeded
  refine ⟨hdel.tables.frame rfl rfl rfl, fun key' => ?_, ?_, ?_⟩
  · show d'.enqueuedAt key' = d'.deliveredAt key' ++ Function.update d'.pending key rest key'
    rw [deliveredAt_append hp, Dispatcher.enqueuedAt, hd.enqueued, hdel.pending]
    have hkept := h.kept key'
    rw [Dispatcher.enqueuedAt] at hkept
    rw [hkept]
    by_cases hk : key' = key
    · subst hk
      simp [hkey, hpending]
    · rw [Function.update_of_ne hk, if_neg]
      rw [hkey]
      exact Ne.symm hk
  · show (d'.enqueued.map Task.token).Nodup
    rw [hd.enqueued]
    exact h.tokens
  · show ∀ t ∈ d'.enqueued, t.token < d'.nextToken
    rw [hd.enqueued, hdel.nextToken]
    exact h.minted

theorem Kept.key_of_pending (h : Kept d) (ht : t ∈ d.pending key) : t.key = key := by
  have hmem : t ∈ d.enqueuedAt key := by
    rw [h.kept]
    exact List.mem_append_right _ ht
  simpa using (List.mem_filter.mp hmem).2

theorem length_subsOf_le (d : Dispatcher) (key : SubKey) :
    (d.subsOf key).length ≤ d.subs.length :=
  List.length_filter_le _ _

/-- The loop of a drain ends, and leaves tasks waiting only if nobody is left
to send them to. -/
theorem drainTasks_conserved {ts : List Task} (h : Kept d)
    (hidle : ∀ key', key' ≠ key → Idle d key') (hpending : d.pending key = ts)
    (hfuel : d.subs.length < fuel) :
    ∃ d', d.drainTasks reach fuel key ts = some d' ∧ Conserved d' := by
  induction ts generalizing d with
  | nil =>
    refine ⟨d, rfl, h, fun key' => ?_⟩
    by_cases hk : key' = key
    · subst hk
      exact fun hne => absurd hpending hne
    · exact hidle key' hk
  | cons t rest ih =>
    obtain ⟨b, d₁, hdeliver⟩ := deliver_ends reach t h.tables
      (lt_of_le_of_lt (length_subsOf_le d key) hfuel)
    have hd := deliver_delivers hdeliver
    have hdel := hd.delivery h.tables
    simp only [Dispatcher.drainTasks, hdeliver]
    cases b with
    | false =>
      obtain ⟨hnobody, hsame⟩ := hd.failed
      refine ⟨d₁, rfl, ⟨hdel.tables, fun key' => ?_, ?_, ?_⟩, fun key' => ?_⟩
      · simp only [Dispatcher.enqueuedAt, Dispatcher.deliveredAt, hd.enqueued, hsame,
          hdel.pending]
        exact h.kept key'
      · rw [hd.enqueued]
        exact h.tokens
      · rw [hd.enqueued, hdel.nextToken]
        exact h.minted
      · by_cases hk : key' = key
        · subst hk
          exact fun _ => hnobody
        · exact (hidle key' hk).of_sublist hdel.subs (congrFun hdel.pending key')
    | true =>
      have hkey : t.key = key := h.key_of_pending (by rw [hpending]; exact List.mem_cons_self)
      apply ih
      · exact h.drained hkey hpending hd
      · intro key' hk
        refine (hidle key' hk).of_sublist hdel.subs ?_
        show Function.update d₁.pending key rest key' = _
        rw [Function.update_of_ne hk, hdel.pending]
      · exact Function.update_self key rest d₁.pending
      · exact lt_of_le_of_lt hdel.subs.length_le hfuel

theorem subscribe_conserved (h : Conserved d) (peerID ns queue : String) (kind : TaskKind) :
    ∃ d', d.subscribe reach (d.subs.length + 2) peerID ns queue kind = some d' ∧
      Conserved d' := by
  unfold Dispatcher.subscribe
  split_ifs
  · exact ⟨d, rfl, h⟩
  · have htables := h.kept.tables.addSub peerID ⟨ns, queue, kind⟩
    refine drainTasks_conserved (?_ : Kept (d.addSub peerID ⟨ns, queue, kind⟩)) ?_ ?_ ?_
    · exact ⟨htables, h.kept.kept, h.kept.tokens, h.kept.minted⟩
    · intro key' hk hne
      show (d.subs ++ [_]).filter _ = []
      rw [List.filter_append, show d.subs.filter _ = [] from h.idle key' hne]
      simp [Ne.symm hk]
    · rfl
    · show (d.subs ++ [_]).length < _
      simp

theorem enqueuedAt_mint (d : Dispatcher) (t : Task) (key : SubKey) :
    (d.mint t).enqueuedAt key =
      if t.key = key then d.enqueuedAt key ++ [t] else d.enqueuedAt key := by
  simp only [Dispatcher.enqueuedAt, Dispatcher.mint, List.filter_append]
  split_ifs with hkey <;> simp [hkey]

theorem mint_tokens (h : Kept d) (principal : Principal) (work : Work) :
    ((d.mint ⟨d.nextToken, principal, work⟩).enqueued.map Task.token).Nodup ∧
      ∀ t ∈ (d.mint ⟨d.nextToken, principal, work⟩).enqueued, t.token < d.nextToken + 1 := by
  constructor
  · simp only [Dispatcher.mint, List.map_append, List.nodup_append]
    refine ⟨h.tokens, List.nodup_singleton _, ?_⟩
    intro i hi j hj
    obtain ⟨t, ht, rfl⟩ := List.mem_map.mp hi
    obtain rfl : j = d.nextToken := by simpa using hj
    exact (h.minted t ht).ne
  · intro t ht
    rcases List.mem_append.mp ht with ht | ht
    · exact Nat.lt_succ_of_lt (h.minted t ht)
    · obtain rfl : t = ⟨d.nextToken, principal, work⟩ := by simpa using ht
      exact Nat.lt_succ_self _

theorem enqueue_eq {b : Bool}
    (h : (d.mint ⟨d.nextToken, principal, work⟩).deliver reach fuel work.key
      ⟨d.nextToken, principal, work⟩ = some (b, d')) :
    d.enqueue reach fuel principal work =
      some (if b then d' else d'.queue ⟨d.nextToken, principal, work⟩) := by
  cases b <;> simp only [Dispatcher.enqueue, Task.key, h] <;> rfl

theorem enqueue_conserved (h : Conserved d) (principal : Principal) (work : Work) :
    ∃ d', d.enqueue reach (d.subs.length + 1) principal work = some d' ∧ Conserved d' := by
  let t : Task := ⟨d.nextToken, principal, work⟩
  have htables : Tables (d.mint t) := h.kept.tables.frame rfl rfl rfl
  obtain ⟨htokens, hminted⟩ := mint_tokens h.kept principal work
  obtain ⟨b, d₁, hdeliver⟩ := deliver_ends reach t htables
    (Nat.lt_succ_of_le (length_subsOf_le (d.mint t) t.key))
  have hd := deliver_delivers hdeliver
  have hdel := hd.delivery htables
  have hmap : (d₁.enqueued.map Task.token).Nodup := by
    rw [hd.enqueued]
    exact htokens
  have hlt : ∀ t ∈ d₁.enqueued, t.token < d₁.nextToken := by
    rw [hd.enqueued, hdel.nextToken]
    exact hminted
  have henq : ∀ key, d₁.enqueuedAt key = (d.mint t).enqueuedAt key := by
    intro key
    simp only [Dispatcher.enqueuedAt, hd.enqueued]
  have hpending : d₁.pending = d.pending := hdel.pending
  cases b with
  | true =>
    obtain ⟨s, hs, hp⟩ := hd.succeeded
    have hnone : d.pending t.key = [] := by
      by_contra hne
      exact List.ne_nil_of_mem hs (h.idle t.key hne)
    refine ⟨d₁, ?_, ⟨hdel.tables, fun key => ?_, hmap, hlt⟩, fun key => ?_⟩
    · exact enqueue_eq hdeliver
    · rw [henq, enqueuedAt_mint, deliveredAt_append hp, h.kept.kept, hpending]
      show _ = (if t.key = key then d.deliveredAt key ++ [t] else d.deliveredAt key) ++ _
      split_ifs with hkey
      · subst hkey
        simp [hnone]
      · rfl
    · exact (h.idle key).of_sublist hdel.subs (congrFun hpending key)
  | false =>
    obtain ⟨hnobody, hsame⟩ := hd.failed
    refine ⟨d₁.queue t, ?_, ⟨hdel.tables.frame rfl rfl rfl, fun key => ?_, hmap, hlt⟩,
      fun key => ?_⟩
    · exact enqueue_eq hdeliver
    · show d₁.enqueuedAt key = d₁.deliveredAt key ++
        Function.update d₁.pending t.key (d₁.pending t.key ++ [t]) key
      have hsent : d₁.deliveredAt key = d.deliveredAt key :=
        congrArg (fun l => (l.map Prod.snd).filter fun t => decide (t.key = key)) hsame
      rw [henq, enqueuedAt_mint, h.kept.kept, hpending, hsent]
      by_cases hkey : key = t.key
      · subst hkey
        rw [if_pos rfl, Function.update_self, List.append_assoc]
      · rw [if_neg (Ne.symm hkey), Function.update_of_ne hkey]
    · by_cases hkey : key = t.key
      · subst hkey
        exact fun _ => hnobody
      · refine (h.idle key).of_sublist hdel.subs ?_
        show Function.update d₁.pending t.key (d₁.pending t.key ++ [t]) key = d.pending key
        rw [Function.update_of_ne hkey, hpending]

/-- A task that is given is minted and offered, and waits if nobody took it. -/
theorem enqueue_cases (h : d.enqueue reach fuel principal work = some d') :
    ∃ b d₁, Delivers reach work.key ⟨d.nextToken, principal, work⟩
        (d.mint ⟨d.nextToken, principal, work⟩) b d₁ ∧
      d' = if b then d₁ else d₁.queue ⟨d.nextToken, principal, work⟩ := by
  unfold Dispatcher.enqueue at h
  simp only at h
  split at h
  · cases h
  · next d₁ hd => exact ⟨true, d₁, deliver_delivers hd, (Option.some.inj h).symm⟩
  · next d₁ hd => exact ⟨false, d₁, deliver_delivers hd, (Option.some.inj h).symm⟩

theorem mem_pending_queue :
    x ∈ (d.queue t).pending key ↔ x ∈ d.pending key ∨ key = t.key ∧ x = t := by
  show x ∈ Function.update d.pending t.key (d.pending t.key ++ [t]) key ↔ _
  by_cases hk : key = t.key
  · subst hk
    simp
  · simp [hk]

theorem mem_byToken_mint {kind : TaskKind} :
    x ∈ (d.mint t).byToken kind ↔ kind = t.work.kind ∧ x = t ∨ x ∈ d.byToken kind := by
  show x ∈ Function.update d.byToken t.work.kind (t :: d.byToken t.work.kind) kind ↔ _
  by_cases hk : kind = t.work.kind
  · subst hk
    simp
  · simp [hk]

theorem mem_byToken_of_consume {kind kind' : TaskKind} {token : Nat}
    (h : x ∈ (d.consume kind token).2.byToken kind') : x ∈ d.byToken kind' := by
  change x ∈ Function.update d.byToken kind _ kind' at h
  by_cases hk : kind' = kind
  · subst hk
    rw [Function.update_self] at h
    exact (List.mem_filter.mp h).1
  · rwa [Function.update_of_ne hk] at h

theorem unsubscribe_conserved (h : Conserved d) (subID : Nat) :
    Conserved (d.unsubscribe subID) := by
  unfold Dispatcher.unsubscribe
  split
  · exact h
  · exact h.shrink (h.kept.tables.drop subID rfl rfl rfl) (dropSub_sublist subID d.subs) rfl rfl
      rfl rfl

theorem removePeer_conserved (h : Conserved d) (peerID : String) :
    Conserved (d.removePeer peerID) :=
  h.shrink (h.kept.tables.removePeer peerID) (foldl_dropSub_sublist _ _) rfl rfl rfl rfl

theorem act_conserved (reach : Nat → String → Bool) (h : Conserved d) (a : Action) :
    ∃ d', d.act reach a = some d' ∧ Conserved d' := by
  cases a with
  | subscribe peerID ns queue kind => exact subscribe_conserved h peerID ns queue kind
  | unsubscribe subID => exact ⟨_, rfl, unsubscribe_conserved h subID⟩
  | removePeer peerID => exact ⟨_, rfl, removePeer_conserved h peerID⟩
  | enqueue principal work => exact enqueue_conserved h principal work
  | consume kind token =>
    exact ⟨_, rfl, h.shrink (h.kept.tables.frame rfl rfl rfl) (.refl _) rfl rfl rfl rfl⟩

theorem run_conserved (h : Conserved d) (calls : List (Action × (Nat → String → Bool))) :
    ∃ d', d.run calls = some d' ∧ Conserved d' := by
  induction calls generalizing d with
  | nil => exact ⟨d, rfl, h⟩
  | cons call calls ih =>
    obtain ⟨a, reach⟩ := call
    obtain ⟨d₁, hact, h₁⟩ := act_conserved reach h a
    obtain ⟨d', hrun, h'⟩ := ih h₁
    refine ⟨d', ?_, h'⟩
    rw [Dispatcher.run, hact, Option.bind_some, hrun]

/-! ## The tasks given -/

/-- What a call asks to be done. -/
def Action.given : Action → List (Principal × Work)
  | .enqueue principal work => [(principal, work)]
  | _ => []

def Dispatcher.given (d : Dispatcher) : List (Principal × Work) :=
  d.enqueued.map fun t => (t.principal, t.work)

end Calls

theorem conserved_empty : Conserved {} := by
  refine ⟨⟨⟨?_, ?_, ?_, ?_⟩, ?_, ?_, ?_⟩, ?_⟩ <;> simp [Dispatcher.enqueuedAt,
    Dispatcher.deliveredAt, Idle]

theorem Kept.eq_of_token (h : Kept d) {t' : Task} (ht : t ∈ d.enqueued) (ht' : t' ∈ d.enqueued)
    (htoken : t'.token = t.token) : t' = t :=
  List.inj_on_of_nodup_map h.tokens ht' ht htoken

def waiting (workflowID : String) : Work := .workflow ⟨⟨"ns", workflowID, "r"⟩, "q", "T", []⟩

end DurableTasks.Dispatch
