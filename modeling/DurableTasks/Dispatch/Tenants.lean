import DurableTasks.Dispatch.Holders
import DurableTasks.Dispatch.Server
import DurableTasks.Engine.Queues

/-!
Whose work a worker is sent. The subscriptions of the dispatcher do not say
with which org's token they were made, so an org sees no work of another only as
long as the two share no queue of a namespace.
-/

namespace DurableTasks.Dispatch

open Effects Engine

variable {fuel : Nat} {a : Action}

/-! ## What goes through the dispatcher -/

/-- Subscriptions in `S`, tasks in `T` and sends in `D`. -/
structure Sorted (S : Subscription → Prop) (T : Task → Prop) (D : String × Task → Prop)
  (d : Dispatcher) : Prop where
  subs : ∀ s ∈ d.subs, S s
  waiting : ∀ key, ∀ t ∈ d.pending key, T t
  out : ∀ kind, ∀ t ∈ d.byToken kind, T t
  delivered : ∀ x ∈ d.delivered, D x

def Action.Adds (S : Subscription → Prop) (T : Task → Prop) (d : Dispatcher) : Action → Prop
  | .subscribe peerID ns queue kind => queue ≠ "" → S ⟨d.nextSub, peerID, ⟨ns, queue, kind⟩⟩
  | .enqueue principal work => T ⟨d.nextToken, principal, work⟩
  | _ => True

section Sorted

variable {S : Subscription → Prop} {T : Task → Prop} {D : String × Task → Prop}
  {reach : Nat → String → Bool} {d d' : Dispatcher}

theorem Delivers.sorted {key : SubKey} {t : Task} {b : Bool} (h : Delivers reach key t d b d')
    (hsend : ∀ s t, S s → T t → s.key = t.key → D (s.peerID, t)) (htables : Tables d)
    (hd : Sorted S T D d) (ht : T t) (hkey : t.key = key) : Sorted S T D d' := by
  have hdel := h.delivery htables
  refine ⟨fun s hs => hd.subs s (hdel.subs.subset hs), ?_, ?_, ?_⟩
  · rw [hdel.pending]
    exact hd.waiting
  · rw [hdel.byToken]
    exact hd.out
  · cases b with
    | false =>
      rw [h.failed.2]
      exact hd.delivered
    | true =>
      obtain ⟨s, hs, hsent⟩ := h.succeeded
      obtain ⟨hmem, hskey⟩ := List.mem_filter.mp hs
      rw [hsent]
      intro x hx
      rcases List.mem_append.mp hx with hx | hx
      · exact hd.delivered x hx
      · obtain rfl := List.mem_singleton.mp hx
        refine hsend s t (hd.subs s hmem) ht ?_
        rw [hkey]
        simpa using hskey

theorem drainTasks_sorted {key : SubKey} {ts : List Task} (h : Kept d)
    (hsend : ∀ s t, S s → T t → s.key = t.key → D (s.peerID, t)) (hd : Sorted S T D d)
    (hpending : d.pending key = ts) (hdrain : d.drainTasks reach fuel key ts = some d') :
    Sorted S T D d' := by
  induction ts generalizing d with
  | nil =>
    obtain rfl := Option.some.inj hdrain
    exact hd
  | cons t rest ih =>
    have hwaits : t ∈ d.pending key := by
      rw [hpending]
      exact List.mem_cons_self
    have hkey := h.key_of_pending hwaits
    rw [Dispatcher.drainTasks] at hdrain
    split at hdrain
    · cases hdrain
    · next d₁ hdeliver =>
        obtain rfl := Option.some.inj hdrain
        exact (deliver_delivers hdeliver).sorted hsend h.tables hd (hd.waiting key t hwaits) hkey
    · next d₁ hdeliver =>
        have hdelivers := deliver_delivers hdeliver
        have hd₁ := hdelivers.sorted hsend h.tables hd (hd.waiting key t hwaits) hkey
        refine ih (h.drained hkey hpending hdelivers) ⟨hd₁.subs, fun key' x hx => ?_, hd₁.out,
          hd₁.delivered⟩ (Function.update_self key rest d₁.pending) hdrain
        change x ∈ Function.update d₁.pending key rest key' at hx
        by_cases hk : key' = key
        · grind [hd.waiting]
        · rw [Function.update_of_ne hk] at hx
          exact hd₁.waiting key' x hx

theorem enqueue_sorted {principal : Principal} {work : Work} (h : Conserved d)
    (hsend : ∀ s t, S s → T t → s.key = t.key → D (s.peerID, t)) (hd : Sorted S T D d)
    (hnew : T ⟨d.nextToken, principal, work⟩)
    (henqueue : d.enqueue reach fuel principal work = some d') : Sorted S T D d' := by
  obtain ⟨t, ht⟩ : ∃ t : Task, t = ⟨d.nextToken, principal, work⟩ := ⟨_, rfl⟩
  have htables : Tables (d.mint t) := h.kept.tables.frame rfl rfl rfl
  have hminted : Sorted S T D (d.mint t) := by
    refine ⟨hd.subs, hd.waiting, fun kind x hx => ?_, hd.delivered⟩
    rcases mem_byToken_mint.mp hx with ⟨-, rfl⟩ | hx
    · rwa [ht]
    · exact hd.out kind x hx
  obtain ⟨b, d₁, hdelivers, rfl⟩ := enqueue_cases henqueue
  rw [← ht] at hnew hdelivers ⊢
  have hd₁ := hdelivers.sorted hsend htables hminted hnew (by rw [ht]; rfl)
  cases b with
  | true => exact hd₁
  | false =>
    refine ⟨hd₁.subs, fun key x hx => ?_, hd₁.out, hd₁.delivered⟩
    rcases mem_pending_queue.mp hx with hx | ⟨-, rfl⟩
    · exact hd₁.waiting key x hx
    · exact hnew

theorem act_sorted (h : Conserved d) (hsend : ∀ s t, S s → T t → s.key = t.key → D (s.peerID, t))
    (hd : Sorted S T D d) (hadds : a.Adds S T d) (hact : d.act reach a = some d') :
    Sorted S T D d' := by
  cases a with
  | subscribe peerID ns queue kind =>
    rw [Dispatcher.act, Dispatcher.subscribe] at hact
    split_ifs at hact with hempty
    · obtain rfl := Option.some.inj hact
      exact hd
    push Not at hempty
    refine drainTasks_sorted ⟨h.kept.tables.addSub peerID _, h.kept.kept, h.kept.tokens,
      h.kept.minted⟩ hsend ⟨fun s hs => ?_, hd.waiting, hd.out, hd.delivered⟩ rfl hact
    rcases List.mem_append.mp hs with hs | hs
    · exact hd.subs s hs
    · obtain rfl := List.mem_singleton.mp hs
      exact hadds hempty.2.2
  | unsubscribe subID =>
    obtain rfl := Option.some.inj hact
    unfold Dispatcher.unsubscribe
    split
    · exact hd
    · exact ⟨fun s hs => hd.subs s ((dropSub_sublist _ _).subset hs), hd.waiting, hd.out,
        hd.delivered⟩
  | removePeer peerID =>
    obtain rfl := Option.some.inj hact
    exact ⟨fun s hs => hd.subs s ((foldl_dropSub_sublist _ _).subset hs), hd.waiting, hd.out,
      hd.delivered⟩
  | enqueue principal work => exact enqueue_sorted h hsend hd hadds hact
  | consume kind token =>
    obtain rfl := Option.some.inj hact
    exact ⟨hd.subs, hd.waiting, fun kind' x hx => hd.out kind' x (mem_byToken_of_consume hx),
      hd.delivered⟩

end Sorted

/-! ## Who is sent what -/

section Runs

variable {S : Subscription → Prop} {T : Task → Prop} {D : String × Task → Prop}
  {calls later : List (Action × (Nat → String → Bool))} {d d' : Dispatcher} {p : String} {t : Task}

theorem run_sorted (h : Conserved d) (hsend : ∀ s t, S s → T t → s.key = t.key → D (s.peerID, t))
    (hd : Sorted S T D d) (hadds : ∀ c ∈ calls, ∀ d, c.1.Adds S T d)
    (hrun : d.run calls = some d') : Sorted S T D d' := by
  induction calls generalizing d with
  | nil =>
    obtain rfl := Option.some.inj hrun
    exact hd
  | cons call calls ih =>
    obtain ⟨d₁, hact, h₁⟩ := act_conserved call.2 h call.1
    rw [Dispatcher.run, hact, Option.bind_some] at hrun
    obtain ⟨hadd, hadds⟩ := List.forall_mem_cons.mp hadds
    exact ih h₁ (act_sorted h hsend hd (hadd d) hact) hadds hrun

/-- A task goes only to a peer that asked for its queue and kind, and only work
that was handed in is sent. -/
theorem sent_as_asked (hrun : ({} : Dispatcher).run calls = some d) (hsent : (p, t) ∈ d.delivered) :
    (∃ c ∈ calls, c.1 = .subscribe p t.key.ns t.key.queue t.key.kind) ∧
      ∃ c ∈ calls, c.1 = .enqueue t.principal t.work := by
  let Asked (p : String) (k : SubKey) := ∃ c ∈ calls, c.1 = .subscribe p k.ns k.queue k.kind
  let Given (t : Task) := ∃ c ∈ calls, c.1 = .enqueue t.principal t.work
  have hadds (c) (hc : c ∈ calls) (d) : c.1.Adds (fun s => Asked s.peerID s.key) Given d := by
    obtain ⟨a, reach⟩ := c
    cases a with
    | subscribe => exact fun _ => ⟨_, hc, rfl⟩
    | enqueue => exact ⟨_, hc, rfl⟩
    | _ => trivial
  exact (run_sorted (D := fun x => Asked x.1 x.2.key ∧ Given x.2) conserved_empty
    (fun s t hs ht hkey => ⟨hkey ▸ hs, ht⟩) ⟨nofun, nofun, nofun, nofun⟩ hadds hrun).delivered
    _ hsent

theorem sent_as_asked_handOver :
    ∃ d t, ({} : Dispatcher).run handOver = some d ∧ ("w", t) ∈ d.delivered ∧
      ∃ c ∈ handOver, c.1 = .enqueue t.principal t.work :=
  ⟨_, ⟨0, {}, lostTask⟩, rfl, List.mem_cons_self, (sent_as_asked rfl List.mem_cons_self).2⟩

/-- A peer that was removed is sent nothing more, unless it subscribes again. -/
theorem removed_peer_left_alone (hrun : ({} : Dispatcher).run calls = some d)
    (hlater : (d.removePeer p).run later = some d')
    (hgone : ∀ c ∈ later, ∀ ns queue kind, c.1 ≠ .subscribe p ns queue kind)
    (hsent : (p, t) ∈ d'.delivered) : (p, t) ∈ d.delivered := by
  obtain ⟨d₁, hd₁, h⟩ := run_conserved conserved_empty calls
  obtain rfl := Option.some.inj (hrun.symm.trans hd₁)
  have hremoved : Sorted (fun s => s.peerID ≠ p) (fun _ => True)
      (fun x => x.1 = p → x ∈ d.delivered) (d.removePeer p) := by
    refine ⟨fun s hs => ?_, fun _ _ _ => trivial, fun _ _ _ => trivial, fun x hx _ => hx⟩
    -- the table by peer has no entry of `p` left, and the two tables agree
    have hpeer := ((h.kept.tables.removePeer p).agree s).mp hs
    simpa using (List.mem_filter.mp hpeer).2
  refine (run_sorted (removePeer_conserved h p) (fun s t hs _ _ hp => absurd hp hs) hremoved ?_
    hlater).delivered _ hsent rfl
  rintro ⟨a, reach⟩ hc d
  cases a with
  | subscribe =>
    rintro - rfl
    exact hgone _ hc _ _ _ rfl
  | _ => trivial

theorem removed_peer_left_alone_handOver :
    ∃ d d' t, ({} : Dispatcher).run handOver = some d ∧
      (d.removePeer "w").run handOver.tail = some d' ∧ ("w", t) ∈ d'.delivered ∧
      ("w", t) ∈ d.delivered := by
  have hrun : ({} : Dispatcher).run handOver = some _ := rfl
  have hgone : ∀ c ∈ handOver.tail, ∀ ns queue kind, c.1 ≠ .subscribe "w" ns queue kind := by
    simp [handOver]
  exact ⟨_, _, ⟨0, {}, lostTask⟩, hrun, rfl, List.mem_cons_self,
    removed_peer_left_alone hrun rfl hgone List.mem_cons_self⟩

end Runs

/-! ## Queues and their orgs -/

/-- The queues of a tenant, where `owner` says which org a queue of a namespace
belongs to. -/
def owns (owner : String → String → String) (p : Principal) (ns queue : String) : Prop :=
  owner ns queue = p.org

structure StoredWithin (own : String → String → Prop) (s : Store) : Prop where
  run : ∀ r row, s.get (.wf r) = some row → RunQueue own r.ns row.taskQueue
  activity : ∀ r seq a, s.get (.wfact r seq) = some a → ActivityQueue own r.ns a.taskQueue

theorem StoredWithin.write {own : String → String → Prop} {s : Store} {x : Write}
    (h : StoredWithin own s) (hx : (Effect.write x).Uses own) : StoredWithin own (s.apply x) := by
  refine ⟨fun r row hrow => ?_, fun r seq a ha => ?_⟩
  · rcases Store.get_apply_some hrow with hrow | rfl
    · exact h.run r row hrow
    · exact hx
  · rcases Store.get_apply_some ha with ha | rfl
    · exact h.activity r seq a ha
    · exact hx

variable (owner : String → String → String) (home : String → String)

def Placed (s : Subscription) : Prop :=
  s.key.queue ≠ "" ∧ owner s.key.ns s.key.queue = home s.peerID

def Owned (t : Task) : Prop :=
  t.principal.org ≠ "" → ActivityQueue (owns owner t.principal) t.key.ns t.key.queue

/-- What is about an org's run goes to a peer of the org. -/
def Addressed (x : String × Principal) : Prop := x.2.org ≠ "" → home x.1 = x.2.org

/-- Every queue is used by one org, and so is every peer. -/
structure Server.Private (s : Server) : Prop where
  conserved : Conserved s.disp
  sorted : Sorted (Placed owner home) (Owned owner) (fun x => Addressed home (x.1, x.2.principal))
    s.disp
  stored : ∀ p, p.org ≠ "" → StoredWithin (owns owner p) (s.tenants p).store
  subscribed : ∀ x ∈ s.subscribed, home x.1 = x.2.org
  pushed : ∀ x ∈ s.pushed, Addressed home x

variable {owner home} {reach : Nat → String → Bool} {s : Server} {p : Principal}

theorem addressed_of_owned (sub : Subscription) (t : Task) (hsub : Placed owner home sub)
    (ht : Owned owner t) (hkey : sub.key = t.key) :
    Addressed home (sub.peerID, t.principal) := by
  intro horg
  obtain ⟨hqueue, howner⟩ := hsub
  rw [hkey] at hqueue howner
  rw [← howner]
  exact (ht horg).resolve_left hqueue

/-- A query goes to a subscriber of the run's queue. -/
theorem pushQuery_spec (reach : Nat → String → Bool) (d : Dispatcher) (r : RunRef)
    (queue : String) :
    (∃ rr n, (d.pushQuery reach r queue).2 = { d with rrIdx := rr, sends := n }) ∧
      ∀ peer ∈ (d.pushQuery reach r queue).1,
        ∃ sub ∈ d.subsOf ⟨r.ns, queue, .workflow⟩, sub.peerID = peer := by
  unfold Dispatcher.pushQuery
  split
  · exact ⟨⟨d.rrIdx, d.sends, rfl⟩, nofun⟩
  · next sub d' hpick =>
      obtain ⟨hsub, rr, rfl⟩ := pick_eq_some hpick
      refine ⟨⟨rr, d.sends + 1, rfl⟩, fun peer hpeer => ⟨sub, hsub, ?_⟩⟩
      dsimp only at hpeer
      split_ifs at hpeer
      · exact Option.some.inj hpeer
      · cases hpeer

namespace Server.Private

theorem act (reach : Nat → String → Bool) (h : s.Private owner home)
    (hadds : a.Adds (Placed owner home) (Owned owner) s.disp) :
    (s.act reach a).Private owner home := by
  obtain ⟨d', hact, hconserved⟩ := act_conserved reach h.conserved a
  have hdisp : (s.act reach a).disp = d' := by
    rw [Server.act, hact]
    rfl
  refine ⟨?_, ?_, h.stored, h.subscribed, h.pushed⟩
  · rwa [hdisp]
  · rw [hdisp]
    exact act_sorted h.conserved addressed_of_owned h.sorted hadds hact

/-- A dispatcher that only counts sends and passes the turn on. -/
theorem turn {d : Dispatcher} {n : Nat} {pushed : List (String × Principal)}
    (h : s.Private owner home) (rr : SubKey → Nat)
    (hd : d = { s.disp with rrIdx := rr, sends := n })
    (hpushed : ∀ x ∈ pushed, Addressed home x) :
    Server.Private owner home { s with disp := d, pushed := s.pushed ++ pushed } := by
  subst hd
  refine ⟨?_, ⟨h.sorted.subs, h.sorted.waiting, h.sorted.out, h.sorted.delivered⟩, h.stored,
    h.subscribed, fun x hx => ?_⟩
  · exact h.conserved.shrink (h.conserved.kept.tables.frame rfl rfl rfl) (.refl _) rfl rfl rfl rfl
  · rcases List.mem_append.mp hx with hx | hx
    · exact h.pushed x hx
    · exact hpushed x hx

/-- A subscriber of a queue of the org is a peer of the org. -/
theorem addressed {sub : Subscription} {r : RunRef} {queue : String} (h : s.Private owner home)
    (hqueue : p.org = "" ∨ RunQueue (owns owner p) r.ns queue)
    (hsub : sub ∈ s.disp.subsOf ⟨r.ns, queue, .workflow⟩) : Addressed home (sub.peerID, p) := by
  intro horg
  obtain ⟨hmem, hkey⟩ := List.mem_filter.mp hsub
  have hkey : sub.key = ⟨r.ns, queue, .workflow⟩ := by simpa using hkey
  obtain ⟨-, howner⟩ := h.sorted.subs sub hmem
  rw [hkey] at howner
  rw [← howner]
  exact (hqueue.resolve_left horg).2

theorem tenant {w : World} (h : s.Private owner home)
    (hw : p.org ≠ "" → StoredWithin (owns owner p) w.store) :
    Server.Private owner home { s with tenants := Function.update s.tenants p w } := by
  refine ⟨h.conserved, h.sorted, fun q hq => ?_, h.subscribed, h.pushed⟩
  show StoredWithin _ (Function.update s.tenants p w q).store
  by_cases hqp : q = p
  · subst hqp
    rw [Function.update_self]
    exact hw hq
  · rw [Function.update_of_ne hqp]
    exact h.stored q hq

/-- One access of the view of `p`, which is of no org or keeps to its queues. -/
theorem effect {e : Effect} (h : s.Private owner home) (he : p.org = "" ∨ e.Uses (owns owner p)) :
    (Server.handle reach p e s).2.Private owner home := by
  have hkept : p.org ≠ "" → StoredWithin (owns owner p) (s.tenants p).store := h.stored p
  cases e with
  | enqueueWorkflowTask t => exact h.act reach fun horg => (he.resolve_left horg).activity
  | dispatchActivity t n => exact h.act reach fun horg => he.resolve_left horg
  | completeWorkflowTask token => exact h.act reach (a := .consume .workflow token) trivial
  | resolveActivityToken token => exact h.act reach (a := .consume .activity token) trivial
  | hasSubscribers ns queue => exact h
  | subscribe ns queue => exact h
  | unsubscribe ns queue => exact h
  | pushCancelRequest r queue =>
    refine h.turn s.disp.rrIdx rfl fun x hx => ?_
    obtain ⟨peer, hpeer, rfl⟩ := List.mem_map.mp hx
    obtain ⟨sub, hsub, rfl⟩ := List.mem_map.mp hpeer
    exact h.addressed he (List.fst_mem_of_mem_zipIdx (List.mem_filter.mp hsub).1)
  | pushQuery r queue queryType =>
    obtain ⟨⟨rr, n, hd⟩, hpeer⟩ := pushQuery_spec reach s.disp r queue
    refine h.turn rr hd fun x hx => ?_
    obtain ⟨peer, hmem, rfl⟩ := List.mem_map.mp hx
    obtain ⟨sub, hsub, rfl⟩ := hpeer peer (Option.mem_toList.mp hmem)
    exact h.addressed he hsub
  | write x =>
    refine h.tenant fun horg => ?_
    exact (hkept horg).write (he.resolve_left horg)
  | _ => exact h.tenant hkept

/-- What the view of an org reads is about its queues. -/
theorem tells (h : s.Private owner home) (horg : p.org ≠ "") (e : Effect) :
    e.Tells (owns owner p) (Server.handle reach p e s).1 := by
  have hstored := h.stored p horg
  cases e with
  | get k =>
    cases k with
    | wf r =>
      show Effect.Tells _ (.get (.wf r)) (.ok ((s.tenants p).store.get (.wf r)))
      cases hrow : (s.tenants p).store.get (.wf r) with
      | none => trivial
      | some row => exact hstored.run r row hrow
    | wfact r seq =>
      show Effect.Tells _ (.get (.wfact r seq)) (.ok ((s.tenants p).store.get (.wfact r seq)))
      cases ha : (s.tenants p).store.get (.wfact r seq) with
      | none => trivial
      | some a => exact hstored.activity r seq a ha
    | _ => trivial
  | list q =>
    cases q with
    | rows ns wf =>
      rintro ⟨r, row⟩ hp
      obtain ⟨rfl, -, hrow⟩ := Store.mem_rows.mp hp
      exact ⟨rfl, hstored.run r row hrow⟩
    | _ => trivial
  | _ => trivial

theorem program {α : Type} {Q : α → Prop} {x : Program Effect Effect.Answer α}
    (h : s.Private owner home)
    (hx : p.org ≠ "" → x.Given (Effect.Tells (owns owner p)) (Effect.Uses (owns owner p)) Q) :
    (x.run (Server.handle reach p) s).2.Private owner home := by
  by_cases horg : p.org = ""
  · exact (Program.Given.any x).run (fun _ _ _ => trivial) (fun _ _ _ h => h.effect (.inl horg)) h
  · exact (hx horg).run (fun e s h => h.tells horg e) (fun _ _ he h => h.effect (.inr he)) h

/-- An operation in the view of `p` that names queues of the org only. -/
theorem operation {o : Operation} (h : s.Private owner home)
    (ho : p.org ≠ "" → o.Names (owns owner p) ((s.taskOf o).map fun t => t.key.ns)) :
    ((Engine.program fuel o).run (Server.handle reach p) s).2.Private owner home := by
  by_cases hanswer : ∃ token cmds, o = .respondWorkflow token cmds
  · obtain ⟨token, cmds, rfl⟩ := hanswer
    -- the task is taken first, and all that follows is about its run
    have htaken : (Server.handle reach p (.completeWorkflowTask token) s).2.Private owner home :=
      h.effect (.inr trivial)
    have hns : ∀ t, (Server.handle reach p (.completeWorkflowTask token) s).1 = some t →
        (s.taskOf (.respondWorkflow token cmds)).map (fun t => t.key.ns) = some t.ref.ns := by
      intro t ht
      obtain ⟨task, htask, hwork⟩ := Option.bind_eq_some_iff.mp ht
      rw [show s.taskOf (.respondWorkflow token cmds) = some task from htask, Option.map_some]
      cases hkind : task.work with
      | workflow t' =>
        rw [hkind] at hwork
        obtain rfl := Option.some.inj hwork
        rw [Task.key, hkind, Work.key]
      | activity t' =>
        rw [hkind] at hwork
        cases hwork
    rw [Engine.program, drop, Program.run_bind, respondWorkflow, completeWorkflowTask,
      run_call_bind]
    generalize Server.handle reach p (.completeWorkflowTask token) s = taken at htaken hns ⊢
    obtain ⟨found, s₁⟩ := taken
    cases found with
    | none => exact htaken
    | some t =>
      exact htaken.program fun horg => uses_applyCommands (ho horg t.ref.ns (hns t rfl))
  · refine h.program fun horg => uses_program (ho horg) fun token cmds heq => ?_
    exact hanswer ⟨token, cmds, heq⟩

end Server.Private

/-! ## Along a run -/

/-- A request that keeps every queue to one org and every peer to one org: a peer
subscribes to queues of its org, with its org's token, and what an org asks for
names queues of the org. -/
def Request.Within (owner : String → String → String) (home : String → String) (s : Server) :
    Request → Prop
  | .subscribe org peerID ns queue _ => org ≠ "" → owner ns queue = org ∧ home peerID = org
  | .call org o => org ≠ "" → Keeps (s.viewOf (Server.orgPrincipal org) o) o
  | .answer o => Keeps (s.viewOf .root o) o
  | .internal p o => Keeps (s.viewOf p o) o
  | _ => True
where
  Keeps (p : Principal) (o : Operation) : Prop :=
    p.org ≠ "" → o.Names (owns owner p) ((s.taskOf o).map fun t => t.key.ns)

def Server.WithinAll (owner : String → String → String) (home : String → String)
    (reach : Nat → String → Bool) (fuel : Nat) (s : Server) : List Request → Prop
  | [] => True
  | q :: rest =>
    q.Within owner home s ∧ Server.WithinAll owner home reach fuel (s.serve reach fuel q) rest

theorem Server.Private.serve {q : Request} (h : s.Private owner home) (hq : q.Within owner home s) :
    (s.serve reach fuel q).Private owner home := by
  cases q with
  | subscribe org peerID ns queue kind =>
    rw [Server.serve]
    split_ifs with horg
    · exact h
    · obtain ⟨howner, hhome⟩ := hq horg
      have hact := h.act reach (a := .subscribe peerID ns queue kind)
        fun hqueue => ⟨hqueue, howner.trans hhome.symm⟩
      refine ⟨hact.conserved, hact.sorted, hact.stored, fun x hx => ?_, hact.pushed⟩
      rcases List.mem_append.mp hx with hx | hx
      · exact h.subscribed x hx
      · rw [List.mem_singleton.mp hx]
        exact hhome
  | unsubscribe org subID =>
    rw [Server.serve]
    split_ifs
    · exact h
    · exact h.act reach trivial
  | disconnect peerID => exact h.act reach (a := .removePeer peerID) trivial
  | call org o =>
    rw [Server.serve]
    split_ifs with horg
    · exact h
    · exact h.operation (hq horg)
  | query org target queryType =>
    rw [Server.serve]
    split_ifs
    · exact h
    · exact h.program (Q := Any) fun _ =>
        Program.Given.bind (uses_queryWorkflow target queryType) fun _ _ => trivial
  | answer o => exact h.operation hq
  | internal p o => exact h.operation hq

theorem Server.Private.run {reqs : List Request} (h : s.Private owner home)
    (hreqs : s.WithinAll owner home reach fuel reqs) :
    (s.run reach fuel reqs).Private owner home := by
  induction reqs generalizing s with
  | nil => exact h
  | cons q reqs ih => exact ih (h.serve hreqs.1) hreqs.2

/-- A server that requires identity, on shards whose runs and activities use
queues of their orgs, asked by peers and orgs that each keep to the queues of one
org: a peer that subscribed with the token of an org is sent no task, query or
cancel request about a run of another org. -/
theorem workers_see_own_org (owner : String → String → String) (home : String → String)
    (reach : Nat → String → Bool) (fuel : Nat) (tenants : Process) (reqs : List Request)
    (hstored : ∀ p, p.org ≠ "" → StoredWithin (owns owner p) (tenants p).store)
    (hreqs : (Server.mk tenants {} [] []).WithinAll owner home reach fuel reqs)
    {peer : String} {A B : Principal}
    (hpeer : (peer, B) ∈ ((Server.mk tenants {} [] []).run reach fuel reqs).subscribed)
    (hsent : (peer, A) ∈ ((Server.mk tenants {} [] []).run reach fuel reqs).sent)
    (hA : A.org ≠ "") : A.org = B.org := by
  have hboot : (Server.mk tenants {} [] []).Private owner home :=
    ⟨conserved_empty, ⟨nofun, nofun, nofun, nofun⟩, hstored, nofun, nofun⟩
  have h := hboot.run hreqs
  have haddressed : Addressed home (peer, A) := by
    rcases List.mem_append.mp hsent with hsent | hsent
    · obtain ⟨x, hx, heq⟩ := List.mem_map.mp hsent
      rw [← heq]
      exact h.sorted.delivered x hx
    · exact h.pushed _ hsent
  exact (haddressed hA).symm.trans (h.subscribed _ hpeer)

def served (reqs : List Request) : Server :=
  (Server.mk (fun _ => emptyShard) {} [] []).run (fun _ _ => true) 1 reqs

def workerThenStart (org : String) : List Request :=
  [.subscribe org "w" "n" "default" .workflow, .call "acme" startRun]

theorem workers_see_own_org_acme :
    ("w", Server.orgPrincipal "acme") ∈ (served (workerThenStart "acme")).subscribed ∧
      ("w", Server.orgPrincipal "acme") ∈ (served (workerThenStart "acme")).sent ∧
      (Server.orgPrincipal "acme").org = (Server.orgPrincipal "acme").org := by
  have hpeer : ("w", Server.orgPrincipal "acme") ∈
      (served (workerThenStart "acme")).subscribed := by decide +kernel
  have hsent : ("w", Server.orgPrincipal "acme") ∈ (served (workerThenStart "acme")).sent := by
    decide +kernel
  refine ⟨hpeer, hsent, workers_see_own_org (fun _ _ => "acme") (fun _ => "acme")
    (fun _ _ => true) 1 (fun _ => emptyShard) _ (fun p _ => ⟨?_, ?_⟩) ?_ hpeer hsent (by decide)⟩
  · intro r row hrow
    simp [emptyShard] at hrow
  · intro r seq a ha
    simp [emptyShard] at ha
  · exact ⟨fun _ => ⟨rfl, rfl⟩, fun _ _ => rfl, trivial⟩

/-- A worker that subscribed with the token of globex is sent the task of a run
of acme. -/
theorem worker_of_other_org_served :
    ∃ peer A B, (peer, B) ∈ (served (workerThenStart "globex")).subscribed ∧
      (peer, A) ∈ (served (workerThenStart "globex")).sent ∧ A.org ≠ "" ∧ A.org ≠ B.org :=
  ⟨"w", Server.orgPrincipal "acme", Server.orgPrincipal "globex", by decide +kernel⟩

/-! ## Shards of other tenants -/

/-- No task of `p` is known to the dispatcher, and the shard of `p` is `w`. -/
structure Server.Apart (p : Principal) (w : World) (s : Server) : Prop where
  conserved : Conserved s.disp
  sorted : Sorted (fun _ => True) (fun t => t.principal ≠ p) (fun _ => True) s.disp
  shard : s.tenants p = w

/-- Nothing is asked with the token or in the view of `p`. An answer may come under any
token. -/
def Request.ByOthers (p : Principal) : Request → Prop
  | .call org _ | .query org _ _ => Server.orgPrincipal org ≠ p
  | .internal q _ => q ≠ p
  | _ => True

namespace Server.Apart

variable {reach : Nat → String → Bool} {s : Server} {p q : Principal} {w : World}

theorem act (reach : Nat → String → Bool) (h : s.Apart p w)
    (hadds : a.Adds (fun _ => True) (fun t => t.principal ≠ p) s.disp) :
    (s.act reach a).Apart p w := by
  obtain ⟨d', hact, hconserved⟩ := act_conserved reach h.conserved a
  have hdisp : (s.act reach a).disp = d' := by
    rw [Server.act, hact]
    rfl
  refine ⟨hdisp ▸ hconserved, ?_, h.shard⟩
  rw [hdisp]
  exact act_sorted h.conserved (fun _ _ _ _ _ => trivial) h.sorted hadds hact

theorem turn {d : Dispatcher} {n : Nat} {pushed : List (String × Principal)} (h : s.Apart p w)
    (rr : SubKey → Nat) (hd : d = { s.disp with rrIdx := rr, sends := n }) :
    Server.Apart p w { s with disp := d, pushed := pushed } := by
  subst hd
  exact ⟨h.conserved.shrink (h.conserved.kept.tables.frame rfl rfl rfl) (.refl _) rfl rfl rfl rfl,
    ⟨h.sorted.subs, h.sorted.waiting, h.sorted.out, h.sorted.delivered⟩, h.shard⟩

/-- One access of another view. -/
theorem effect {e : Effect} (h : s.Apart p w) (hq : q ≠ p) :
    (Server.handle reach q e s).2.Apart p w := by
  cases e with
  | enqueueWorkflowTask | dispatchActivity => exact h.act reach hq
  | completeWorkflowTask token => exact h.act reach (a := .consume .workflow token) trivial
  | resolveActivityToken token => exact h.act reach (a := .consume .activity token) trivial
  | hasSubscribers | subscribe | unsubscribe => exact h
  | pushCancelRequest r queue => exact h.turn s.disp.rrIdx rfl
  | pushQuery r queue queryType =>
    obtain ⟨⟨rr, n, hd⟩, -⟩ := pushQuery_spec reach s.disp r queue
    exact h.turn rr hd
  | _ => exact ⟨h.conserved, h.sorted, (Function.update_of_ne hq.symm _ _).trans h.shard⟩

theorem program {α : Type} (x : Program Effect Effect.Answer α) (h : s.Apart p w) (hq : q ≠ p) :
    (x.run (Server.handle reach q) s).2.Apart p w :=
  (Program.Given.any x).run (fun _ _ _ => trivial) (fun _ _ _ h => h.effect hq) h

/-- An answer goes to the tenant of a task that is out, which is not `p`. -/
theorem viewOf_ne (h : s.Apart p w) (hq : q ≠ p) (o : Operation) : s.viewOf q o ≠ p := by
  rw [viewOf]
  cases htask : s.taskOf o with
  | none => exact hq
  | some t =>
    cases o with
    | respondWorkflow | respondActivityCompleted | respondActivityFailed =>
      exact h.sorted.out _ t (List.mem_of_find?_eq_some htask)
    | _ => cases htask

theorem serve {r : Request} (hp : p ≠ .root) (h : s.Apart p w) (hr : r.ByOthers p) :
    (s.serve reach fuel r).Apart p w := by
  cases r with
  | subscribe org peerID ns queue kind =>
    rw [Server.serve]
    split_ifs
    · exact h
    · have hact := h.act reach (a := .subscribe peerID ns queue kind) fun _ => trivial
      exact ⟨hact.conserved, hact.sorted, hact.shard⟩
  | unsubscribe org subID =>
    rw [Server.serve]
    split_ifs
    · exact h
    · exact h.act reach trivial
  | disconnect peerID => exact h.act reach (a := .removePeer peerID) trivial
  | call org o =>
    rw [Server.serve]
    split_ifs
    · exact h
    · exact h.program _ (h.viewOf_ne hr o)
  | query org target queryType =>
    rw [Server.serve]
    split_ifs
    · exact h
    · exact h.program _ hr
  | answer o => exact h.program _ (h.viewOf_ne hp.symm o)
  | internal q o => exact h.program _ (h.viewOf_ne hr o)

theorem run {reqs : List Request} (hp : p ≠ .root) (h : s.Apart p w)
    (hreqs : ∀ r ∈ reqs, r.ByOthers p) : (s.run reach fuel reqs).Apart p w := by
  induction reqs generalizing s with
  | nil => exact h
  | cons r reqs ih =>
    obtain ⟨hr, hreqs⟩ := List.forall_mem_cons.mp hreqs
    exact ih (h.serve hp hr) hreqs

end Server.Apart

/-- Whatever others ask for and whatever workers answer, the shard of a tenant in
whose name nothing is asked stays as it is. -/
theorem shard_left_alone (reach : Nat → String → Bool) (fuel : Nat) (tenants : Process)
    {p : Principal} (hp : p ≠ .root) {reqs : List Request} (hreqs : ∀ r ∈ reqs, r.ByOthers p) :
    ((Server.mk tenants {} [] []).run reach fuel reqs).tenants p = tenants p := by
  have hboot : (Server.mk tenants {} [] []).Apart p (tenants p) :=
    ⟨conserved_empty, ⟨nofun, nofun, nofun, nofun⟩, rfl⟩
  exact (hboot.run hp hreqs).shard

theorem shard_left_alone_globex :
    (served (workerThenStart "globex" ++ [.answer (.respondWorkflow 0 [])])).tenants
      (Server.orgPrincipal "globex") = emptyShard :=
  shard_left_alone _ _ _ (by decide)
    (by simp [workerThenStart, Request.ByOthers, Server.orgPrincipal])

end DurableTasks.Dispatch
