import DurableTasks.Replication.Shard

/-!
A shard is migrated while it is written to. `Migrate` puts a pair of frames around
a checkpoint and a copy of the file; the frames change nothing, so the writers are
not held off.
-/

namespace DurableTasks.Replication

variable (R : SegmentRule) {op : FrameOp} {m : Machine}

inductive Replicating where
  | absent
  | localReplicator
  | quasarReplicator

/-- The driver, with what the consensus engine answers this time. -/
def Replicating.driver (c : Consensus) : Replicating → Driver
  | .absent => .absent
  | .localReplicator => .localReplicator
  | .quasarReplicator => .quasarReplicator c

/-- `Propose` as `Migrate` calls it: only the error counts, and without a
replicator there is nothing to propose. -/
def Driver.propose (d : Driver) (m : Machine) (f : Frame) (n : Node) : Option String × Node :=
  match d with
  | .absent => (none, n)
  | .localReplicator =>
    let ((_, err), n) := proposeLocal R m f n
    (err, n)
  | .quasarReplicator c =>
    let ((_, err), n) := proposeQuasar R c m f n
    (err, n)

variable {R}

structure Job where
  id : String
  target : List UInt8

def Job.frame (j : Job) (s : Shard R) (op : FrameOp) : Frame :=
  { principal := s.principal.text, ns := s.ns, op, key := s!"__migration/{j.id}",
    value := j.target }

inductive Stage where
  | locking
  | opening
  | checkpointing
  | copying
  | unlocking
  | released
  | failed
deriving DecidableEq

def Stage.Holding : Stage → Prop
  | .opening | .checkpointing | .copying | .unlocking => True
  | .locking | .released | .failed => False

instance : (g : Stage) → Decidable g.Holding
  | .opening | .checkpointing | .copying | .unlocking => inferInstanceAs (Decidable True)
  | .locking | .released | .failed => inferInstanceAs (Decidable False)

structure Call where
  write : Mutation
  result : Option (Except String Unit) := none
  returned : Bool := false

/-- The shard's node, the shard's file and its copy, the migration and the calls.
`log` lists the writes that were stored, in their order; `acked` the calls that
returned nil before the unlock, and `slipped` those that were not refused between
the lock and the unlock. -/
structure Site where
  node : Node
  file : Rows := fun _ => none
  copy : Option Rows := none
  stage : Stage := .locking
  locked : Bool := false
  calls : List Call := []
  log : List (Nat × Mutation) := []
  acked : List Nat := []
  slipped : List Nat := []

inductive SiteEvent where
  | call (w : Mutation)
  /-- The call proposes its frame, on a handle that may have been closed. -/
  | carry (k : Nat) (closed : Bool) (c : Consensus) (m : Machine)
  | ret (k : Nat)
  /-- The file is sealed by the sweep of the manager, or by a close. -/
  | sweep
  /-- The next stage of `Migrate`; `io` is the error of the checkpoint or copy. -/
  | migrate (c : Consensus) (m : Machine) (io : Option String)

variable (s : Shard R) (r : Replicating) (j : Job)

/-- One stage of `Migrate`. A failure after the lock leaves it there. -/
def Site.migrate (c : Consensus) (m : Machine) (io : Option String) (x : Site) : Site :=
  match x.stage with
  | .locking =>
    if s.ns = "" then { x with stage := .failed }
    else
      match (r.driver c).propose R m (j.frame s .migrationLock) x.node with
      | (some _, n) => { x with node := n, stage := .failed }
      | (none, n) => { x with node := n, stage := .opening, locked := !(r matches .absent) }
  | .opening =>
    match Principal.parse R s.principal.text with
    | .error _ => { x with stage := .failed }
    | .ok p =>
      match x.node.get R m p s.ns with
      | .error _ => { x with stage := .failed }
      | .ok () => { x with stage := .checkpointing }
  | .checkpointing =>
    match io with
    | some _ => { x with stage := .failed }
    | none => { x with file := s.rows x.node, stage := .copying }
  | .copying =>
    match io with
    | some _ => { x with stage := .failed }
    | none => { x with copy := some x.file, stage := .unlocking }
  | .unlocking =>
    match (r.driver c).propose R m (j.frame s .migrationUnlock) x.node with
    | (some _, n) => { x with node := n, stage := .failed }
    | (none, n) => { x with node := n, stage := .released, locked := false }
  | .released | .failed => x

/-- A call is carried out, by the model of `Put` and `Del`. -/
def Site.carry (k : Nat) (call : Call) (closed : Bool) (c : Consensus) (m : Machine) (x : Site) :
    Site :=
  let handle : Shard R := { s with closed }
  let (result, n) := handle.write (r.driver c) m call.write x.node
  { x with
    node := n
    calls := x.calls.set k { call with result := some result }
    log := if handle.Reaches (r.driver c) m x.node then x.log ++ [(k, call.write)] else x.log
    slipped := if x.stage.Holding ∧ (result matches .ok ()) then x.slipped ++ [k] else x.slipped }

def Site.ret (k : Nat) (call : Call) (result : Except String Unit) (x : Site) : Site :=
  { x with
    calls := x.calls.set k { call with returned := true }
    acked := if (result matches .ok ()) ∧ x.stage ≠ .released then x.acked ++ [k] else x.acked }

/-- What cannot happen changes nothing. -/
def Site.step (x : Site) : SiteEvent → Site
  | .call w => { x with calls := x.calls ++ [{ write := w }] }
  | .carry k closed c m =>
    match x.calls[k]? with
    | none => x
    | some call => if call.result.isNone then x.carry s r k call closed c m else x
  | .ret k =>
    match x.calls[k]? with
    | none => x
    | some call =>
      match call.result with
      | none => x
      | some result => if call.returned then x else x.ret k call result
  | .sweep => { x with file := s.rows x.node }
  | .migrate c m io => x.migrate s r j c m io

def replay (rows : Rows) (log : List (Nat × Mutation)) : Rows :=
  log.foldl (fun rows entry => entry.2.rows rows) rows

/-- What the barrier is for. -/
structure Site.Barrier (start : Rows) (x : Site) : Prop where
  contained : x.stage = .released → ∃ log, log <+: x.log ∧ x.copy = some (replay start log) ∧
    ∀ k ∈ x.acked, k ∈ log.map Prod.fst
  refused : x.slipped = []
  unlocked : x.stage = .released ∨ x.stage = .failed → x.locked = false

def Driver.Accepts (d : Driver) (m : Machine) (n : Node) : Prop :=
  match d with
  | .absent => True
  | .localReplicator => n.closed = false ∧ m.opening = none
  | .quasarReplicator c => c.add = none ∧ c.accepted = true

def Site.Proceeds (c : Consensus) (m : Machine) (io : Option String) (x : Site) : Prop :=
  match x.stage with
  | .opening => x.node.closed = false ∧ m.opening = none
  | .checkpointing | .copying => io = none
  | .unlocking => (r.driver c).Accepts m x.node
  | .locking | .released | .failed => True

/-- No write is carried out between lock and unlock, or dropped by the replicator;
and where the lock was taken, the migration does not fail. -/
def Site.Calm (x : Site) : SiteEvent → Prop
  | .carry _ closed c m =>
    ¬x.stage.Holding ∧ ¬Shard.Drops { s with closed } (r.driver c) m x.node
  | .migrate c m io => x.locked = true → x.Proceeds r c m io
  | .call _ | .ret _ | .sweep => True

def Site.CalmRun (x : Site) : List SiteEvent → Prop
  | [] => True
  | e :: es => x.Calm s r e ∧ (x.step s r j e).CalmRun es

/-! ## The barrier without concurrent writes -/

variable {s r j}

/-- The handler looks the shard up for a frame of the barrier, and that is all. -/
theorem Job.handle_frame (j : Job) (m : Machine) (n : Node)
    (hop : op = .migrationLock ∨ op = .migrationUnlock) :
    n.handle R m (j.frame s op) = (n.get R m s.principal s.ns, n) := by
  have hparse : Principal.parse R (j.frame s op).principal = .ok s.principal :=
    Principal.parse_text s.valid
  have hns : (j.frame s op).ns = s.ns := rfl
  have happly : n.applyFrame m s.principal s.ns (j.frame s op) = (.ok (), n) := by
    rcases hop with rfl | rfl <;> rfl
  rw [Node.handle, hparse, hns]
  cases hget : n.get R m s.principal s.ns with
  | error err => simp only [hget]
  | ok u => simp only [hget, happly]

theorem Driver.propose_barrier_node (d : Driver) (j : Job) (m : Machine) (n : Node)
    (hop : op = .migrationLock ∨ op = .migrationUnlock) :
    (d.propose R m (j.frame s op) n).2 = n := by
  cases d with
  | absent => rfl
  | localReplicator =>
    simp only [Driver.propose, proposeLocal, j.handle_frame m n hop]
    cases n.get R m s.principal s.ns <;> rfl
  | quasarReplicator c =>
    simp only [Driver.propose, proposeQuasar, j.handle_frame m n hop]
    cases c.add <;> cases c.accepted <;> rfl

theorem Driver.propose_barrier_ok {d : Driver} (j : Job) {n : Node}
    (hop : op = .migrationLock ∨ op = .migrationUnlock) (h : d.Accepts m n) :
    (d.propose R m (j.frame s op) n).1 = none := by
  cases d with
  | absent => rfl
  | localReplicator =>
    obtain ⟨hclosed, hopening⟩ := h
    simp only [Driver.propose, proposeLocal, j.handle_frame m n hop, s.get_eq, hclosed, hopening]
    rfl
  | quasarReplicator c =>
    obtain ⟨hadd, haccepted⟩ := h
    simp only [Driver.propose, proposeQuasar, hadd, haccepted, if_true]

/-- What holds of a site whose events have all been calm. -/
structure Site.Sound (s : Shard R) (start : Rows) (x : Site) : Prop where
  replayed : s.rows x.node = replay start x.log
  logged : ∀ k call, x.calls[k]? = some call → call.result = some (.ok ()) →
    k ∈ x.log.map Prod.fst
  acked : ∀ k ∈ x.acked, k ∈ x.log.map Prod.fst
  file : x.stage = .copying → x.file = s.rows x.node
  copy : x.stage = .unlocking → x.copy = some (s.rows x.node)
  locked : x.locked = true → x.stage.Holding
  barrier : x.Barrier start

variable {start : Rows} {x : Site}

theorem Site.Sound.unlocked (h : x.Sound s start) (hstage : ¬x.stage.Holding) :
    x.locked = false := by
  by_contra hlocked
  exact hstage (h.locked (Bool.eq_true_of_not_eq_false hlocked))

/-- The migration moves on, to a stage whose file and copy are up to date. -/
theorem Site.Sound.moved (h : x.Sound s start) {stage : Stage} {file : Rows} {copy : Option Rows}
    {locked : Bool} (hfile : stage = .copying → file = s.rows x.node)
    (hcopy : stage = .unlocking ∨ stage = .released → copy = some (s.rows x.node))
    (hlocked : locked = true → stage.Holding) :
    Site.Sound s start { x with stage, file, copy, locked } where
  replayed := h.replayed
  logged := h.logged
  acked := h.acked
  file := hfile
  copy hstage := hcopy (.inl hstage)
  locked := hlocked
  barrier :=
    { contained := fun hstage => by
        refine ⟨x.log, List.prefix_rfl, ?_, h.acked⟩
        rw [← h.replayed]
        exact hcopy (.inr hstage)
      refused := h.barrier.refused
      unlocked := fun hstage => by
        by_contra hcon
        have hholding := hlocked (Bool.eq_true_of_not_eq_false hcon)
        rcases hstage with hstage | hstage <;>
          · rw [show stage = _ from hstage] at hholding
            exact hholding }

theorem Site.Sound.failed (h : x.Sound s start) (hlocked : x.locked = false) :
    Site.Sound s start { x with stage := .failed } := by
  refine h.moved ?_ ?_ ?_
  · intro hstage
    cases hstage
  · rintro (hstage | hstage) <;> cases hstage
  · intro hlock
    rw [hlocked] at hlock
    cases hlock

/-- Where the lock was taken the next stage goes well, so that a failure leaves no
lock. -/
theorem Site.Sound.migrate (h : x.Sound s start) {c : Consensus} {io : Option String}
    (hcalm : x.locked = true → x.Proceeds r c m io) : (x.migrate s r j c m io).Sound s start := by
  unfold Site.Proceeds at hcalm
  cases hstage : x.stage with
  | locking =>
    have hnode := (r.driver c).propose_barrier_node (s := s) j m x.node (.inl rfl)
    have hfailed := h.failed (h.unlocked (by rw [hstage]; exact id))
    simp only [Site.migrate, hstage]
    split_ifs
    · exact hfailed
    · rcases hpropose : (r.driver c).propose R m (j.frame s .migrationLock) x.node
        with ⟨_ | err, n⟩ <;> obtain rfl : n = x.node := by rw [← hnode, hpropose]
      · refine h.moved ?_ ?_ fun _ => trivial
        · intro hstage
          cases hstage
        · rintro (hstage | hstage) <;> cases hstage
      · exact hfailed
  | opening =>
    rw [hstage] at hcalm
    simp only [Site.migrate, hstage, Principal.parse_text s.valid]
    cases hget : x.node.get R m s.principal s.ns with
    | ok u =>
      refine h.moved ?_ ?_ fun _ => trivial
      · intro hstage
        cases hstage
      · rintro (hstage | hstage) <;> cases hstage
    | error err => grind [h.failed, s.get_eq]
  | checkpointing =>
    rw [hstage] at hcalm
    simp only [Site.migrate, hstage]
    cases io with
    | none =>
      refine h.moved (fun _ => rfl) ?_ fun _ => trivial
      rintro (hstage | hstage) <;> cases hstage
    | some err =>
      refine h.failed ?_
      by_contra hlocked
      cases hcalm (Bool.eq_true_of_not_eq_false hlocked)
  | copying =>
    rw [hstage] at hcalm
    simp only [Site.migrate, hstage]
    cases io with
    | none =>
      refine h.moved ?_ (fun _ => ?_) fun _ => trivial
      · intro hstage
        cases hstage
      · rw [h.file hstage]
    | some err =>
      refine h.failed ?_
      by_contra hlocked
      cases hcalm (Bool.eq_true_of_not_eq_false hlocked)
  | unlocking =>
    have hnode := (r.driver c).propose_barrier_node (s := s) j m x.node (.inr rfl)
    rw [hstage] at hcalm
    simp only [Site.migrate, hstage]
    rcases hpropose : (r.driver c).propose R m (j.frame s .migrationUnlock) x.node
      with ⟨_ | err, n⟩ <;> obtain rfl : n = x.node := by rw [← hnode, hpropose]
    · refine h.moved ?_ (fun _ => h.copy hstage) ?_
      · intro hstage
        cases hstage
      · intro hlocked
        cases hlocked
    · refine h.failed ?_
      by_contra hlocked
      have hok := Driver.propose_barrier_ok (s := s) j (.inr rfl)
        (hcalm (Bool.eq_true_of_not_eq_false hlocked))
      rw [hpropose] at hok
      cases hok
  | released =>
    simp only [Site.migrate, hstage]
    exact h
  | failed =>
    simp only [Site.migrate, hstage]
    exact h

theorem replay_append (start : Rows) (log log' : List (Nat × Mutation)) :
    replay start (log ++ log') = replay (replay start log) log' :=
  List.foldl_append

/-- A call that is carried out outside the barrier. If it reports success, it is in
the log. -/
theorem Site.Sound.carry (h : x.Sound s start) {k : Nat} {call : Call}
    (hk : x.calls[k]? = some call) {closed : Bool} {c : Consensus} (hholding : ¬x.stage.Holding)
    (hdrops : ¬Shard.Drops { s with closed } (r.driver c) m x.node) :
    (x.carry s r k call closed c m).Sound s start := by
  have hlt : k < x.calls.length := (List.getElem?_eq_some_iff.mp hk).1
  have hstage : x.stage ≠ .copying ∧ x.stage ≠ .unlocking := by
    constructor <;>
    · intro hstage
      rw [hstage] at hholding
      exact hholding trivial
  by_cases hreaches : Shard.Reaches { s with closed } (r.driver c) m x.node
  · have hwrite := Shard.write_of_reaches hreaches call.write
    simp only [Site.carry, hwrite, hreaches, if_true, hholding, false_and, if_false]
    have hsub : ∀ i ∈ x.log.map Prod.fst, i ∈ (x.log ++ [(k, call.write)]).map Prod.fst := by
      intro i hi
      rw [List.map_append]
      exact List.mem_append_left _ hi
    refine ⟨?_, fun i call' hi hok => ?_, fun i hi => hsub i (h.acked i hi),
      fun hcopying => absurd hcopying hstage.1, fun hunlocking => absurd hunlocking hstage.2,
      h.locked, fun hreleased => ?_, h.barrier.refused, h.barrier.unlocked⟩
    · rw [replay_append, ← h.replayed]
      exact Shard.rows_stored { s with closed } call.write x.node
    · grind [h.logged]
    · obtain ⟨log, hprefix, hcopy, hacked⟩ := h.barrier.contained hreleased
      exact ⟨log, hprefix.trans (List.prefix_append _ _), hcopy, hacked⟩
  · obtain ⟨err, hwrite⟩ := Shard.write_of_refused hreaches hdrops call.write
    simp only [Site.carry, hwrite, hreaches, if_false, hholding, false_and]
    refine ⟨h.replayed, fun i call' hi hok => ?_, h.acked, h.file, h.copy, h.locked,
      h.barrier.contained, h.barrier.refused, h.barrier.unlocked⟩
    by_cases hik : i = k
    · subst hik
      rw [List.getElem?_set_self hlt] at hi
      obtain rfl := Option.some.inj hi
      cases hok
    · rw [List.getElem?_set_ne (Ne.symm hik)] at hi
      exact h.logged i call' hi hok

theorem Site.Sound.ret (h : x.Sound s start) {k : Nat} {call : Call}
    (hk : x.calls[k]? = some call) {result : Except String Unit}
    (hresult : call.result = some result) : (x.ret k call result).Sound s start := by
  have hlt : k < x.calls.length := (List.getElem?_eq_some_iff.mp hk).1
  refine ⟨h.replayed, fun i call' hi hok => ?_, fun i hi => ?_, h.file, h.copy, h.locked,
    fun hreleased => ?_, h.barrier.refused, h.barrier.unlocked⟩
  · by_cases hik : i = k
    · subst hik
      simp only [Site.ret, List.getElem?_set_self hlt] at hi
      obtain rfl := Option.some.inj hi
      exact h.logged i call hk hok
    · simp only [Site.ret, List.getElem?_set_ne (Ne.symm hik)] at hi
      exact h.logged i call' hi hok
  · simp only [Site.ret] at hi
    split_ifs at hi with hok
    · rcases List.mem_append.mp hi with hi | hi
      · exact h.acked i hi
      · rw [List.mem_singleton.mp hi]
        refine h.logged k call hk ?_
        cases result with
        | ok u => exact hresult
        | error err => exact absurd hok.1 (by simp)
    · exact h.acked i hi
  · -- the migration is over: the call is not counted
    have hreleased' : x.stage = .released := hreleased
    simp only [Site.ret, hreleased', ne_eq, not_true_eq_false, and_false, if_false]
    exact h.barrier.contained hreleased'

theorem Site.Sound.step (h : x.Sound s start) {e : SiteEvent} (hcalm : x.Calm s r e) :
    (x.step s r j e).Sound s start := by
  cases e with
  | call w =>
    refine ⟨h.replayed, fun k call hk hok => ?_, h.acked, h.file, h.copy, h.locked,
      h.barrier.contained, h.barrier.refused, h.barrier.unlocked⟩
    simp only [Site.step] at hk
    rcases Nat.lt_or_ge k x.calls.length with hlt | hge
    · rw [List.getElem?_append_left hlt] at hk
      exact h.logged k call hk hok
    · grind
  | carry k closed c m =>
    simp only [Site.step]
    cases hk : x.calls[k]? with
    | none => exact h
    | some call =>
      dsimp only
      split_ifs
      · exact h.carry hk hcalm.1 hcalm.2
      · exact h
  | ret k =>
    simp only [Site.step]
    cases hk : x.calls[k]? with
    | none => exact h
    | some call => grind [h.ret]
  | sweep =>
    exact ⟨h.replayed, h.logged, h.acked, fun _ => rfl, h.copy, h.locked, h.barrier.contained,
      h.barrier.refused, h.barrier.unlocked⟩
  | migrate c m io => exact h.migrate hcalm

def Site.fresh (node : Node) (file : Rows) : Site := { node, file }

theorem Site.sound_fresh (node : Node) (file : Rows) :
    (Site.fresh node file).Sound s (s.rows node) := by
  refine ⟨rfl, ?_, ?_, ?_, ?_, ?_, ?_, rfl, fun _ => rfl⟩
  · intro k call hk
    simp [Site.fresh] at hk
  · intro k hk
    cases hk
  all_goals
    intro hstage
    cases hstage

theorem Site.Sound.run {es : List SiteEvent} (h : x.Sound s start) (hcalm : x.CalmRun s r j es) :
    (es.foldl (Site.step s r j) x).Sound s start := by
  induction es generalizing x with
  | nil => exact h
  | cons e es ih => exact ih (h.step hcalm.1) hcalm.2

/-- A migration is a barrier if no write is carried out while it is under way, no
write is dropped by quasar, and nothing fails once the lock is taken. -/
theorem migration_barrier (s : Shard R) (r : Replicating) (j : Job) (node : Node) (file : Rows)
    (es : List SiteEvent) (hcalm : (Site.fresh node file).CalmRun s r j es) :
    (es.foldl (Site.step s r j) (Site.fresh node file)).Barrier (s.rows node) :=
  ((Site.sound_fresh node file).run hcalm).barrier

def toNodeB : Job where
  id := "m"
  target := [98]

def quietEvents : List SiteEvent :=
  [.call (.put "k" [1]), .carry 0 false {} {}, .ret 0, .migrate {} {} none, .migrate {} {} none,
    .migrate {} {} none, .migrate {} {} none, .migrate {} {} none]

theorem migration_barrier_quiet :
    let x := quietEvents.foldl (Site.step rootShard .localReplicator toNodeB)
      (.fresh {} fun _ => none)
    x.stage = .released ∧ x.acked = [0] ∧ x.Barrier fun _ => none := by
  refine ⟨by decide +kernel, by decide +kernel,
    migration_barrier rootShard .localReplicator toNodeB {} (fun _ => none) quietEvents ?_⟩
  refine ⟨trivial, ⟨id, ?_⟩, trivial, fun _ => trivial, fun _ => ⟨rfl, rfl⟩, fun _ => rfl,
    fun _ => rfl, fun _ => ⟨rfl, rfl⟩, trivial⟩
  rintro ⟨-, c, hc, -⟩
  cases hc

def racingEvents : List SiteEvent :=
  [.migrate {} {} none, .migrate {} {} none, .migrate {} {} none, .migrate {} {} none,
    .call (.put "k" [1]), .carry 0 false {} {}, .ret 0, .migrate {} {} none]

def failingEvents : List SiteEvent :=
  [.migrate {} {} none, .migrate {} {} none, .migrate {} {} (some "disk I/O error")]

/-- The first migration is released without a write that had returned; the second
keeps the lock. -/
theorem migration_barrier_broken :
    let run := fun es => List.foldl (Site.step rootShard .localReplicator toNodeB)
      (.fresh {} fun _ => none) es
    ((run racingEvents).stage = .released ∧ (run racingEvents).acked = [0] ∧
      (run racingEvents).slipped = [0] ∧
      (run racingEvents).copy.bind (fun rows => rows "k") = none ∧
      ¬(run racingEvents).Barrier fun _ => none) ∧
    (run failingEvents).stage = .failed ∧ (run failingEvents).locked = true := by
  intro run
  have hslipped : (run racingEvents).slipped = [0] := by decide +kernel
  refine ⟨⟨by decide +kernel, by decide +kernel, hslipped, by decide +kernel, fun h => ?_⟩,
    by decide +kernel, by decide +kernel⟩
  rw [h.refused] at hslipped
  cases hslipped

end DurableTasks.Replication
