import DurableTasks.Tenancy.Principal

/-!
Writes to a shard: through no replicator, the local one, or quasar. A write is
proposed as a frame; the frame comes back through a handler that looks its shard
up again and applies it there.
-/

namespace DurableTasks.Replication

/-- What an operation does on a replica. The last two are the barrier of a
migration. -/
inductive FrameOp where
  | put
  | del
  | migrationLock
  | migrationUnlock
  | other (op : String)
deriving DecidableEq

structure Frame where
  principal : String
  ns : String
  seq : Nat := 0
  op : FrameOp
  key : String
  value : List UInt8 := []

abbrev Rows := String → Option (List UInt8)

/-- The shards of a node, by principal and namespace, and whether its manager is
closed. -/
structure Node where
  shards : Principal × String → Rows := fun _ _ => none
  closed : Bool := false

/-- What the machine answers to the accesses of one write: the error of opening a
shard, and that of the statement on its database. A statement that fails changes
nothing. -/
structure Machine where
  opening : Option String := none
  exec : Option String := none

def errClosed : String := "store: manager closed"

def errUserLeg : String :=
  "store: the shared namespace layout has no place for a user-scoped shard; " ++
    "scope to the org or its project"

def errRejected : String := "replication: frame rejected by quorum"

def errTimeout : String := "replication: consensus timeout"

variable (R : SegmentRule)

/-- `Manager.Get`, as far as its error goes. The layout has no place for a user's
shard. -/
def Node.get (m : Machine) (n : Node) (p : Principal) (ns : String) : Except String Unit := do
  if n.closed then throw errClosed
  if let .error err := R.validName ns then throw s!"store.Get: namespace: {err}"
  p.valid R
  if p.user ≠ "" then throw s!"{errUserLeg}: {p.text}"
  if let some err := m.opening then throw err

def FrameOp.rows (op : FrameOp) (key : String) (value : List UInt8) (rows : Rows) : Rows :=
  match op with
  | .put => Function.update rows key (some value)
  | .del => Function.update rows key none
  | _ => rows

def Node.exec (m : Machine) (n : Node) (p : Principal) (ns : String) (f : Rows → Rows) :
    Except String Unit × Node :=
  match m.exec with
  | some err => (.error err, n)
  | none => (.ok (), { n with shards := Function.update n.shards (p, ns) (f (n.shards (p, ns))) })

/-- `applyFrame`, on the shard of `p` and `ns`. -/
def Node.applyFrame (m : Machine) (n : Node) (p : Principal) (ns : String) (f : Frame) :
    Except String Unit × Node :=
  match f.op with
  | .put | .del => n.exec m p ns (f.op.rows f.key f.value)
  | .migrationLock | .migrationUnlock => (.ok (), n)
  | .other op => (.error s!"store.applyFrame: unknown op {op.quote}", n)

/-- The handler `WithReplicator` subscribes. -/
def Node.handle (m : Machine) (n : Node) (f : Frame) : Except String Unit × Node :=
  match Principal.parse R f.principal with
  | .error err => (.error err, n)
  | .ok p =>
    match n.get R m p f.ns with
    | .error err => (.error err, n)
    | .ok () => n.applyFrame m p f.ns f

/-! ## Drivers -/

inductive Decision where
  | undecided
  | accept
  | reject
  | timeout
deriving DecidableEq

/-- How the consensus engine answers a proposal: the error of `Add`, and whether
a poll finds the block accepted before the deadline; if not, the error of the
context where that ended first. -/
structure Consensus where
  add : Option String := none
  accepted : Bool := true
  canceled : Option String := none

inductive Driver where
  | absent
  | localReplicator
  | quasarReplicator (c : Consensus)

def proposeLocal (m : Machine) (f : Frame) (n : Node) : (Decision × Option String) × Node :=
  match n.handle R m f with
  | (.error err, n) => ((.reject, some err), n)
  | (.ok (), n) => ((.accept, none), n)

/-- `QuasarReplicator.Propose`. The errors of its handler are dropped
(`applyAccepted`). -/
def proposeQuasar (c : Consensus) (m : Machine) (f : Frame) (n : Node) :
    (Decision × Option String) × Node :=
  match c.add with
  | some err => ((.reject, some s!"quasar: engine.Add: {err}"), n)
  | none =>
    if c.accepted then ((.accept, none), (n.handle R m f).2)
    else ((.timeout, some (c.canceled.getD errTimeout)), n)

def Decision.result : Decision × Option String → Except String Unit
  | (_, some err) => .error err
  | (.accept, none) => .ok ()
  | (.reject, none) => .error errRejected
  | (_, none) => .error errTimeout

structure Shard where
  principal : Principal
  ns : String
  valid : principal.Valid R
  named : R.validName ns = .ok ()
  noUser : principal.user = ""
  closed : Bool := false

inductive Mutation where
  | put (key : String) (value : List UInt8)
  | del (key : String)

def Mutation.rows : Mutation → Rows → Rows
  | .put key value, rows => Function.update rows key (some value)
  | .del key, rows => Function.update rows key none

variable {R}

def Shard.frame (s : Shard R) : Mutation → Frame
  | .put key value => { principal := s.principal.text, ns := s.ns, op := .put, key, value }
  | .del key => { principal := s.principal.text, ns := s.ns, op := .del, key }

def Shard.write (s : Shard R) (d : Driver) (m : Machine) (w : Mutation) (n : Node) :
    Except String Unit × Node :=
  if s.closed then (.error errClosed, n)
  else
    match d with
    | .absent => n.exec m s.principal s.ns w.rows
    | .localReplicator =>
      let (decision, n) := proposeLocal R m (s.frame w) n
      (Decision.result decision, n)
    | .quasarReplicator c =>
      let (decision, n) := proposeQuasar R c m (s.frame w) n
      (Decision.result decision, n)

def Shard.rows (s : Shard R) (n : Node) : Rows := n.shards (s.principal, s.ns)

/-- A write that returned nil is stored, and one that returned an error is
not. -/
def Shard.Stored (s : Shard R) (d : Driver) (m : Machine) (w : Mutation) (n : Node) : Prop :=
  match (s.write d m w n).1 with
  | .ok () => s.rows (s.write d m w n).2 = w.rows (s.rows n)
  | .error _ => s.rows (s.write d m w n).2 = s.rows n

/-! ## What becomes of a write -/

variable {s : Shard R} {m : Machine} {w : Mutation} {n : Node}

theorem Shard.get_eq (s : Shard R) (m : Machine) (n : Node) :
    n.get R m s.principal s.ns =
      if n.closed then .error errClosed else
        match m.opening with
        | some err => .error err
        | none => .ok () := by
  unfold Node.get
  cases n.closed with
  | true => rfl
  | false =>
    rw [s.named, s.valid, s.noUser]
    cases m.opening <;> rfl

/-- The frame of a write finds its way back to the shard. -/
theorem Shard.handle_frame (s : Shard R) (m : Machine) (w : Mutation) (n : Node) :
    n.handle R m (s.frame w) =
      match n.get R m s.principal s.ns with
      | .error err => (.error err, n)
      | .ok () => n.exec m s.principal s.ns w.rows := by
  have hprincipal : (s.frame w).principal = s.principal.text := by cases w <;> rfl
  have hns : (s.frame w).ns = s.ns := by cases w <;> rfl
  have happly : n.applyFrame m s.principal s.ns (s.frame w) =
      n.exec m s.principal s.ns w.rows := by
    cases w <;> rfl
  rw [Node.handle, hprincipal, Principal.parse_text s.valid, hns]
  simp only [happly]

/-- The node is up, the shard opens and the statement goes through. -/
def Machine.Works (m : Machine) (n : Node) : Prop :=
  n.closed = false ∧ m.opening = none ∧ m.exec = none

instance (m : Machine) (n : Node) : Decidable (m.Works n) :=
  inferInstanceAs (Decidable (_ ∧ _ ∧ _))

def Shard.stored (s : Shard R) (w : Mutation) (n : Node) : Node :=
  { n with shards := Function.update n.shards (s.principal, s.ns) (w.rows (s.rows n)) }

theorem Shard.rows_stored (s : Shard R) (w : Mutation) (n : Node) :
    s.rows (s.stored w n) = w.rows (s.rows n) :=
  Function.update_self _ _ _

theorem Shard.handle_of_works (s : Shard R) (w : Mutation) (h : m.Works n) :
    n.handle R m (s.frame w) = (.ok (), s.stored w n) := by
  obtain ⟨hclosed, hopening, hexec⟩ := h
  rw [s.handle_frame, s.get_eq, hclosed, hopening, Node.exec, hexec]
  rfl

theorem Shard.handle_of_not_works (s : Shard R) (w : Mutation) (h : ¬m.Works n) :
    ∃ err, n.handle R m (s.frame w) = (.error err, n) := by
  rw [s.handle_frame, s.get_eq]
  cases hclosed : n.closed with
  | true => exact ⟨_, rfl⟩
  | false =>
    cases hopening : m.opening with
    | some err => exact ⟨err, rfl⟩
    | none =>
      cases hexec : m.exec with
      | some err => exact ⟨err, by simp [Node.exec, hexec]⟩
      | none => exact absurd ⟨hclosed, hopening, hexec⟩ h

def Shard.Reaches (s : Shard R) (d : Driver) (m : Machine) (n : Node) : Prop :=
  s.closed = false ∧
    match d with
    | .absent => m.exec = none
    | .localReplicator => m.Works n
    | .quasarReplicator c => c.add = none ∧ c.accepted = true ∧ m.Works n

instance (s : Shard R) (d : Driver) (m : Machine) (n : Node) : Decidable (s.Reaches d m n) :=
  match d with
  | .absent => inferInstanceAs (Decidable (_ ∧ m.exec = none))
  | .localReplicator => inferInstanceAs (Decidable (_ ∧ m.Works n))
  | .quasarReplicator _ => inferInstanceAs (Decidable (_ ∧ _ ∧ _ ∧ m.Works n))

/-- Quasar accepts a write that this node cannot apply. The error of the handler is
dropped. -/
def Shard.Drops (s : Shard R) (d : Driver) (m : Machine) (n : Node) : Prop :=
  s.closed = false ∧
    ∃ c, d = .quasarReplicator c ∧ c.add = none ∧ c.accepted = true ∧ ¬m.Works n

theorem Shard.write_of_reaches {d : Driver} (h : s.Reaches d m n) (w : Mutation) :
    s.write d m w n = (.ok (), s.stored w n) := by
  obtain ⟨hclosed, h⟩ := h
  cases d with
  | absent =>
    have hexec : m.exec = none := h
    simp only [Shard.write, hclosed, Node.exec, hexec]
    rfl
  | localReplicator =>
    simp only [Shard.write, hclosed, proposeLocal, s.handle_of_works w h]
    rfl
  | quasarReplicator c =>
    obtain ⟨hadd, haccepted, hworks⟩ := h
    simp only [Shard.write, hclosed, proposeQuasar, hadd, haccepted, s.handle_of_works w hworks]
    rfl

theorem Shard.write_of_drops {d : Driver} (h : s.Drops d m n) (w : Mutation) :
    s.write d m w n = (.ok (), n) := by
  obtain ⟨hclosed, c, rfl, hadd, haccepted, hworks⟩ := h
  obtain ⟨err, herr⟩ := s.handle_of_not_works w hworks
  simp only [Shard.write, hclosed, proposeQuasar, hadd, haccepted, herr]
  rfl

/-- Any other write fails and changes nothing. -/
theorem Shard.write_of_refused {d : Driver} (hreaches : ¬s.Reaches d m n)
    (hdrops : ¬s.Drops d m n) (w : Mutation) : ∃ err, s.write d m w n = (.error err, n) := by
  cases hclosed : s.closed with
  | true => exact ⟨errClosed, by simp only [Shard.write, hclosed, if_true]⟩
  | false =>
    cases d with
    | absent =>
      cases hexec : m.exec with
      | none => exact absurd ⟨hclosed, hexec⟩ hreaches
      | some err => exact ⟨err, by simp [Shard.write, hclosed, Node.exec, hexec]⟩
    | localReplicator =>
      obtain ⟨err, herr⟩ := s.handle_of_not_works (m := m) (n := n) w
        fun hworks => hreaches ⟨hclosed, hworks⟩
      refine ⟨err, ?_⟩
      simp only [Shard.write, hclosed, proposeLocal, herr]
      rfl
    | quasarReplicator c =>
      cases hadd : c.add with
      | some err =>
        refine ⟨s!"quasar: engine.Add: {err}", ?_⟩
        simp only [Shard.write, hclosed, proposeQuasar, hadd]
        rfl
      | none =>
        cases haccepted : c.accepted with
        | false =>
          refine ⟨c.canceled.getD errTimeout, ?_⟩
          simp only [Shard.write, hclosed, proposeQuasar, hadd, haccepted]
          rfl
        | true =>
          by_cases hworks : m.Works n
          · exact absurd ⟨hclosed, hadd, haccepted, hworks⟩ hreaches
          · exact absurd ⟨hclosed, c, rfl, hadd, haccepted, hworks⟩ hdrops

/-- A write that returned nil is stored and one that returned an error is not,
for every driver and whatever the machine answers, but where quasar accepted it,
this node could not apply it and the shard did not hold it anyway. -/
theorem write_stored_iff (s : Shard R) (d : Driver) (m : Machine) (w : Mutation) (n : Node) :
    s.Stored d m w n ↔ ∀ c, d = .quasarReplicator c → s.closed = false → c.add = none →
      c.accepted = true → m.Works n ∨ w.rows (s.rows n) = s.rows n := by
  by_cases hdrops : s.Drops d m n
  · -- reported as stored, and nothing changed
    obtain ⟨hclosed, c, rfl, hadd, haccepted, hworks⟩ := id hdrops
    rw [Shard.Stored, s.write_of_drops hdrops]
    constructor
    · intro hstored c' _ _ _ _
      exact .inr hstored.symm
    · intro h
      exact ((h c rfl hclosed hadd haccepted).resolve_left hworks).symm
  · refine iff_of_true ?_ fun c hc hclosed hadd haccepted => ?_
    · by_cases hreaches : s.Reaches d m n
      · rw [Shard.Stored, s.write_of_reaches hreaches]
        exact s.rows_stored w n
      · obtain ⟨err, herr⟩ := s.write_of_refused hreaches hdrops w
        rw [Shard.Stored, herr]
    · by_contra hno
      exact hdrops ⟨hclosed, c, hc, hadd, haccepted, fun hworks => hno (.inl hworks)⟩

def rootShard : Shard plainNames where
  principal := .root
  ns := "n"
  valid := by decide
  named := by decide
  noUser := rfl

/-- The block is accepted, the disk is full, and the write is reported as
stored. -/
theorem write_lost :
    ¬rootShard.Stored (.quasarReplicator {}) { exec := some "disk full" } (.put "k" [1]) {} := by
  rw [write_stored_iff]
  intro h
  rcases h {} rfl rfl rfl rfl with ⟨-, -, hexec⟩ | hsame
  · cases hexec
  · have hrow := congrFun hsame "k"
    simp [Mutation.rows, Shard.rows] at hrow

end DurableTasks.Replication
