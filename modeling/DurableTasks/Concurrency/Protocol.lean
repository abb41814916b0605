import DurableTasks.Concurrency.Threads

/-!
The protocol that the operations follow, each on the ground of its own view.
-/

namespace DurableTasks

open Effects Engine

/-- What an operation knows. Of a row or a record, `none` says it was not read
and `some o` that it was last read or written as `o`. -/
structure View where
  row : RunRef → Option (Option WorkflowExecution) := fun _ => none
  /-- The runs it has closed. -/
  closed : RunRef → Bool := fun _ => false
  /-- The event it has stored and not counted yet. -/
  mid : Option (RunRef × Nat) := none
  /-- Run ids that are its own to use, and the run it has indexed under one of
  them and not yet stored. -/
  fresh : List String := []
  entered : Option RunRef := none
  /-- The run whose lock it holds, and the records of that run. -/
  held : Option RunRef := none
  acts : Int → Option (Option WorkflowActivity) := fun _ => none
  /-- The activity whose response it handles, and the one it may dispatch. -/
  duty : Option (RunRef × Int) := none
  may : Option (RunRef × Int) := none
  /-- Whether it is a recovery, and the records of the held run it has
  written. -/
  recovering : Bool := false
  handed : List Int := []

variable {Q : Post Unit View} {r : RunRef}

namespace View

def read (k : View) (r : RunRef) (o : Option WorkflowExecution) : View :=
  { k with row := Function.update k.row r (some o) }

def readAll (k : View) (ns wf : String) (l : List (RunRef × WorkflowExecution)) : View :=
  { k with row := fun r => if r.ns = ns ∧ r.wf = wf then some (l.lookup r) else k.row r }

/-- A record was read. It stays as it is only under the run's lock. -/
def readActivity (k : View) (r : RunRef) (seq : Int) (o : Option WorkflowActivity) : View :=
  if k.held = some r then { k with acts := Function.update k.acts seq (some o) } else k

def readActivities (k : View) (r : RunRef) (l : List (Int × WorkflowActivity)) : View :=
  if k.held = some r then { k with acts := fun seq => some (l.lookup seq) } else k

/-- Whether the write of a record entitles to a dispatch of it: it is the first
one, or a retry, or recovery drives it again. -/
def entitles (k : View) (r : RunRef) (seq : Int) (a : WorkflowActivity) : Bool :=
  match k.acts seq with
  | none => false
  | some none => true
  | some (some old) =>
    k.recovering || (decide (k.duty = some (r, seq)) && decide (old.attempt < a.attempt))

def wrote (k : View) : Write → View
  | .put (.wf r) row =>
    { k with
      row := Function.update k.row r (some (some row))
      closed := Function.update k.closed r
        (k.closed r || row.status.isTerminal && ((k.row r).join.any fun old => old.isOpen))
      mid := none
      fresh := if k.entered = some r then k.fresh.erase r.run else k.fresh
      entered := if k.entered = some r then none else k.entered }
  | .put (.wfh r id) _ => { k with mid := some (r, id) }
  | .put (.wfopen r) _ =>
    { k with entered := if r.run ∈ k.fresh then some r else k.entered }
  | .put (.wfact r seq) a =>
    { k with
      acts := Function.update k.acts seq (some (some a))
      may := if k.entitles r seq a then some (r, seq) else k.may
      handed := seq :: k.handed }
  | _ => k

def learn (k : View) : (e : Effect) → e.Answer → View
  | .get (.wf r), .ok o => k.read r o
  | .get (.wfact r seq), .ok o => k.readActivity r seq o
  | .list (.rows ns wf), .ok l => k.readAll ns wf l
  | .list (.acts r), .ok l => k.readActivities r l
  | .write x, _ => k.wrote x
  | .newRunId, id => { k with fresh := id :: k.fresh }
  | .lock r, _ => { k with held := some r, acts := fun _ => none, handed := [] }
  | .unlock _, _ => { k with held := none, acts := fun _ => none }
  | .resolveActivityToken _, some t => { k with duty := some (t.ref, t.seq) }
  | .fire r seq, true => { k with may := some (r, seq) }
  | .dispatchActivity _ _, _ => { k with may := none, duty := none }
  | .afterFunc _ _, _ => { k with may := none, duty := none }
  | _, _ => k

/-- The writes of an operation, each on the ground of what it knows. `starts`
says whether it may start runs and drop index entries that have no row. -/
inductive Writes (starts : Prop) (k : View) : Write → Prop
  /-- The row that counts the event just stored. -/
  | count {r : RunRef} {row : WorkflowExecution} (hrow : k.row r = some (some row))
      (hmid : k.mid = some (r, row.historyLen + 1)) :
      Writes starts k (.put (.wf r) { row with historyLen := row.historyLen + 1 })
  /-- A row as it was read but for its data: the status is kept, or is set to
  canceling by an operation that has not closed the run, or an open run is
  closed. -/
  | revise {r : RunRef} {row row' : WorkflowExecution} (hrow : k.row r = some (some row))
      (hmid : k.mid = none) (hlen : row'.historyLen = row.historyLen)
      (hstatus : row'.status = row.status ∨ row'.status = .canceling ∧ k.closed r = false ∨
        row.isOpen = true ∧ row'.isOpen = false) :
      Writes starts k (.put (.wf r) row')
  /-- The first row of a run, after its index entry. -/
  | create {r : RunRef} {row : WorkflowExecution} (hstarts : starts) (hmid : k.mid = none)
      (hentered : k.entered = some r) (hfresh : r.run ∈ k.fresh) (hopen : row.isOpen = true)
      (hlen : row.historyLen = 0) :
      Writes starts k (.put (.wf r) row)
  /-- The next event of a run. -/
  | append {r : RunRef} {row : WorkflowExecution} {ev : HistoryEvent}
      (hrow : k.row r = some (some row)) (hmid : k.mid = none) :
      Writes starts k (.put (.wfh r (row.historyLen + 1)) ev)
  | enlist {r : RunRef} (hstarts : starts) : Writes starts k (.put (.wfopen r) ())
  /-- The index entry of a run that is closed, or has no row. -/
  | unlist {r : RunRef} {o : Option WorkflowExecution} (hrow : k.row r = some o)
      (ho : ∀ row, o = some row → row.isOpen = false) (hnone : o = none → starts) :
      Writes starts k (.del (.wfopen r))
  /-- A record under the run's lock; an attempt is never taken back, and
  recovery writes a record once. -/
  | activity {r : RunRef} {seq : Int} {o : Option WorkflowActivity} {a : WorkflowActivity}
      (hheld : k.held = some r) (hread : k.acts seq = some o)
      (hattempt : ∀ old, o = some old → old.attempt ≤ a.attempt)
      (honce : k.recovering = true → seq ∉ k.handed) :
      Writes starts k (.put (.wfact r seq) a)
  | registry {name : String} {n : Namespace} : Writes starts k (.put (.ns name) n)
  | indexed {ns : String} {t : Nat} : Writes starts k (.put (.wfidx ns) t)
  | request {ns wf req run : String} : Writes starts k (.put (.idem ns wf req) run)
  | note {r : RunRef} {c : Closing} : Writes starts k (.close r c)

/-- What an operation does, on the ground of what it knows. -/
def guard (starts : Prop) (k : View) : Effect → Prop
  | .write x => k.Writes starts x
  | .lock _ => k.held = none
  | .unlock r => k.held = some r
  | .dispatchActivity t n =>
    k.held = some t.ref ∧ k.may = some (t.ref, t.seq) ∧
      ∃ a, k.acts t.seq = some (some a) ∧ a.attempt = n
  | .afterFunc r seq => k.held = some r ∧ k.may = some (r, seq)
  | _ => True

end View

/-- Whether an access has nothing to do with rows, events, new index entries and
run ids. -/
def Effect.aside : Effect → Bool
  | .get (.wf _) | .list (.rows _ _) | .newRunId => false
  | .write (.put (.wf _) _) | .write (.put (.wfh _ _) _) | .write (.put (.wfopen _) _) => false
  | _ => true

structure View.SameRuns (k k' : View) : Prop where
  row : k'.row = k.row
  closed : k'.closed = k.closed
  mid : k'.mid = k.mid
  fresh : k'.fresh = k.fresh
  entered : k'.entered = k.entered

theorem View.learn_aside (k : View) {e : Effect} (he : e.aside = true) (a : e.Answer) :
    k.SameRuns (k.learn e a) := by
  cases e with
  | get key =>
    cases key with
    | wf r => simp [Effect.aside] at he
    | wfact r seq =>
      cases a with
      | error e => exact ⟨rfl, rfl, rfl, rfl, rfl⟩
      | ok o =>
        simp only [View.learn, View.readActivity]
        split_ifs <;> exact ⟨rfl, rfl, rfl, rfl, rfl⟩
    | _ => cases a <;> exact ⟨rfl, rfl, rfl, rfl, rfl⟩
  | list q =>
    cases q with
    | rows ns wf => simp [Effect.aside] at he
    | acts r =>
      cases a with
      | error e => exact ⟨rfl, rfl, rfl, rfl, rfl⟩
      | ok l =>
        simp only [View.learn, View.readActivities]
        split_ifs <;> exact ⟨rfl, rfl, rfl, rfl, rfl⟩
    | _ => cases a <;> exact ⟨rfl, rfl, rfl, rfl, rfl⟩
  | write x =>
    cases x with
    | put key v =>
      cases key with
      | wf | wfh | wfopen => simp [Effect.aside] at he
      | _ => exact ⟨rfl, rfl, rfl, rfl, rfl⟩
    | _ => exact ⟨rfl, rfl, rfl, rfl, rfl⟩
  | newRunId => simp [Effect.aside] at he
  | resolveActivityToken | fire => cases a <;> exact ⟨rfl, rfl, rfl, rfl, rfl⟩
  | _ => exact ⟨rfl, rfl, rfl, rfl, rfl⟩

theorem View.row_learn_get (k : View) (w : World) (r r' : RunRef) :
    (k.learn (.get (.wf r)) (handler (.get (.wf r)) w).1).row r' =
      if decide (r' = r) then some (w.store.get (.wf r')) else k.row r' := by
  by_cases hr : r' = r
  · subst hr
    simp [View.learn, View.read, handler]
  · simp [View.learn, View.read, handler, hr]

theorem View.row_learn_list (k : View) (w : World) (ns wf : String) (r : RunRef) :
    (k.learn (.list (.rows ns wf)) (handler (.list (.rows ns wf)) w).1).row r =
      if decide (r.ns = ns ∧ r.wf = wf) then some (w.store.get (.wf r)) else k.row r := by
  by_cases hr : r.ns = ns ∧ r.wf = wf
  · obtain ⟨rfl, rfl⟩ := hr
    simpa [View.learn, View.readAll, handler, Store.list] using w.store.lookup_rows r
  · simp [View.learn, View.readAll, handler, hr]

/-- A row that is known after a read was known before, or is stored. -/
theorem View.known_of_read {hit : Bool} {stored : Option WorkflowExecution}
    {old new : Option (Option WorkflowExecution)} {row : WorkflowExecution}
    (hread : new = if hit then some stored else old) (h : new = some (some row)) :
    old = some (some row) ∨ stored = some row := by
  rw [hread] at h
  split_ifs at h
  · exact .inr (Option.some.inj h)
  · exact .inl h

/-- A row that is known after a write of one is the one written, or was known
before. -/
theorem View.known_wrote {I : Type} [DecidableEq I] {know : I → View} {i j : I} {r r' : RunRef}
    {row row' : WorkflowExecution}
    (h : (Function.update know i ((know i).wrote (.put (.wf r) row)) j).row r' = some (some row')) :
    j = i ∧ r' = r ∧ row' = row ∨ (j = i → r' ≠ r) ∧ (know j).row r' = some (some row') := by
  rcases update_cases (fun k : View => k.row r' = some (some row')) h with ⟨rfl, h⟩ | ⟨hj, h⟩
  · by_cases hr : r' = r
    · subst hr
      exact .inl ⟨rfl, rfl, by simpa [View.wrote, eq_comm] using h⟩
    · exact .inr ⟨fun _ => hr, by simpa [View.wrote, hr] using h⟩
  · exact .inr ⟨fun heq => absurd heq hj, h⟩

/-- Whether an access has nothing to do with activities and locks. -/
def Effect.offActs : Effect → Bool
  | .get (.wfact _ _) | .list (.acts _) | .write (.put (.wfact _ _) _) => false
  | .lock _ | .unlock _ | .resolveActivityToken _ | .fire _ _ => false
  | .dispatchActivity _ _ | .afterFunc _ _ => false
  | _ => true

structure View.SameActs (k k' : View) : Prop where
  held : k'.held = k.held
  acts : k'.acts = k.acts
  duty : k'.duty = k.duty
  may : k'.may = k.may
  recovering : k'.recovering = k.recovering
  handed : k'.handed = k.handed

theorem View.learn_offActs (k : View) {e : Effect} (he : e.offActs = true) (a : e.Answer) :
    k.SameActs (k.learn e a) := by
  cases e with
  | get key =>
    cases key with
    | wfact r seq => simp [Effect.offActs] at he
    | _ => cases a <;> exact ⟨rfl, rfl, rfl, rfl, rfl, rfl⟩
  | list q =>
    cases q with
    | acts r => simp [Effect.offActs] at he
    | _ => cases a <;> exact ⟨rfl, rfl, rfl, rfl, rfl, rfl⟩
  | write x =>
    cases x with
    | put key v =>
      cases key with
      | wfact r seq => simp [Effect.offActs] at he
      | _ => exact ⟨rfl, rfl, rfl, rfl, rfl, rfl⟩
    | _ => exact ⟨rfl, rfl, rfl, rfl, rfl, rfl⟩
  | lock | unlock | resolveActivityToken | fire | dispatchActivity | afterFunc =>
    simp [Effect.offActs] at he
  | _ => exact ⟨rfl, rfl, rfl, rfl, rfl, rfl⟩

def protocol (starts : Prop) : Protocol Effect Effect.Answer View where
  guard := View.guard starts
  valid := Effect.Sound
  learn := View.learn

/-- `x` follows the protocol from the view `k`, whatever other threads do in
between, and returns with `Q`. -/
def Go.follows {α : Type} (starts : Prop) (x : Go α) (Q : Except String α → View → Prop)
    (k : View) : Prop :=
  x.run.conforms (protocol starts) Q k

/-- From wherever `P` holds `x` follows the protocol along `S`. -/
abbrev Go.Tracks {α : Type} (starts : Prop) (P : View → Prop) (S : View → View → Prop)
    (x : Go α) : Prop :=
  TracksOf (protocol starts) P S x

namespace Go

variable {α β : Type} {starts : Prop} {k : View}

@[simp] theorem follows_pure {Q : Post α View} (a : α) :
    (pure a : Go α).follows starts Q k ↔ Q (.ok a) k := Iff.rfl

@[simp] theorem follows_bind {Q : Post β View} (x : Go α) (f : α → Go β) :
    (x >>= f).follows starts Q k ↔
      x.follows starts (fun res k' => match res with
        | .ok a => (f a).follows starts Q k'
        | .error e => Q (.error e) k') k :=
  FollowsOf.bind_iff x f (fun _ _ => Iff.rfl) fun _ _ => Iff.rfl

theorem follows_mono {Q Q' : Post α View} (hQ : ∀ a k, Q a k → Q' a k)
    {x : Go α} (hx : x.follows starts Q k) : x.follows starts Q' k :=
  Program.conforms_mono hQ _ hx

section Reads

variable {r : RunRef} {ns wf : String}

@[simp] theorem follows_describeNamespace {Q : Post (Option Namespace) View} :
    (describeNamespace ns).follows starts Q k ↔ ∀ o, Q (.ok o) k :=
  ok_answer

@[simp] theorem follows_getRow {Q : Post (Option WorkflowExecution) View} :
    (getRow r).follows starts Q k ↔ ∀ o, Q (.ok o) (k.read r o) :=
  ok_answer

@[simp] theorem follows_getWorkflowActivity {seq : Int} {Q : Post (Option WorkflowActivity) View} :
    (getWorkflowActivity r seq).follows starts Q k ↔ ∀ o, Q (.ok o) (k.readActivity r seq o) :=
  ok_answer

@[simp] theorem follows_getIndexed {Q : Post (Option Nat) View} :
    (getIndexed ns).follows starts Q k ↔ ∀ o, Q (.ok o) k :=
  ok_answer

@[simp] theorem follows_lookupIdempotency {req : String} {Q : Post (Option String) View} :
    (lookupIdempotency ns wf req).follows starts Q k ↔ ∀ o, Q (.ok o) k :=
  ok_answer

@[simp] theorem follows_listRows {Q : Post (List (RunRef × WorkflowExecution)) View} :
    (listRows ns wf).follows starts Q k ↔
      ∀ l, (Query.rows ns wf).Lists l → Q (.ok l) (k.readAll ns wf l) :=
  ok_listing

@[simp] theorem follows_page {after : Option RunRef} {limit : Nat}
    {Q : Post (List (RunRef × WorkflowExecution)) View} :
    (page ns after limit).follows starts Q k ↔
      ∀ l, (Query.page ns after limit).Lists l → Q (.ok l) k :=
  ok_listing

@[simp] theorem follows_listEvents {Q : Post (List (Nat × HistoryEvent)) View} :
    (listEvents r).follows starts Q k ↔ ∀ l, (Query.events r).Lists l → Q (.ok l) k :=
  ok_listing

@[simp] theorem follows_listWorkflowActivities {Q : Post (List (Int × WorkflowActivity)) View} :
    (listWorkflowActivities r).follows starts Q k ↔
      ∀ l, (Query.acts r).Lists l → Q (.ok l) (k.readActivities r l) :=
  ok_listing

@[simp] theorem follows_listOpen {Q : Post (List RunRef) View} :
    (listOpen ns).follows starts Q k ↔ ∀ l, (Query.opens ns).Lists l → Q (.ok l) k :=
  ok_listing

@[simp] theorem follows_listNamespaces {Q : Post (List String) View} :
    listNamespaces.follows starts Q k ↔ ∀ l, Query.namespaces.Lists l → Q (.ok l) k :=
  ok_listing

end Reads

@[simp] theorem follows_write {x : Write} :
    (write x).follows starts Q k ↔ k.Writes starts x ∧ Q (.ok ()) (k.wrote x) :=
  and_congr_right fun _ => forall_eq

@[simp] theorem follows_put {key : Key} {v : key.Val} :
    (put key v).follows starts Q k ↔
      k.Writes starts (.put key v) ∧ Q (.ok ()) (k.wrote (.put key v)) :=
  follows_write

@[simp] theorem follows_del {key : Key} :
    (del key).follows starts Q k ↔
      k.Writes starts (.del key) ∧ Q (.ok ()) (k.wrote (.del key)) :=
  follows_write

@[simp] theorem follows_now {Q : Post Nat View} :
    now.follows starts Q k ↔ ∀ t, Q (.ok t) k :=
  free_answer

@[simp] theorem follows_newRunId {Q : Post String View} :
    newRunId.follows starts Q k ↔ ∀ id, Q (.ok id) { k with fresh := id :: k.fresh } :=
  free_answer

@[simp] theorem follows_isOrg {name : String} {Q : Post Bool View} :
    (isOrg name).follows starts Q k ↔ ∀ b, Q (.ok b) k :=
  free_answer

@[simp] theorem follows_enqueueWorkflowTask {t : WorkflowTask} :
    (enqueueWorkflowTask t).follows starts Q k ↔ Q (.ok ()) k :=
  unit_answer.trans (iff_of_eq (true_and _))

@[simp] theorem follows_dispatchActivity {t : ActivityTask} {n : Nat} :
    (dispatchActivity t n).follows starts Q k ↔
      k.guard starts (.dispatchActivity t n) ∧ Q (.ok ()) { k with may := none, duty := none } :=
  unit_answer

@[simp] theorem follows_completeWorkflowTask {token : Nat} {Q : Post (Option WorkflowTask) View} :
    (completeWorkflowTask token).follows starts Q k ↔ ∀ o, Q (.ok o) k :=
  free_answer

@[simp] theorem follows_resolveActivityToken {token : Nat} {Q : Post (Option ActivityTask) View} :
    (resolveActivityToken token).follows starts Q k ↔
      Q (.ok none) k ∧ ∀ t, Q (.ok (some t)) { k with duty := some (t.ref, t.seq) } :=
  free_answer.trans Option.forall

@[simp] theorem follows_hasSubscribers {ns queue : String} {Q : Post Bool View} :
    (hasSubscribers ns queue).follows starts Q k ↔ ∀ b, Q (.ok b) k :=
  free_answer

@[simp] theorem follows_afterFunc {seq : Int} :
    (afterFunc r seq).follows starts Q k ↔
      (k.held = some r ∧ k.may = some (r, seq)) ∧
        Q (.ok ()) { k with may := none, duty := none } :=
  unit_answer

@[simp] theorem follows_fire {seq : Int} {Q : Post Bool View} :
    (fire r seq).follows starts Q k ↔
      Q (.ok false) k ∧ Q (.ok true) { k with may := some (r, seq) } :=
  free_answer.trans Bool.forall_bool

@[simp] theorem follows_pushCancelRequest {queue : String} :
    (pushCancelRequest r queue).follows starts Q k ↔ Q (.ok ()) k :=
  unit_answer.trans (iff_of_eq (true_and _))

@[simp] theorem follows_recordFailure {id : FailureIdentity} {retrying : Bool} :
    (recordFailure id retrying).follows starts Q k ↔ Q (.ok ()) k :=
  unit_answer.trans (iff_of_eq (true_and _))

@[simp] theorem follows_clearFailure {id : FailureIdentity} :
    (clearFailure id).follows starts Q k ↔ Q (.ok ()) k :=
  unit_answer.trans (iff_of_eq (true_and _))

@[simp] theorem follows_mark : (mark r).follows starts Q k ↔ Q (.ok ()) k :=
  unit_answer.trans (iff_of_eq (true_and _))

@[simp] theorem follows_clear : (clear r).follows starts Q k ↔ Q (.ok ()) k :=
  unit_answer.trans (iff_of_eq (true_and _))

@[simp] theorem follows_attempt {x : Go α} {Q : Post (Except String α) View} :
    (attempt x).follows starts Q k ↔ x.follows starts (fun res k' => Q (.ok res) k') k :=
  FollowsOf.lift_run_iff

end Go

def View.locked (k : View) (r : RunRef) : View :=
  { k with held := some r, acts := fun _ => none, handed := [] }

def View.unlocked (k : View) : View :=
  { k with held := none, acts := fun _ => none }

theorem Go.follows_withRun {α : Type} {starts : Prop} {k : View} {body : Go α}
    {Q : Post α View} (hfree : k.held = none)
    (hbody : body.follows starts (fun res k' => k'.held = some r ∧ Q res k'.unlocked)
      (k.locked r)) :
    (withRun r body).follows starts Q k := by
  have hlock : ∀ {Q : Post Unit View}, Q (.ok ()) (k.locked r) →
      (lock r).follows starts Q k := fun h => ⟨hfree, fun _ _ => h⟩
  simp only [withRun, follows_bind]
  refine hlock ?_
  simp only [follows_attempt]
  refine follows_mono ?_ hbody
  rintro res k' ⟨hheld, hQ⟩
  exact ⟨hheld, fun _ _ => hQ⟩

end DurableTasks
