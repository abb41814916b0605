import DurableTasks.Events.Fanout
import DurableTasks.Schedules.Sweeps
import DurableTasks.Tenancy.Principal
import Mathlib.Data.Set.Function

/-!
The event stream of a tenant: what the engine publishes through the views of all
tenants, the org each event is stamped with, and the filter of the stream.
-/

namespace DurableTasks

open Effects

namespace Events

variable {δ : Type}

structure Event (δ : Type) where
  kind : String
  orgID : String := ""
  ns : String := ""
  workflowID : String := ""
  runID : String := ""
  scheduleID : String := ""
  batchID : String := ""
  stampedAt : String := ""
  data : δ

inductive RunKind where
  | started | childStarted | signaled | cancelRequested | reset
  | completed | failed | canceled | terminated | continuedAsNew
  | activityScheduled | activityStarted | activityHeartbeat | activityRetrying
  | activityTimedOut | activityCompleted | activityFailed | activityCanceled
deriving DecidableEq

def RunKind.text : RunKind → String
  | started => "workflow.started"
  | childStarted => "workflow.child_started"
  | signaled => "workflow.signaled"
  | cancelRequested => "workflow.cancel_requested"
  | reset => "workflow.reset"
  | completed => "workflow.completed"
  | failed => "workflow.failed"
  | canceled => "workflow.canceled"
  | terminated => "workflow.terminated"
  | continuedAsNew => "workflow.continued_as_new"
  | activityScheduled => "activity.scheduled"
  | activityStarted => "activity.started"
  | activityHeartbeat => "activity.heartbeat"
  | activityRetrying => "activity.retrying"
  | activityTimedOut => "activity.timedout"
  | activityCompleted => "activity.completed"
  | activityFailed => "activity.failed"
  | activityCanceled => "activity.canceled"

/-- The places of the engine that publish an event. An operation on workflows or
activities stands for the places it reaches, all of which `emit`; what the
operations on schedules publish, two of which do not, is `scheduled` below. -/
inductive Publication (δ : Type) where
  | namespaceRegistered (name : String) (data : δ)
  | run (kind : RunKind) (ns wf runID : String) (data : δ)
  | scheduleCreated (ns id : String) (data : δ)
  | scheduleTriggered (ns id : String) (data : δ)
  | scheduleUpdated (ns id : String) (data : δ)
  | batchTerminated (ns id : String) (data : δ)

namespace Publication

def event : Publication δ → Event δ
  | namespaceRegistered name data => { kind := "namespace.registered", ns := name, data := data }
  | run kind ns wf runID data =>
    { kind := kind.text, ns := ns, workflowID := wf, runID := runID, data := data }
  | scheduleCreated ns id data =>
    { kind := "schedule.created", ns := ns, scheduleID := id, data := data }
  | scheduleTriggered ns id data =>
    { kind := "schedule.triggered", ns := ns, scheduleID := id, data := data }
  | scheduleUpdated ns id data =>
    { kind := "schedule.updated", ns := ns, scheduleID := id, data := data }
  | batchTerminated ns id data =>
    { kind := "batch.terminated", ns := ns, batchID := id, data := data }

/-- Whether the place hands its event to `emit`. The two others hand it to the
broker themselves. -/
def emits : Publication δ → Bool
  | scheduleTriggered .. | scheduleUpdated .. => false
  | _ => true

@[simp] theorem event_orgID (p : Publication δ) : p.event.orgID = "" := by
  cases p <;> rfl

end Publication

structure View where
  org : String
  project : String := ""

def View.principal (D : Door) (v : View) : Principal := D.orgProject v.org v.project

/-- What `broker.publish` makes of an event at the time `now`. -/
def timed (now : String) (e : Event δ) : Event δ :=
  if e.stampedAt = "" then { e with stampedAt := now } else e

def posted (D : Door) (v : View) (p : Publication δ) (now : String) : Event δ :=
  if p.emits then timed now { p.event with orgID := (v.principal D).org }
  else timed now p.event

/-- Whether `feed` passes an event on to a reader from `org`. -/
def passes (org : String) (e : Event δ) : Bool := org = "" ∨ e.orgID = org

/-- `newBroker`: queues of 256. -/
abbrev Broker (δ : Type) := Fanout (Event δ) 256

structure Feed (δ : Type) where
  org : String
  written : List (Event δ) := []

structure Hub (δ : Type) where
  broker : Broker δ := {}
  feeds : Nat → Option (Feed δ) := fun _ => none

inductive Step (δ : Type) where
  | publish (v : View) (p : Publication δ) (now : String)
  | connect (org : String)
  /-- One turn of the loop of `feed`. -/
  | take (id : Nat)
  | leave (id : Nat)

namespace Hub

def connect (h : Hub δ) (org : String) : Hub δ :=
  { broker := h.broker.subscribe
    feeds := Function.update h.feeds h.broker.fresh (some { org := org }) }

def take (h : Hub δ) (id : Nat) : Hub δ :=
  match h.feeds id, h.broker.receive id with
  | some f, some (e, broker) =>
    let written := if passes f.org e then f.written ++ [e] else f.written
    { broker := broker
      feeds := Function.update h.feeds id (some { f with written := written }) }
  | _, _ => h

def step (D : Door) (h : Hub δ) : Step δ → Hub δ
  | .publish v p now => { h with broker := h.broker.publish (posted D v p now) }
  | .connect org => h.connect org
  | .take id => h.take id
  | .leave id => { h with broker := h.broker.unsubscribe id }

def run (D : Door) (h : Hub δ) (steps : List (Step δ)) : Hub δ := steps.foldl (step D) h

def waiting (h : Hub δ) (id : Nat) : List (Event δ) := (h.broker.subs id).getD []

def carries (h : Hub δ) (id : Nat) : List (Event δ) :=
  match h.feeds id with
  | some f => f.written ++ (h.waiting id).filter (passes f.org)
  | none => []

end Hub

/-- The events of what was done through the views of an org. -/
def own (D : Door) (org : String) : Step δ → List (Event δ)
  | .publish v p now => if v.org = org then [posted D v p now] else []
  | _ => []

/-- A step while the stream `id` is open, through a view of the root or of an org
that the door lets in. -/
def Step.Admitted (D : Door) (id : Nat) : Step δ → Prop
  | .publish v _ _ => v.org = "" ∨ D.Accepts v.org
  | .leave other => other ≠ id
  | _ => True

/-- When a step leaves the stream `id` of an org exact. What is published through
the org's own view is neither a trigger nor an update of a schedule, and the org's
name is the one it is stored under; a view of another org is not stored under the
name of this one. And no event for the stream is the oldest of a full queue. -/
def Step.Fair (D : Door) (org : String) (id : Nat) (h : Hub δ) : Step δ → Prop
  | .publish v p _ =>
    (if v.org = org then p.emits = true ∧ D.fold org = org
      else p.emits = true → D.fold v.org ≠ org) ∧
    Room (passes org) 256 (h.waiting id)
  | _ => True

instance (D : Door) (org : String) (id : Nat) (h : Hub δ) (s : Step δ) :
    Decidable (s.Fair D org id h) :=
  match s with
  | .publish _ _ _ => inferInstanceAs (Decidable (_ ∧ _))
  | .connect _ | .take _ | .leave _ => inferInstanceAs (Decidable True)

def FairRun (D : Door) (org : String) (id : Nat) (h : Hub δ) : List (Step δ) → Prop
  | [] => True
  | s :: steps => s.Fair D org id h ∧ FairRun D org id (h.step D s) steps

section Posted

variable {D : Door} {v : View} {p : Publication δ} {now org : String}

theorem timed_orgID (e : Event δ) : (timed now e).orgID = e.orgID := by
  unfold timed
  split_ifs <;> rfl

theorem posted_orgID :
    (posted D v p now).orgID = if p.emits = true then D.fold v.org else "" := by
  unfold posted
  split_ifs
  · exact timed_orgID _
  · rw [timed_orgID, p.event_orgID]

theorem passes_iff (horg : org ≠ "") {e : Event δ} : passes org e = true ↔ e.orgID = org := by
  simp [passes, horg]

theorem passes_posted (horg : org ≠ "") :
    passes org (posted D v p now) = true ↔ p.emits = true ∧ D.fold v.org = org := by
  rw [passes_iff horg, posted_orgID]
  split_ifs with hemits
  · exact (and_iff_right hemits).symm
  · exact ⟨fun h => absurd h.symm horg, fun h => absurd h.1 hemits⟩

end Posted

structure Hub.Open (h : Hub δ) (id : Nat) (org : String) (q w : List (Event δ)) : Prop where
  issued : id ≤ h.broker.nextID
  queue : h.broker.subs id = some q
  bounded : q.length ≤ 256
  feed : h.feeds id = some { org := org, written := w }

namespace Hub.Open

variable {D : Door} {h : Hub δ} {id : Nat} {org : String} {q w : List (Event δ)}

theorem waiting_eq (ho : h.Open id org q w) : h.waiting id = q := by
  simp [Hub.waiting, ho.queue]

theorem carries_eq (ho : h.Open id org q w) : h.carries id = w ++ q.filter (passes org) := by
  simp [Hub.carries, ho.feed, ho.waiting_eq]

theorem connect (h : Hub δ) (org : String) : (h.connect org).Open h.broker.fresh org [] [] where
  issued := Nat.le_refl _
  queue := Function.update_self ..
  bounded := Nat.zero_le _
  feed := Function.update_self ..

theorem publish (ho : h.Open id org q w) (v : View) (p : Publication δ) (now : String) :
    (h.step D (.publish v p now)).Open id org (offer 256 (posted D v p now) q) w where
  issued := ho.issued
  queue := by
    show (h.broker.subs id).map _ = _
    rw [ho.queue]
    rfl
  bounded := length_offer_le ho.bounded (by decide)
  feed := ho.feed

theorem connect_other (ho : h.Open id org q w) (other : String) :
    (h.connect other).Open id org q w := by
  have hne : id ≠ h.broker.fresh := Nat.ne_of_lt (Nat.lt_succ_of_le ho.issued)
  constructor
  · exact Nat.le_succ_of_le ho.issued
  · exact (Function.update_of_ne hne ..).trans ho.queue
  · exact ho.bounded
  · exact (Function.update_of_ne hne ..).trans ho.feed

theorem leave_other (ho : h.Open id org q w) {other : Nat} (hne : other ≠ id) :
    (h.step D (.leave other)).Open id org q w where
  issued := ho.issued
  queue := (Function.update_of_ne hne.symm ..).trans ho.queue
  bounded := ho.bounded
  feed := ho.feed

theorem take_other (ho : h.Open id org q w) {other : Nat} (hne : other ≠ id) :
    (h.take other).Open id org q w := by
  unfold Hub.take
  split
  · rename_i f e broker hfeed hreceive
    obtain ⟨rest, -, rfl⟩ := Fanout.receive_eq_some hreceive
    constructor
    · exact ho.issued
    · exact (Function.update_of_ne hne.symm ..).trans ho.queue
    · exact ho.bounded
    · exact (Function.update_of_ne hne.symm ..).trans ho.feed
  · exact ho

theorem take_nil (ho : h.Open id org [] w) : h.take id = h := by
  simp [Hub.take, Fanout.receive_nil ho.queue]

theorem take_cons {e : Event δ} (ho : h.Open id org (e :: q) w) :
    (h.take id).Open id org q (if passes org e then w ++ [e] else w) := by
  have htake : h.take id =
      { broker := { h.broker with subs := Function.update h.broker.subs id (some q) }
        feeds := Function.update h.feeds id
          (some { org := org, written := if passes org e then w ++ [e] else w }) } := by
    simp [Hub.take, Fanout.receive_cons ho.queue, ho.feed]
  rw [htake]
  exact ⟨ho.issued, Function.update_self .., Nat.le_of_succ_le ho.bounded, Function.update_self ..⟩

/-- A turn of the loop moves an event from the queue to the stream, or drops one
that is not for it. -/
theorem take (ho : h.Open id org q w) (reader : Nat) :
    ∃ q' w', (h.take reader).Open id org q' w' ∧
      w' ++ q'.filter (passes org) = w ++ q.filter (passes org) := by
  by_cases hreader : reader = id
  · subst hreader
    cases q with
    | nil => exact ⟨[], w, by rwa [ho.take_nil], rfl⟩
    | cons e q => grind [ho.take_cons]
  · exact ⟨q, w, ho.take_other hreader, rfl⟩

end Hub.Open

section Exact

variable {D : Door} {h : Hub δ} {id : Nat} {org : String} {q w C : List (Event δ)} {s : Step δ}

def Owned (D : Door) (org : String) (C : List (Event δ)) : Prop :=
  ∀ e ∈ C, ∃ v p now, v.org = org ∧ e = posted D v p now

theorem Owned.append_own (hC : Owned D org C) : Owned D org (C ++ own D org s) := by
  intro e he
  rcases List.mem_append.mp he with hold | hnew
  · exact hC e hold
  · cases s with
    | publish v p now => grind [own]
    | connect _ => cases hnew
    | take _ => cases hnew
    | leave _ => cases hnew

/-- One event of its own that gets through shows that the org is stored under its
name. -/
theorem Owned.fold_eq (hC : Owned D org C) (horg : org ≠ "") {e : Event δ} (he : e ∈ C)
    (hpass : passes org e = true) : D.fold org = org := by
  obtain ⟨v, p, now, rfl, rfl⟩ := hC e he
  exact ((passes_posted horg).mp hpass).2

/-- The part of a step's fairness that is about the org it is stamped with. -/
theorem filter_posted_iff (horg : org ≠ "") {v : View} {p : Publication δ} {now : String} :
    [posted D v p now].filter (passes org) = own D org (.publish v p now) ↔
      if v.org = org then p.emits = true ∧ D.fold org = org
      else p.emits = true → D.fold v.org ≠ org := by
  have hpass : passes org (posted D v p now) = true ↔ p.emits = true ∧ D.fold v.org = org :=
    passes_posted horg
  by_cases hp : passes org (posted D v p now) = true
  · grind [own]
  · grind [own]

/-- A full queue whose oldest event is for the stream loses one of its own. -/
theorem ne_of_not_room (hinj : Set.InjOn D.fold {name | D.Accepts name}) (horg : D.Accepts org)
    (ho : h.Open id org q w) (hexact : h.carries id = C) (hC : Owned D org C) {v : View}
    {p : Publication δ} {now : String} (hv : v.org = "" ∨ D.Accepts v.org)
    (hroom : ¬ Room (passes org) 256 q) :
    w ++ (offer 256 (posted D v p now) q).filter (passes org) ≠
      C ++ own D org (.publish v p now) := by
  obtain ⟨y, rest, hq, hoffer⟩ :=
    filter_offer_of_not_room (passes org) (x := posted D v p now) ho.bounded (by decide) hroom
  have hcarries : C = w ++ y :: rest := by rw [← hexact, ho.carries_eq, hq]
  have hy : passes org y = true := (List.mem_filter.mp (hq ▸ List.mem_cons_self)).2
  have hfold : D.fold org = org := hC.fold_eq horg.1 (by rw [hcarries]; simp) hy
  -- what would take the lost event's place is the org's own too
  have hown : ([posted D v p now].filter (passes org)).length ≤
      (own D org (.publish v p now)).length := by
    by_cases hp : passes org (posted D v p now) = true
    · have hsame : D.fold v.org = D.fold org := ((passes_posted horg.1).mp hp).2.trans hfold.symm
      have hacc : D.Accepts v.org := by
        refine hv.resolve_left fun hroot => horg.1 ?_
        rw [← hfold, ← hsame, hroot, Door.fold_empty]
      have hself : v.org = org := hinj hacc horg hsame
      simp [own, hself, hp]
    · simp [hp]
  intro heq
  have hlen := congrArg List.length heq
  rw [hoffer, hcarries] at hlen
  simp only [List.length_append, List.length_cons] at hlen
  omega

theorem carries_step (hinj : Set.InjOn D.fold {name | D.Accepts name}) (horg : D.Accepts org)
    (ho : h.Open id org q w) (hexact : h.carries id = C) (hC : Owned D org C)
    (hs : s.Admitted D id) :
    ∃ q' w', (h.step D s).Open id org q' w' ∧
      ((h.step D s).carries id = C ++ own D org s ↔ s.Fair D org id h) := by
  have hstay : ∀ {q' w'}, (h.step D s).Open id org q' w' →
      w' ++ q'.filter (passes org) = w ++ q.filter (passes org) → own D org s = [] →
      s.Fair D org id h → ((h.step D s).carries id = C ++ own D org s ↔ s.Fair D org id h) := by
    intro q' w' ho' hsame hown hfair
    refine iff_of_true ?_ hfair
    rw [hown, List.append_nil, ← hexact, ho'.carries_eq, ho.carries_eq, hsame]
  cases s with
  | publish v p now =>
    have ho' := ho.publish (D := D) v p now
    refine ⟨_, _, ho', ?_⟩
    rw [ho'.carries_eq]
    simp only [Step.Fair, ho.waiting_eq]
    by_cases hroom : Room (passes org) 256 q
    · rw [filter_offer_of_room (passes org) ho.bounded (by decide) hroom, ← List.append_assoc,
        ← ho.carries_eq, hexact, List.append_cancel_left_eq, filter_posted_iff horg.1]
      exact (and_iff_left hroom).symm
    · exact iff_of_false (ne_of_not_room hinj horg ho hexact hC hs hroom) fun hfair =>
        hroom hfair.2
  | connect other =>
    have ho' := ho.connect_other other
    exact ⟨_, _, ho', hstay ho' rfl rfl trivial⟩
  | take reader =>
    obtain ⟨q', w', ho', hsame⟩ := ho.take reader
    exact ⟨_, _, ho', hstay ho' hsame rfl trivial⟩
  | leave other =>
    have ho' := ho.leave_other (D := D) hs
    exact ⟨_, _, ho', hstay ho' rfl rfl trivial⟩

theorem carries_run (hinj : Set.InjOn D.fold {name | D.Accepts name}) (horg : D.Accepts org)
    {steps : List (Step δ)} (ho : h.Open id org q w) (hexact : h.carries id = C)
    (hC : Owned D org C) (hsteps : ∀ s ∈ steps, s.Admitted D id) :
    (∀ before, before <+: steps →
        (h.run D before).carries id = C ++ before.flatMap (own D org)) ↔
      FairRun D org id h steps := by
  induction steps generalizing h q w C with
  | nil => simpa [FairRun, Hub.run] using hexact
  | cons s steps ih =>
    obtain ⟨q', w', ho', hstep⟩ :=
      carries_step hinj horg ho hexact hC (hsteps s List.mem_cons_self)
    have hrest := fun hnow => ih (C := C ++ own D org s) ho' hnow hC.append_own
      fun s hs => hsteps s (List.mem_cons_of_mem _ hs)
    constructor
    · intro hall
      have hnow : (h.step D s).carries id = C ++ own D org s := by
        simpa [Hub.run] using hall [s] (by simp)
      refine ⟨hstep.mp hnow, (hrest hnow).mp ?_⟩
      intro before hbefore
      simpa [Hub.run, List.append_assoc] using
        hall (s :: before) (List.cons_prefix_cons.mpr ⟨rfl, hbefore⟩)
    · rintro ⟨hfair, hlater⟩ before hbefore
      have hnow := hstep.mpr hfair
      cases before with
      | nil => simpa [Hub.run] using hexact
      | cons t before =>
        obtain ⟨rfl, htail⟩ := List.cons_prefix_cons.mp hbefore
        simpa [Hub.run, List.append_assoc] using (hrest hnow).mpr hlater before htail

/-- A stream opened for an org carries, at every moment while it is open, exactly
the events of the org's own views, in their order: if and only if every step was
fair. -/
theorem stream_exact_iff (D : Door) (hinj : Set.InjOn D.fold {name | D.Accepts name})
    {org : String} (horg : D.Accepts org) (h : Hub δ) (steps : List (Step δ))
    (hsteps : ∀ s ∈ steps, s.Admitted D h.broker.fresh) :
    (∀ before, before <+: steps →
        ((h.connect org).run D before).carries h.broker.fresh = before.flatMap (own D org)) ↔
      FairRun D org h.broker.fresh (h.connect org) steps := by
  have hopen := Hub.Open.connect h org
  have hnone : Owned D org ([] : List (Event δ)) := fun e he => absurd he List.not_mem_nil
  simpa using carries_run hinj horg hopen hopen.carries_eq hnone hsteps

end Exact

def plainDoor : Door := { rule := plainNames, sanitize := id }

theorem plainDoor_fold (name : String) : plainDoor.fold name = name := by
  by_cases hname : name = ""
  · simp [hname]
  · simp [Door.fold, plainDoor, hname]

theorem injOn_plainDoor : Set.InjOn plainDoor.fold {name | plainDoor.Accepts name} := by
  intro a _ b _ hab
  rwa [plainDoor_fold, plainDoor_fold] at hab

theorem plainDoor_acme : plainDoor.Accepts "acme" := ⟨by decide, rfl⟩

def started (org : String) : Step Unit :=
  .publish { org := org } (.run .started "default" "wf" "r" ()) "now"

/-- Two orgs start a run each, and the reader of one of them catches up. -/
theorem stream_exact_two_orgs :
    plainDoor.Accepts "acme" ∧
      ∀ before, before <+: [started "acme", started "zeta", .take 1, .take 1] →
        ((({} : Hub Unit).connect "acme").run plainDoor before).carries 1 =
          before.flatMap (own plainDoor "acme") := by
  refine ⟨plainDoor_acme,
    (stream_exact_iff plainDoor injOn_plainDoor plainDoor_acme {} _ ?_).mpr ?_⟩
  · simp only [List.forall_mem_cons]
    exact ⟨.inr plainDoor_acme, .inr ⟨by decide, rfl⟩, trivial, trivial, by simp⟩
  · exact ⟨by decide, by decide, trivial, trivial, trivial⟩

/-! ## Operations on schedules -/

section Schedules

open Schedules

variable (ofRun : RunRef → δ) (ofSchedule : Schedule → δ) (cal : Calendar) (now : Int) (h : Host)

/-- The runs that an operation starts for schedules, each through the view of the
schedule's tenant. -/
def startedBy (op : ScheduleOperation) : List (String × Publication δ) :=
  ((h.after cal now op).fires.drop h.fires.length).map fun f =>
    (f.schedule.tenant, .run .started f.run.ns f.run.wf f.run.run (ofRun f.run))

/-- What an operation on schedules publishes, with the tenant it does it for. -/
def scheduled (op : ScheduleOperation) : List (String × Publication δ) :=
  startedBy ofRun cal now h op ++
    match op with
    | .create r s =>
      (((createSchedule cal now r s).run.run hostHandler h).1.toOption.map fun _ =>
        (r.tenant, .scheduleCreated r.ns r.id (ofSchedule (createdRow cal now s)))).toList
    | .update r new =>
      (((updateSchedule cal now r new).run.run hostHandler h).1.toOption.map fun s =>
        (r.tenant, .scheduleUpdated r.ns r.id (ofSchedule s))).toList
    | .trigger r requestID =>
      -- an earlier trigger under the same request id is returned, and nothing published
      if (startedBy ofRun cal now h op).isEmpty then []
      else
        (((triggerSchedule cal now r requestID).run.run hostHandler h).1.toOption.map fun p =>
          (r.tenant, .scheduleTriggered r.ns r.id (ofRun p.1))).toList
    | .delete _ | .pause .. | .sweep => []

end Schedules

/-! ## Streams that are not exact -/

/-- A door that keeps a plain name, and gives a suffix to one that it changes or
that looks as if it had one. -/
def suffixDoor : Door where
  rule := plainNames
  sanitize name :=
    if name = "Acme" then "acme-1"
    else if "-1".toList <:+ name.toList then name ++ "-1"
    else name

theorem suffixDoor_fold {name : String} (h : name ≠ "") :
    suffixDoor.fold name = suffixDoor.sanitize name := by
  have hne : suffixDoor.sanitize name ≠ "" := by
    simp only [suffixDoor]
    split_ifs
    · decide
    · simp
    · exact h
  rw [Door.fold, if_neg h, if_pos hne]

theorem injective_sanitize : Function.Injective suffixDoor.sanitize := by
  have hsuffix : ∀ name : String, "-1".toList <:+ (name ++ "-1").toList := by
    intro name
    rw [String.toList_append]
    exact List.suffix_append _ _
  -- the changed name is neither a plain one nor one with a suffix more
  have hacme : ∀ name, name ≠ "Acme" → suffixDoor.sanitize name ≠ "acme-1" := by
    intro name hname heq
    simp only [suffixDoor, if_neg hname] at heq
    split_ifs at heq with hsuf
    · have hbase : name = "acme" := (String.append_left_inj "-1").mp heq
      subst hbase
      revert hsuf
      decide
    · exact hsuf (heq ▸ hsuffix "acme")
  have hself : suffixDoor.sanitize "Acme" = "acme-1" := by simp [suffixDoor]
  intro a b hab
  by_cases ha : a = "Acme"
  · by_cases hb : b = "Acme"
    · rw [ha, hb]
    · rw [ha, hself] at hab
      exact absurd hab.symm (hacme b hb)
  · by_cases hb : b = "Acme"
    · rw [hb, hself] at hab
      exact absurd hab (hacme a ha)
    · simp only [suffixDoor, if_neg ha, if_neg hb] at hab
      split_ifs at hab with hsa hsb hsb
      · exact (String.append_left_inj "-1").mp hab
      · exact absurd (hab ▸ hsuffix a) hsb
      · exact absurd (hab ▸ hsuffix b) hsa
      · exact hab

theorem injOn_suffixDoor : Set.InjOn suffixDoor.fold {name | suffixDoor.Accepts name} := by
  intro a ha b hb hab
  rw [suffixDoor_fold ha.1, suffixDoor_fold hb.1] at hab
  exact injective_sanitize hab

def reportUpdate : List (Step Unit) :=
  (scheduled (fun _ => ()) (fun _ => ()) Schedules.minutely 0
    (Schedules.freshHost.after Schedules.minutely 0
      (.create Schedules.report (Schedules.everyMinute false)))
    (.update Schedules.report (Schedules.everyMinute true))).map
    fun x => .publish { org := x.1 } x.2 "now"

/-- The stream of an org misses the update of its own schedule. And where the fold
changes names, an org whose name is what another's is folded to reads the other's
events, which the other does not. -/
theorem streams_not_exact :
    (plainDoor.Accepts "acme" ∧
      (((({} : Hub Unit).connect "acme").run plainDoor reportUpdate).carries 1).map Event.kind
        = [] ∧
      (reportUpdate.flatMap (own plainDoor "acme")).map Event.kind = ["schedule.updated"]) ∧
    (Set.InjOn suffixDoor.fold {name | suffixDoor.Accepts name} ∧
      suffixDoor.Accepts "Acme" ∧ suffixDoor.Accepts "acme-1" ∧
      (((({} : Hub Unit).connect "acme-1").run suffixDoor [started "Acme"]).carries 1).map
        Event.kind = ["workflow.started"] ∧
      ([started "Acme"].flatMap (own suffixDoor "acme-1")).map Event.kind = [] ∧
      (((({} : Hub Unit).connect "Acme").run suffixDoor [started "Acme"]).carries 1).map
        Event.kind = [] ∧
      ([started "Acme"].flatMap (own suffixDoor "Acme")).map Event.kind =
        ["workflow.started"]) := by
  refine ⟨⟨plainDoor_acme, ?_, ?_⟩, injOn_suffixDoor, ⟨by decide, rfl⟩, ⟨by decide, rfl⟩, ?_⟩
  · decide +kernel
  · decide +kernel
  · decide +kernel

end Events

end DurableTasks
