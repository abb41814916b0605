import DurableTasks.Concurrency.DurableConduct

/-!
What an operation that returned success has done, whatever other operations did
in between: the event it was asked for is stored, or it read, before it wrote
anything, that there was nothing to do.
-/

namespace DurableTasks

open Effects Engine

/-- What a thread has been through: the runs whose rows it has read, the events it
has stored, and the rows and activity records it read before its first write. -/
structure Passage where
  runs : List RunRef := []
  events : List (RunRef × Nat × HistoryEvent) := []
  rows : List (RunRef × WorkflowExecution) := []
  acts : List (RunRef × Int × WorkflowActivity) := []
  wrote : Bool := false

namespace Passage

def read (k : Passage) (l : List (RunRef × WorkflowExecution)) : Passage :=
  { k with
    runs := l.map Prod.fst ++ k.runs
    rows := if k.wrote then k.rows else l ++ k.rows }

def learn (k : Passage) : (e : Effect) → e.Answer → Passage
  | .get (.wf r), .ok (some row) => k.read [(r, row)]
  | .list (.rows _ _), .ok l => k.read l
  | .get (.wfact r seq), .ok (some a) =>
    { k with acts := if k.wrote then k.acts else (r, seq, a) :: k.acts }
  | .write (.put (.wfh r id) ev), _ =>
    { k with events := (r, id, ev) :: k.events, wrote := true }
  | .write _, _ => { k with wrote := true }
  | _, _ => k

theorem learn_grows (k : Passage) (e : Effect) (a : e.Answer) :
    k.runs ⊆ (k.learn e a).runs ∧ k.events ⊆ (k.learn e a).events ∧
      k.rows ⊆ (k.learn e a).rows ∧ k.acts ⊆ (k.learn e a).acts := by
  have hkeep : ∀ {β : Type} (c : Bool) (l l' : List β), l ⊆ if c then l else l' ++ l := by
    intro β c l l'
    split_ifs <;> simp
  unfold learn
  split
  · exact ⟨by simp [Passage.read], by simp [Passage.read], hkeep _ _ _, by simp [Passage.read]⟩
  · exact ⟨by simp [Passage.read], by simp [Passage.read], hkeep _ _ _, by simp [Passage.read]⟩
  · exact ⟨by simp, by simp, by simp, hkeep _ _ [_]⟩
  all_goals simp

/-- An event of the run was stored, or its row was read, before any write, with a
status that has `P`. -/
def Settles (k : Passage) (r : RunRef) (attrs : EventAttrs) (P : WorkflowStatus → Prop) : Prop :=
  (∃ id ev, (r, id, ev) ∈ k.events ∧ ev.attrs = attrs) ∨ ∃ row, (r, row) ∈ k.rows ∧ P row.status

/-- What no access takes back. -/
def Stable (A : Passage → Prop) : Prop := ∀ k e a, A k → A (k.learn e a)

theorem stable_settles {r : RunRef} {attrs : EventAttrs} {P : WorkflowStatus → Prop} :
    Stable fun k => k.Settles r attrs P := by
  rintro k e a (⟨id, ev, hmem, hattrs⟩ | ⟨row, hmem, hP⟩)
  · exact .inl ⟨id, ev, (k.learn_grows e a).2.1 hmem, hattrs⟩
  · exact .inr ⟨row, (k.learn_grows e a).2.2.1 hmem, hP⟩

end Passage

open Passage

def passing : Protocol Effect Effect.Answer Passage where
  guard _ _ := True
  valid := Effect.Sound
  learn := Passage.learn

abbrev Go.Leaves {α : Type} (P : Passage → Prop) (x : Go α) (A : α → Passage → Prop) : Prop :=
  LeavesOf passing P x A

section Leaves

variable {α : Type} {P A : Passage → Prop}

theorem leaves_after (hA : Stable A) (x : Go α) : x.Leaves A fun _ => A :=
  LeavesOf.stable (T := passing) (fun _ _ => trivial) hA x

theorem leaves_any (x : Go α) : x.Leaves P fun _ _ => True :=
  (leaves_after (fun _ _ _ => id) x).given fun _ _ => trivial

theorem withRun_leaves {r : RunRef} {x : Go α} (hA : Stable A) (hx : x.Leaves P fun _ => A) :
    (withRun r x).Leaves P fun _ => A := by
  have hlock : (lock r).Leaves P fun _ => P := fun k hk => ⟨trivial, fun _ _ _ _ => hk⟩
  refine hlock.bind fun _ => hx.lift.bind fun res => ?_
  cases res with
  | error e => exact (leaves_any (unlock r)).bind fun _ => .throw e
  | ok a =>
    exact ((leaves_after hA (unlock r)).given fun _ h => h a rfl).bind fun _ => .pure fun _ => id

theorem describeWorkflow_leaves (t : Target) (b : Bool) :
    (describeWorkflow t).Leaves (fun k => k.wrote = b)
      fun o k => ∀ p, o = some p → t.Names p.1 ∧ p.1 ∈ k.runs ∧ (b = false → p ∈ k.rows) := by
  have hread : ∀ {k : Passage} {l : List (RunRef × WorkflowExecution)} {p}, k.wrote = b → p ∈ l →
      p.1 ∈ (k.read l).runs ∧ (b = false → p ∈ (k.read l).rows) := by
    intro k l p hk hp
    refine ⟨List.mem_append_left _ (List.mem_map_of_mem hp), fun hb => ?_⟩
    simp [Passage.read, hk, hb, hp]
  unfold describeWorkflow
  split
  · next run hrun =>
      refine fun k hk => ⟨trivial, ?_⟩
      rintro _ ⟨o, rfl⟩ _ ⟨⟩ p hp
      obtain ⟨row, rfl, rfl⟩ := Option.map_eq_some_iff.mp hp
      exact ⟨⟨rfl, rfl, fun _ h => Option.some.inj (hrun.symm.trans h)⟩,
        hread hk List.mem_cons_self⟩
  · next hrun =>
      refine fun k hk => ⟨trivial, ?_⟩
      rintro _ ⟨l, rfl, hl⟩ _ ⟨⟩ p hp
      have hmem := currentRun_mem hp
      obtain ⟨hns, hwf⟩ := hl.1 p hmem
      exact ⟨⟨hns, hwf, fun run' h => by simp [hrun] at h⟩, hread hk hmem⟩

/-- A program that begins with the row of a run, and fails if there is none. -/
theorem leaves_of_row {t : Target} {b : Bool} {msg : String} {B : α → Passage → Prop}
    {f : Except String (Option (RunRef × WorkflowExecution)) → Go α}
    (hsome : ∀ p, t.Names p.1 →
      (f (.ok (some p))).Leaves (fun k => p.1 ∈ k.runs ∧ (b = false → p ∈ k.rows)) B)
    (hnone : f (.ok none) = throw msg) (herror : ∀ e, f (.error e) = throw msg) :
    (attempt (describeWorkflow t) >>= f).Leaves (fun k => k.wrote = b) B := by
  refine (describeWorkflow_leaves t b).lift.bind fun res => ?_
  rcases res with e | _ | p
  · exact herror e ▸ .throw _
  · exact hnone ▸ .throw _
  · intro k hk
    obtain ⟨hnames, hrow⟩ := hk _ rfl _ rfl
    exact hsome p hnames k hrow

theorem appendHistory_leaves (t : Target) (attrs : EventAttrs) : (appendHistory t attrs).Leaves P
    fun _ k => ∃ r, t.Names r ∧ r ∈ k.runs ∧ ∃ id ev, (r, id, ev) ∈ k.events ∧
      ev.attrs = attrs := by
  rintro k -
  refine leaves_of_row (b := k.wrote) (fun p hnames k hrow => ?_) rfl (fun _ => rfl) k rfl
  refine ⟨trivial, fun now _ => ⟨trivial, ?_⟩⟩
  rintro _ rfl
  refine ⟨trivial, ?_⟩
  rintro _ rfl _ ⟨⟩
  exact ⟨p.1, hnames, hrow.1, _, _, List.mem_cons_self, rfl⟩

theorem settles_of_append {c : RunRef} {attrs : EventAttrs} {Q : WorkflowStatus → Prop} {β : Type}
    (f : HistoryEvent → Go β) :
    (appendHistory c attrs >>= f).Leaves P fun _ k => k.Settles c attrs Q := by
  refine ((appendHistory_leaves c attrs).imp ?_).bind fun _ => leaves_after stable_settles _
  rintro ev k ⟨r, hr, -, h⟩
  exact hr.eq ▸ .inl h

theorem terminalTransition_leaves (t : Target) (status : WorkflowStatus) (attrs : EventAttrs) :
    (terminalTransition t status attrs).Leaves (fun k => k.wrote = false) fun _ k =>
      ∃ r, t.Names r ∧ k.Settles r attrs fun s => s.isTerminal = true := by
  refine leaves_of_row (fun p hnames => ?_) rfl fun _ => rfl
  refine LeavesOf.imp (A := fun _ k => k.Settles p.1 attrs fun s => s.isTerminal = true) ?_
    fun _ _ h => ⟨p.1, hnames, h⟩
  simp only
  split_ifs with hterm
  · exact .pure fun k hrow => .inr ⟨p.2, hrow.2 trivial, hterm⟩
  · exact (leaves_any _).bind fun _ => (leaves_any _).bind fun _ => (leaves_any _).bind fun _ =>
      settles_of_append _

theorem cancelWorkflow_leaves (t : Target) (reason identity : String) :
    (cancelWorkflowWithReason t reason identity).Leaves (fun k => k.wrote = false) fun _ k =>
      ∃ r, t.Names r ∧ k.Settles r (.cancelRequested reason identity)
        fun s => s.isTerminal = true ∨ s = .canceling := by
  have hstable : Stable fun k => ∃ r, t.Names r ∧ k.Settles r (.cancelRequested reason identity)
      fun s => s.isTerminal = true ∨ s = .canceling :=
    fun k e a ⟨r, hr, h⟩ => ⟨r, hr, stable_settles k e a h⟩
  refine leaves_of_row (fun p hnames => ?_) rfl fun _ => rfl
  simp only
  split_ifs with hterm hcanceling
  · exact .pure fun k hrow => ⟨p.1, hnames, .inr ⟨p.2, hrow.2 trivial, .inl hterm⟩⟩
  · exact (leaves_after hstable _).given
      fun k hrow => ⟨p.1, hnames, .inr ⟨p.2, hrow.2 trivial, .inr hcanceling⟩⟩
  · refine ((appendHistory_leaves t _).imp ?_).bind fun _ => leaves_after hstable _
    rintro ev k ⟨r, hr, -, h⟩
    exact ⟨r, hr, .inl h⟩

theorem signalWorkflow_leaves (t : Target) (name : String) (payload : Json) (identity : String) :
    (signalWorkflow t name payload identity).Leaves (fun k => k.wrote = false) fun _ k =>
      ∃ r, t.Names r ∧ k.Settles r (.signaled name payload identity) fun _ => False := by
  refine leaves_of_row (fun p hnames => ?_) rfl fun _ => rfl
  simp only
  split_ifs
  · exact .throw _
  · exact (withRun_leaves stable_settles (settles_of_append _)).imp fun _ _ h => ⟨p.1, hnames, h⟩

/-! ## Outcomes of activities -/

/-- The outcome of an activity is stored, or it or its run was closed, or it is
tried again. -/
def Passage.Outcome (result failure : Raw) (k : Passage) : Prop :=
  ∃ r seq a, (r, seq, a) ∈ k.acts ∧
    (k.Settles r (if failure.isEmpty then .activityCompleted seq a.activityID result.value
        else .activityFailed seq a.activityID failure.value) (fun s => s.isTerminal = true) ∨
      a.isTerminal = true ∨
      failure.isEmpty = false ∧ (Temporal.effectiveRetryPolicy a.retryPolicy).shouldRetry
        (Temporal.decode failure) a.attempt = true)

theorem stable_outcome {result failure : Raw} : Stable (Outcome result failure) := by
  rintro k e b ⟨r, seq, a, hact, h⟩
  exact ⟨r, seq, a, (k.learn_grows e b).2.2.2 hact, h.imp_left (stable_settles k e b)⟩

theorem advance_leaves (r : RunRef) (seq : Int) (result failure : Raw)
    (wfe : Option WorkflowExecution) (a : WorkflowActivity) :
    (completeWorkflowActivity.advance r seq result failure wfe a).Leaves
      (fun k => (r, seq, a) ∈ k.acts) fun _ => Outcome result failure := by
  have hact : Stable fun k => (r, seq, a) ∈ k.acts := fun k e b h => (k.learn_grows e b).2.2.2 h
  have hrecord : ∀ b attrs fid, (recordOutcome r seq b attrs fid).Leaves
      (fun k => (r, seq, a) ∈ k.acts)
      fun _ k => (r, seq, a) ∈ k.acts ∧ k.Settles r attrs fun s => s.isTerminal = true :=
    fun _ _ _ => (leaves_after hact _).and ((leaves_any _).bind fun _ => settles_of_append _)
  unfold completeWorkflowActivity.advance
  split_ifs with hempty hretry
  · refine (hrecord _ _ _).imp fun _ k h => ?_
    exact ⟨r, seq, a, h.1, .inl (by simpa [hempty] using h.2)⟩
  · refine (leaves_after hact _).imp fun _ k h => ?_
    exact ⟨r, seq, a, h, .inr (.inr ⟨by simpa using hempty, hretry⟩)⟩
  · refine (hrecord _ _ _).imp fun _ k h => ?_
    exact ⟨r, seq, a, h.1, .inl (by simpa [hempty] using h.2)⟩

theorem completeWorkflowActivity_leaves (r : RunRef) (seq : Int) (result failure : Raw) :
    (completeWorkflowActivity r seq result failure).Leaves (fun k => k.wrote = false)
      fun _ => Outcome result failure := by
  refine withRun_leaves stable_outcome ?_
  have hget : (getWorkflowActivity r seq).Leaves (fun k => k.wrote = false)
      fun o k => k.wrote = false ∧ ∀ a, o = some a → (r, seq, a) ∈ k.acts := by
    refine fun k hk => ⟨trivial, ?_⟩
    rintro _ ⟨_ | a, rfl⟩ _ ⟨⟩
    · exact ⟨hk, fun _ h => by cases h⟩
    · refine ⟨hk, fun a' h => ?_⟩
      obtain rfl := Option.some.inj h
      simp [passing, Passage.learn, hk]
  refine hget.bind fun o => ?_
  cases o with
  | none => exact .throw _
  | some a =>
    simp only
    split_ifs with hterm
    · exact .pure fun k hk => ⟨r, seq, a, hk.2 a rfl, .inr (.inl hterm)⟩
    have hact : Stable fun k => (r, seq, a) ∈ k.acts := fun k e b h => (k.learn_grows e b).2.2.2 h
    refine (((leaves_after hact (attempt (describeWorkflow r))).given fun k hk => hk.2 a rfl).and
      ((describeWorkflow_leaves r false).lift.given fun k hk => hk.1)).bind fun res => ?_
    rcases res with e | _ | p
    · exact (advance_leaves r seq result failure none a).given fun _ h => h.1
    · exact (advance_leaves r seq result failure none a).given fun _ h => h.1
    simp only
    split_ifs with hclosed
    · refine .pure fun k hk => ?_
      obtain ⟨hnames, -, hrow⟩ := hk.2 _ rfl _ rfl
      exact ⟨r, seq, a, hk.1, .inl (.inr ⟨p.2, hnames.eq ▸ hrow trivial, hclosed⟩)⟩
    · exact (advance_leaves r seq result failure _ a).given fun _ h => h.1

theorem respondActivity_leaves {token : Nat} {result failure : Raw} {msg : String}
    {f : Option ActivityTask → Go Unit} (hnone : f none = throw msg)
    (hsome : ∀ t, f (some t) = completeWorkflowActivity t.ref t.seq result failure) :
    (resolveActivityToken token >>= f).Leaves (fun k => k.wrote = false)
      fun _ => Outcome result failure := by
  have hresolve : (resolveActivityToken token).Leaves (fun k => k.wrote = false)
      fun _ k => k.wrote = false := fun k hk => ⟨trivial, fun _ _ _ _ => hk⟩
  refine hresolve.bind fun o => ?_
  cases o with
  | none => exact hnone ▸ .throw _
  | some t => exact hsome t ▸ completeWorkflowActivity_leaves t.ref t.seq result failure

/-! ## Starts -/

/-- The run of an answer, if there is one, is one whose row was read. -/
abbrev Passage.Seen (o : Option (RunRef × WorkflowExecution)) (k : Passage) : Prop :=
  ∀ p, o = some p → p.1 ∈ k.runs

theorem stable_run {r : RunRef} : Stable fun k => r ∈ k.runs :=
  fun k e a h => (k.learn_grows e a).1 h

theorem describeWorkflow_seen (t : Target) : (describeWorkflow t).Leaves P Seen :=
  fun k _ => (describeWorkflow_leaves t k.wrote).imp (fun _ _ h p hp => (h p hp).2.1) k rfl

theorem pure_none_seen : (pure none : Go _).Leaves P Seen :=
  .pure fun _ _ _ h => by cases h

theorem priorStart_seen (ns wf requestID : String) :
    (priorStart ns wf requestID).Leaves P Seen := by
  unfold priorStart
  split_ifs
  · exact pure_none_seen
  refine (leaves_any _).bind fun res => ?_
  rcases res with e | _ | run
  · exact pure_none_seen
  · exact pure_none_seen
  refine (describeWorkflow_seen _).lift.bind fun res => ?_
  cases res with
  | error e => exact pure_none_seen
  | ok found => exact .pure fun k hk => hk _ rfl

theorem resolveWorkflowIdConflict_seen (ns wf : String) (policy : ConflictPolicy) :
    (resolveWorkflowIdConflict ns wf policy).Leaves P Seen := by
  unfold resolveWorkflowIdConflict
  split_ifs
  · exact pure_none_seen
  refine (describeWorkflow_seen _).lift.bind fun res => ?_
  rcases res with e | _ | p
  · exact pure_none_seen
  · exact pure_none_seen
  simp only
  split_ifs
  · exact pure_none_seen
  cases policy with
  | useExisting => exact .pure fun k hk => hk _ rfl
  | terminateExisting => exact (leaves_any _).bind fun _ => pure_none_seen
  | fail => exact .throw _
  | unset | unrecognised => exact pure_none_seen

theorem createRun_seen (a : StartRequest) (wf run : String) :
    (createRun a wf run).Leaves P fun p k => p.1 ∈ k.runs := by
  let r : RunRef := ⟨a.ns, wf, run⟩
  refine (leaves_any _).bind fun t => (leaves_any _).bind fun _ => (leaves_any _).bind fun _ =>
    (leaves_any _).bind fun _ => ((appendHistory_leaves r _).imp ?_).bind fun _ =>
    ((leaves_after (stable_run (r := r)) _).and (describeWorkflow_seen r).lift).bind fun res => ?_
  · rintro ev k ⟨r', hr', h, -⟩
    exact hr'.eq ▸ h
  rcases res with e | _ | p
  · exact ((leaves_after stable_run _).given fun _ h => h.1).bind fun _ => .pure fun _ => id
  · exact ((leaves_after stable_run _).given fun _ h => h.1).bind fun _ => .pure fun _ => id
  · exact ((leaves_after stable_run _).given fun _ h => h.2 _ rfl p rfl).bind
      fun _ => .pure fun _ => id

theorem startWorkflowFull_seen (a : StartRequest) :
    (startWorkflowFull a).Leaves P fun p k => p.1 ∈ k.runs := by
  refine (leaves_any _).bind fun _ => ?_
  split_ifs
  · exact .throw _
  refine (leaves_any _).bind fun wf => (priorStart_seen _ _ _).bind fun found => ?_
  cases found with
  | some p => exact .pure fun k hk => hk p rfl
  | none =>
    refine (resolveWorkflowIdConflict_seen _ _ _).bind fun found => ?_
    cases found with
    | some p => exact .pure fun k hk => hk p rfl
    | none => exact (leaves_any _).bind fun run => createRun_seen a wf run

end Leaves

/-! ## The replies -/

/-- An error, or success with the run that is returned, if one is. -/
abbrev RunReply := Except String (Option RunRef)

def tell {α : Type} (x : Go α) (run : α → Option RunRef) : Program Effect Effect.Answer RunReply :=
  x.run >>= fun res => pure (res.map run)

/-- `program` with its reply, where one is looked at. -/
def reply (fuel : Nat) : Operation → Program Effect Effect.Answer RunReply
  | .start a => tell (startWorkflowFull a) fun p => some p.1
  | .signal t name payload identity => tell (signalWorkflow t name payload identity) fun _ => none
  | .cancel t reason identity =>
    tell (cancelWorkflowWithReason t reason identity) fun p => some p.1
  | .terminate t reason identity =>
    tell (terminateWorkflowWithReason t reason identity) fun p => some p.1
  | .respondActivityCompleted token result =>
    tell (respondActivityCompleted token result) fun _ => none
  | .respondActivityFailed token failure =>
    tell (respondActivityFailed token failure) fun _ => none
  | o => program fuel o >>= fun _ => pure (.ok none)

/-- What success says, of a start with the run it returns. -/
def Operation.Receipt : Operation → Option RunRef → Passage → Prop
  | .start _, c, k => ∀ r, c = some r → r ∈ k.runs
  | .signal t name payload identity, _, k =>
    ∃ r, t.Names r ∧ k.Settles r (.signaled name payload identity) fun _ => False
  | .cancel t reason identity, _, k =>
    ∃ r, t.Names r ∧ k.Settles r (.cancelRequested reason identity)
      fun s => s.isTerminal = true ∨ s = .canceling
  | .terminate t reason identity, _, k =>
    ∃ r, t.Names r ∧ k.Settles r (.workflowTerminated reason identity)
      fun s => s.isTerminal = true
  | .respondActivityCompleted _ result, _, k => k.Outcome result .empty
  | .respondActivityFailed _ failure, _, k => k.Outcome .empty failure
  | _, _, _ => True

theorem Go.Leaves.tell {α : Type} {x : Go α} {run : α → Option RunRef} {A : α → Passage → Prop}
    {Q : Option RunRef → Passage → Prop} (hx : x.Leaves (fun k => k.wrote = false) A)
    (hQ : ∀ a k, A a k → Q (run a) k) :
    (tell x run).conforms passing (fun res k => ∀ c, res = .ok c → Q c k) {} := by
  refine (Program.conforms_bind _ _).mpr (Program.conforms_mono ?_ _ (hx {} rfl))
  rintro (e | a) k h c ⟨⟩
  exact hQ a k (h a rfl)

theorem reply_receipt (fuel : Nat) (o : Operation) :
    (reply fuel o).conforms passing (fun res k => ∀ c, res = .ok c → o.Receipt c k) {} := by
  cases o with
  | start a =>
    refine (startWorkflowFull_seen a).tell fun p k h r hr => ?_
    exact Option.some.inj hr ▸ h
  | signal t name payload identity =>
    exact (signalWorkflow_leaves t name payload identity).tell fun _ _ => id
  | cancel t reason identity =>
    exact (cancelWorkflow_leaves t reason identity).tell fun _ _ => id
  | terminate t reason identity =>
    exact (terminalTransition_leaves t .terminated _).tell fun _ _ => id
  | respondActivityCompleted token result =>
    exact (respondActivity_leaves rfl fun _ => rfl).tell fun _ _ => id
  | respondActivityFailed token failure =>
    exact (respondActivity_leaves rfl fun _ => rfl).tell fun _ _ => id
  | _ =>
    exact Program.conforms_mono (fun _ _ _ _ _ => trivial) _
      (leaves_any (P := fun _ => True) (ExceptT.mk _) {} trivial)

/-! ## Operations that are answered -/

section Answered

variable {I M : Type} {starts : Prop}

def answered (fuel : Nat) (w : World) (mon : M) (ops : I → Operation) :
    Pool I Effect Effect.Answer (Shared I M) RunReply :=
  ⟨⟨w, fun _ => none, mon⟩, fun i => reply fuel (ops i)⟩

theorem reply_follows (fuel : Nat) {o : Operation} (hplain : o.Plain)
    (hstarts : starts ∨ o.StartsNone) :
    (reply fuel o).conforms (protocol starts) (fun _ k' => k'.mid = none) o.view := by
  have h := program_follows fuel hplain hstarts
  cases o with
  | start | signal | cancel | terminate | respondActivityCompleted | respondActivityFailed =>
    simp only [program, drop, Program.conforms_bind] at h
    exact (Program.conforms_bind _ _).mpr h
  | _ => exact (Program.conforms_bind _ _).mpr h

def Alongside (Inv : Shared I M → (I → View) → (I → Passage) → Prop) (s : Shared I M)
    (both : I → View × Passage) : Prop :=
  Inv s (fun i => (both i).1) fun i => (both i).2

/-- `together_invariant` for threads that keep their passage beside their view,
with what their replies say. -/
theorem answered_invariant [DecidableEq I] {observe : I → Effect → World → M → M}
    {P : Shared I M → I → Effect → Prop} (Inv : Shared I M → (I → View) → (I → Passage) → Prop)
    (hkeep : ∀ {s know past i e}, Inv s know past → (know i).guard starts e → P s i e →
      s.waits e = false → Inv (s.after observe i e)
        (Function.update know i ((know i).learn e (handler e s.world).1))
        (Function.update past i ((past i).learn e (handler e s.world).1)))
    {fuel : Nat} {w : World} {mon : M} {ops : I → Operation}
    (hops : ∀ i, (ops i).Plain ∧ (starts ∨ (ops i).StartsNone))
    (hinit : Inv ⟨w, fun _ => none, mon⟩ (fun i => (ops i).view) fun _ => {})
    {p : Pool I Effect Effect.Answer (Shared I M) RunReply}
    (hreach : Pool.Reaches (access observe) P (answered fuel w mon ops) p) :
    ∃ know past, Inv p.world know past ∧ (p.Finished → ∀ i, (know i).mid = none) ∧
      ∀ i c, p.code i = .done (.ok c) → (ops i).Receipt c (past i) := by
  have hboth : Alongside Inv ⟨w, fun _ => none, mon⟩ fun i => ((ops i).view, {}) := hinit
  obtain ⟨both, hinv, hconf⟩ := Pool.invariant (T := (protocol starts).both passing)
    (Q := fun i (res : RunReply) k => k.1.mid = none ∧
      ∀ c, res = .ok c → (ops i).Receipt c k.2)
    (fun {i e s a s'} hact => by
      obtain ⟨-, rfl, -⟩ := access_eq_some hact
      exact ⟨handler_sound e s.world, handler_sound e s.world⟩)
    (fun {s know i e a s'} hinv hguard hP hact => by
      obtain ⟨hwait, rfl, rfl⟩ := access_eq_some hact
      have hstep := hkeep hinv hguard.1 hP hwait
      simp only [Alongside, Function.apply_update (fun _ => Prod.fst),
        Function.apply_update (fun _ => Prod.snd)]
      exact hstep)
    hreach hboth
    fun i => Program.conforms_both (reply_follows fuel (hops i).1 (hops i).2) (reply_receipt fuel _)
  refine ⟨_, _, hinv, fun hfin i => ?_, fun i c hc => ?_⟩
  · have hi := hconf i
    have hdone := hfin i
    cases hcode : p.code i with
    | done a =>
      rw [hcode] at hi
      exact hi.1
    | step e next => simp [hcode, Program.returned] at hdone
  · have hi := hconf i
    rw [hc] at hi
    exact hi.2 c rfl

end Answered

end DurableTasks
