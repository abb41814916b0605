import DurableTasks.Engine.Conduct

/-!
The activity core, the command batch and the purge keep to the write
discipline.
-/

namespace DurableTasks

open Effects Engine

variable {r : RunRef} {seq : Int} {G : World → Write → Prop} {w : World}

variable {L : Licence} {A : World → Prop}

/-! ## Activities -/

/-- The record at `(run, seq)`, if there is one, is not terminal. -/
def Store.Pending (s : Store) (r : RunRef) (seq : Int) : Prop :=
  ∀ b, s.get (.wfact r seq) = some b → b.isTerminal = false

theorem putWorkflowActivity_spec {a : WorkflowActivity} {Q : Post Unit World} :
    (putWorkflowActivity r seq a).spec A G Q w ↔
      if a.storable then
        G w (.put (.wfact r seq) a) ∧ Q (.ok ()) (w.write (.put (.wfact r seq) a))
      else Q (.error "store.put: marshal: invalid json.RawMessage") w := by
  unfold putWorkflowActivity
  split_ifs <;> simp

theorem keeps_appendStartedMarker (r : RunRef) (seq : Int) (a : WorkflowActivity) (b : Bool) :
    Keeps L A (appendStartedMarker r seq a b) := by
  unfold appendStartedMarker
  cases b
  · exact .pure ()
  · exact (keeps_appendHistory _ rfl).bind fun _ => .pure ()

theorem dispatchActivityAttempt_spec {a : WorkflowActivity} {b : Bool} (hw : w.window = .settled)
    (hpending : w.store.Pending r seq) (hstored : w.store.get (.wfact r seq) = some a) :
    (dispatchActivityAttempt r seq a b).spec A L.guard (fun _ w' => w'.window = .settled) w := by
  simp only [dispatchActivityAttempt, Go.spec_bind, putWorkflowActivity_spec]
  split_ifs with hstorable
  · refine ⟨settled_guard hw (.record hstorable hpending (fun h => ?_) ?_), ?_⟩
    · cases h
    · exact .inr ⟨a, hstored, rfl, rfl⟩
    · refine Go.spec_mono ?_ _ (keeps_appendStartedMarker _ _ _ _ _ rfl)
      rintro (e | _) w' hw'
      · exact hw'
      · simpa using hw'
  · exact hw

theorem activityQueue_spec {q : String} {Q : Post String World}
    (hQ : ∀ q, Q (.ok q) w) : (activityQueue r q).spec A G Q w := by
  unfold activityQueue
  split_ifs
  · simp only [Go.spec_bind, Go.spec_attempt, spec_describeWorkflow]
    cases w.store.resolve r.target <;> exact hQ _
  · exact hQ _

theorem keeps_applyScheduleActivity (r : RunRef) (seq : Int) (type : String) (input : Raw)
    (queue : String) (close beat : Int) (rp : Option Temporal.RetryPolicyJSON) :
    Keeps L A (applyScheduleActivity r seq type input queue close beat rp) := by
  intro w hw
  simp only [applyScheduleActivity, Go.spec_bind, Go.spec_getWorkflowActivity]
  cases hget : w.store.get (.wfact r seq) with
  | some a => exact hw
  | none =>
    simp only [Go.spec_bind]
    refine activityQueue_spec fun q => ?_
    simp only [putWorkflowActivity_spec]
    split_ifs with hstorable
    · refine ⟨settled_guard hw (.record hstorable (by simp [hget]) (fun h => ?_) ?_), ?_⟩
      · cases h
      · exact .inl ⟨le_rfl, Temporal.one_le_maximumAttempts _⟩
      · -- the record just written is still there, and not terminal, after the append
        set a := scheduledActivity r seq type input q close beat rp
        have hstored : (w.write (.put (.wfact r seq) a)).store.get (.wfact r seq) = some a := by
          simp
        have hw₁ : (w.write (.put (.wfact r seq) a)).window = .settled := rfl
        generalize w.write (.put (.wfact r seq) a) = w₁ at hstored hw₁ ⊢
        simp only [spec_appendHistory, Store.resolve_coe]
        cases hrow : w₁.store.get (.wf r) with
        | none => exact hw₁
        | some row =>
          simp only [Option.map_some]
          have hadm : w₁.tick.window.Admits r
              (.activityScheduled seq a.activityID type input.value q rp 1) := by
            simp [hw₁, Window.Admits, EventAttrs.closes]
          obtain ⟨halong, hw₂⟩ := append_along (L := L) (w := w₁.tick) w₁.time hrow hadm
          have hstored₂ : (w₁.tick.writes (appendWrites r row w₁.time
              (.activityScheduled seq a.activityID type input.value q rp 1))).store.get
                (.wfact r seq) = some a := by
            simp [appendWrites, Store.get_put_of_ne, hstored]
          refine ⟨halong, dispatchActivityAttempt_spec hw₂ (fun b hb => ?_) hstored₂⟩
          obtain rfl : a = b := Option.some.inj (hstored₂.symm.trans hb)
          rfl
    · exact hw

/-- The outcome of an activity whose run is open or gone. -/
theorem recordOutcome_spec {a : WorkflowActivity} {id : FailureIdentity}
    (hw : w.window = .settled) (hpending : w.store.Pending r seq) (hterm : a.isTerminal = true)
    (hfollows : ∃ b, w.store.get (.wfact r seq) = some b ∧ a.Follows b)
    (hopen : ∀ row, w.store.get (.wf r) = some row → row.isOpen = true) :
    (recordOutcome r seq a (a.outcome seq) id).spec A L.guard (fun _ w' => w'.AtRest) w := by
  simp only [recordOutcome, Go.spec_bind, putWorkflowActivity_spec, spec_reportOutcome]
  split_ifs with hstorable
  · refine ⟨settled_guard hw (.record hstorable hpending (fun _ => hopen) (.inr hfollows)), ?_⟩
    have hw₁ : (w.write (.put (.wfact r seq) a)).window = .outcome r seq a := by
      simp [Window.next, hterm]
    generalize w.write (.put (.wfact r seq) a) = w₁ at hw₁ ⊢
    simp only [spec_appendHistory, Store.resolve_coe]
    cases hrow : w₁.store.get (.wf r) with
    | none => exact .inr ⟨r, seq, a, hw₁, hrow⟩
    | some row =>
      simp only [Option.map_some]
      have hadm : w₁.tick.window.Admits r (a.outcome seq) := by
        simp [hw₁, Window.Admits]
      obtain ⟨halong, hw₂⟩ := append_along (L := L) (w := w₁.tick) w₁.time hrow hadm
      refine ⟨halong, Go.spec_mono ?_ _ (keeps_scheduleWorkflowTask r _ hw₂)⟩
      exact fun _ _ h => .inl h
  · exact .inl hw

/-- A report finds nothing to advance, or a pending activity of a run that is open
or gone. -/
theorem completeWorkflowActivity_cases {result failure : Raw} {G : World → Write → Prop}
    {Q : Post Unit World}
    (hnone : w.store.get (.wfact r seq) = none → ∀ e, Q (.error e) w)
    (hdone : ∀ a, w.store.get (.wfact r seq) = some a → (a.isTerminal = true ∨
      ∃ row, w.store.get (.wf r) = some row ∧ row.isOpen = false) → Q (.ok ()) w)
    (hadvance : ∀ a, w.store.get (.wfact r seq) = some a → a.isTerminal = false →
      (∀ row, w.store.get (.wf r) = some row → row.isOpen = true) →
      (completeWorkflowActivity.advance r seq result failure (w.store.get (.wf r)) a).spec
        A G Q w) :
    (completeWorkflowActivity r seq result failure).spec A G Q w := by
  simp only [completeWorkflowActivity, Go.spec_withRun, Go.spec_bind, Go.spec_getWorkflowActivity]
  cases hget : w.store.get (.wfact r seq) with
  | none => exact hnone hget _
  | some a =>
    have hadvance := hadvance a hget
    dsimp only
    split_ifs with hterm
    · exact hdone a hget (.inl hterm)
    simp only [Go.spec_bind, Go.spec_attempt, spec_describeWorkflow, Store.resolve_coe]
    cases hrow : w.store.get (.wf r) with
    | none => simpa [hrow] using hadvance (by simpa using hterm)
    | some row =>
      dsimp only [Option.map_some]
      split_ifs with hclosed
      · exact hdone a hget (.inr ⟨row, hrow, by simp [WorkflowExecution.isOpen, hclosed]⟩)
      · rw [hrow] at hadvance
        refine hadvance (by simpa using hterm) ?_
        rintro _ ⟨⟩
        simpa [WorkflowExecution.isOpen] using hclosed

theorem completeWorkflowActivity_spec {result failure : Raw} (hw : w.window = .settled) :
    (completeWorkflowActivity r seq result failure).spec A L.guard (fun _ w' => w'.AtRest) w := by
  refine completeWorkflowActivity_cases (fun _ _ => .inl hw) (fun _ _ _ => .inl hw)
    fun a hget hterm hopen => ?_
  have hpending : w.store.Pending r seq := by
    intro b hb
    obtain rfl : a = b := by simpa [hget] using hb
    exact hterm
  unfold completeWorkflowActivity.advance
  split_ifs with hempty hretry
  · exact recordOutcome_spec hw hpending rfl ⟨a, hget, rfl, rfl⟩ hopen
  · simp only [Go.spec_bind, Go.spec_recordFailure, putWorkflowActivity_spec]
    split_ifs with hstorable
    · have hleft := Temporal.attempt_lt_of_shouldRetry hretry
      refine ⟨settled_guard hw (.record hstorable hpending (fun h => ?_) (.inl ⟨?_, ?_⟩)), ?_⟩
      · cases h
      · exact Nat.succ_pos _
      · push_cast
        omega
      · exact Go.spec_afterFunc.mpr (.inl rfl)
    · exact .inl hw
  · exact recordOutcome_spec hw hpending rfl ⟨a, hget, rfl, rfl⟩ hopen

theorem keeps_retryTimer (r : RunRef) (seq : Int) : Keeps L A (retryTimer r seq) := by
  intro w hw
  simp only [retryTimer, Go.spec_bind, Go.spec_fire]
  split_ifs
  · simp only [Go.spec_withRun, Go.spec_bind, Go.spec_attempt, Go.spec_getWorkflowActivity]
    cases hget : w.store.get (.wfact r seq) with
    | none => exact hw
    | some a =>
      dsimp only
      split_ifs with hterm
      · exact hw
      · refine dispatchActivityAttempt_spec hw (fun b hb => ?_) hget
        obtain rfl : a = b := by simpa [hget] using hb
        simpa using hterm
  · exact hw

/-! ## The command batch -/

theorem decodeInput_spec {what : String} {input : Raw} {Q : Post Json World}
    (hQ : ∀ res, Q res w) : (decodeInput what input).spec A G Q w := by
  unfold decodeInput
  split_ifs
  · exact hQ _
  · split <;> exact hQ _

theorem keeps_childStartRecorded (r : RunRef) (seq : Int) :
    Keeps L A (childStartRecorded r seq) := by
  refine (keeps_listHistory r).attempt.bind ?_
  rintro (e | evs)
  · exact .pure _
  · exact .pure _

theorem keeps_childWorkflowIdFor (wf type : String) : Keeps L A (childWorkflowIdFor wf type) :=
  .ite (fun _ => .bind (fun _ hw => Go.spec_newRunId.mpr fun _ => hw) fun _ => .pure _)
    fun _ => .pure _

section Commands

variable (hdraws : L.Draws A)
include hdraws

theorem keeps_applyContinueAsNew (hcloses : ∀ w, A w → L.closes r (.continuedAsNew w.nextId))
    (input : Raw) (type queue : String) : Keeps L A (applyContinueAsNew r input type queue) := by
  intro w hw
  simp only [applyContinueAsNew, Go.spec_bind, spec_describeWorkflow, Store.resolve_coe]
  cases hrow : w.store.get (.wf r) with
  | none => exact hw
  | some cur =>
    dsimp only [Option.map_some]
    split_ifs with hterm
    · exact hw
    have hopen : cur.isOpen = true := by simpa [WorkflowExecution.isOpen] using hterm
    rw [Go.spec_bind]
    refine decodeInput_spec ?_
    rintro (e | args)
    · exact hw
    simp only [Go.spec_bind, Go.spec_newRunId, spec_terminalTransition, Store.resolve_coe,
      World.mint_store, hrow, Option.map_some, hterm]
    intro hA
    have hclose : CloseAlong L.guard w.mint r cur .continuedAsNew (.continuedAsNew w.nextId) ∧
        (terminatedWorld w.mint r cur .continuedAsNew (.continuedAsNew w.nextId)).window =
          .settled := close_along hw hrow hopen rfl rfl (hcloses w hA)
    obtain ⟨halong, hw'⟩ := hclose
    refine ⟨halong, ?_⟩
    refine Go.spec_mono ?_ _ (startWorkflowFull_spec hdraws hw' ?_ fun c hc => by cases hc.1)
    · rintro (e | p) w' h <;> exact h
    · rintro run hrun wf -
      obtain rfl := Option.some.inj hrun
      exact (hdraws w hA r.ns wf).2.terminated (w := w.mint) hrow

theorem keeps_applyStartChild (r : RunRef) (seq : Int) (wf type queue : String) (input : Raw)
    (attrs : List (String × Json)) :
    Keeps L A (applyStartChild r seq wf type queue input attrs) := by
  refine .ite (fun _ => .throw _) fun _ => (keeps_childStartRecorded r seq).bind fun b => ?_
  refine .ite (fun _ => .pure _) fun _ => ?_
  refine .bind (fun w hw => decodeInput_spec fun _ => hw) fun args => ?_
  refine (keeps_childWorkflowIdFor _ _).bind fun wf' => .bind (fun w hw => ?_) ?_
  · exact startWorkflowFull_spec hdraws hw (fun run hrun => by cases hrun) fun c hc => by cases hc.1
  · rintro ⟨child, row⟩
    exact (keeps_appendHistory _ rfl).bind fun _ => keeps_scheduleWorkflowTask r

variable {D : String → Prop} (hdrawn : ∀ w, A w → D w.nextId)
include hdrawn

theorem keeps_applyCommand {c : Command} (hc : ∀ attrs, c.Closes D attrs → L.closes r attrs) :
    Keeps L A (applyCommand r c) := by
  cases c with
  | complete result =>
    refine (keeps_terminalTransition _ _ rfl rfl ?_).bind fun _ => .pure _
    exact Target.Names.closes (hc _ rfl)
  | fail failure =>
    refine (keeps_terminalTransition _ _ rfl rfl ?_).bind fun _ => .pure _
    exact Target.Names.closes (hc _ rfl)
  | scheduleActivity seq type input queue close beat rp =>
    exact keeps_applyScheduleActivity r seq type input queue close beat rp
  | canceled failure => exact (keeps_ackCanceled (hc _ rfl)).bind fun _ => .pure _
  | continueAsNew input type queue =>
    exact keeps_applyContinueAsNew hdraws (fun w hA => hc _ ⟨_, hdrawn w hA, rfl⟩) input type queue
  | startChild seq wf type queue input attrs =>
    exact keeps_applyStartChild hdraws r seq wf type queue input attrs

theorem keeps_applyCommands {cmds : List Command}
    (hcmds : ∀ c ∈ cmds, ∀ attrs, c.Closes D attrs → L.closes r attrs) :
    Keeps L A (applyCommands r cmds) :=
  .forM fun c hc => (keeps_applyCommand hdraws hdrawn (hcmds c hc)).attempt.bind fun _ => .pure _

theorem respondWorkflow_spec {token : Nat} {cmds : List Command} (hw : w.window = .settled)
    (hcmds : ∀ t, (w.disp.completeWorkflowTask token).1 = some t →
      ∀ c ∈ cmds, ∀ attrs, c.Closes D attrs → L.closes t.ref attrs) :
    (respondWorkflow token cmds).spec A L.guard (fun _ w' => w'.window = .settled) w := by
  simp only [respondWorkflow, Go.spec_bind, Go.spec_completeWorkflowTask]
  cases hfound : (w.disp.completeWorkflowTask token).1 with
  | none => exact hw
  | some t => exact Keeps.withRun (keeps_applyCommands hdraws hdrawn (hcmds t hfound)) _ hw

end Commands

theorem respondActivity_spec {token : Nat} {f : ActivityTask → Go Unit} (hw : w.window = .settled)
    (hf : ∀ t (w : World), w.window = .settled → (f t).spec A L.guard (fun _ w' => w'.AtRest) w) :
    (resolveActivityToken token >>= fun
      | none => throw "task token not found"
      | some t => f t : Go Unit).spec A L.guard (fun _ w' => w'.AtRest) w := by
  simp only [Go.spec_bind, Go.spec_resolveActivityToken]
  cases (w.disp.resolveActivityToken token).1 with
  | none => exact .inl hw
  | some t => exact hf t _ hw

/-! ## Retention -/

theorem World.writes_append (w : World) (xs ys : List Write) :
    w.writes (xs ++ ys) = (w.writes xs).writes ys := by
  induction xs generalizing w with
  | nil => rfl
  | cons x xs ih => exact ih (w.write x)

theorem along_append {xs ys : List Write} :
    Along G w (xs ++ ys) ↔ Along G w xs ∧ Along G (w.writes xs) ys := by
  induction xs generalizing w with
  | nil => simp
  | cons x xs ih => simp only [List.cons_append, along_cons, World.writes_cons, ih, and_assoc]

theorem spec_delAll {keys : List Key} {Q : Post Unit World} :
    (delAll keys).spec A G Q w ↔
      Along G w (keys.map .del) ∧ Q (.ok ()) (w.writes (keys.map .del)) := by
  induction keys generalizing w with
  | nil => exact (true_and _).symm.to_iff
  | cons k keys ih =>
    change (del k >>= fun _ => delAll keys).spec A G Q w ↔ _
    simp only [Go.spec_bind, Go.spec_del, ih, List.map_cons, along_cons, World.writes_cons,
      and_assoc]

theorem get_writes_del (w : World) (keys : List Key) (k : Key) :
    (w.writes (keys.map .del)).store.get k = if k ∈ keys then none else w.store.get k := by
  induction keys generalizing w with
  | nil => simp
  | cons k' keys ih =>
    rw [List.map_cons, World.writes_cons, ih]
    rcases eq_or_ne k k' with rfl | hne
    · simp
    · simp [hne, Store.get_del_of_ne]

/-- A key that is deleted if it is stored is gone. -/
theorem get_writes_del_none {keys : List Key} {k : Key}
    (h : ∀ v, w.store.get k = some v → k ∈ keys) :
    (w.writes (keys.map .del)).store.get k = none := by
  rw [get_writes_del]
  split_ifs with hmem
  · rfl
  · exact Option.eq_none_iff_forall_ne_some.mpr fun v hv => hmem (h v hv)

section Purge

variable {s : Store} {k : Key} {row : WorkflowExecution}

/-- The keys of run `r`: its row, history, activity records and index entry, the
requests that started it and the manual triggers that did. -/
def Store.Owns (s : Store) (r : RunRef) : Key → Prop
  | .wf c | .wfh c _ | .wfact c _ | .wfopen c => c = r
  | .idem ns wf req => ns = r.ns ∧ wf = r.wf ∧ s.get (.idem ns wf req) = some r.run
  | .sctrig ns sid req => ns = r.ns ∧ s.get (.sctrig ns sid req) = some (r.wf, r.run)
  | .ns _ | .wfidx _ => False

/-- The keys a purge of `r` deletes ahead of its row. -/
def Store.purgeKeys (s : Store) (r : RunRef) (row : WorkflowExecution) : List Key :=
  (s.events r).map (fun p => .wfh r p.1) ++ (s.acts r).map (fun p => .wfact r p.1) ++
    ((s.requests r.ns r.wf).filter fun p => p.2 = r.run).map (fun p => .idem r.ns r.wf p.1) ++
    (if scheduleOf row = "" then []
      else ((s.triggers r.ns (scheduleOf row)).filter fun p => p.2.1 = r.wf ∧ p.2.2 = r.run).map
        fun p => .sctrig r.ns (scheduleOf row) p.1) ++ [.wfopen r]

theorem mem_under {α : Type} {m : Std.TreeMap (List String) α} {a b req : String} {v : α} :
    ((req, v) ∈ m.toList.filterMap fun p =>
      match p.1 with
      | [a', b', q] => if a' = a ∧ b' = b then some (q, p.2) else none
      | _ => none) ↔ m[[a, b, req]]? = some v := by
  rw [List.mem_filterMap]
  constructor
  · grind
  · intro h
    exact ⟨([a, b, req], v), Std.TreeMap.mem_toList_iff_getElem?_eq_some.mpr h, by simp⟩

theorem Store.mem_requests {ns wf req run : String} :
    (req, run) ∈ s.requests ns wf ↔ s.get (.idem ns wf req) = some run := mem_under

theorem Store.mem_triggers {ns sid req : String} {v : String × String} :
    (req, v) ∈ s.triggers ns sid ↔ s.get (.sctrig ns sid req) = some v := mem_under

theorem Store.event_mem_purgeKeys {id : Nat} {ev : HistoryEvent}
    (h : s.get (.wfh r id) = some ev) : .wfh r id ∈ s.purgeKeys r row := by
  simp only [Store.purgeKeys, List.mem_append, List.mem_map]
  exact .inl (.inl (.inl (.inl ⟨(id, ev), Store.mem_events.mpr h, rfl⟩)))

theorem Store.record_mem_purgeKeys {a : WorkflowActivity}
    (h : s.get (.wfact r seq) = some a) : .wfact r seq ∈ s.purgeKeys r row := by
  simp only [Store.purgeKeys, List.mem_append, List.mem_map]
  exact .inl (.inl (.inl (.inr ⟨(seq, a), Store.mem_acts.mpr h, rfl⟩)))

theorem Store.owns_of_mem_purgeKeys (hk : k ∈ s.purgeKeys r row) : s.Owns r k ∧ k ≠ .wf r := by
  simp only [Store.purgeKeys, List.mem_append, List.mem_map, List.mem_filter, decide_eq_true_eq,
    List.mem_singleton] at hk
  rcases hk with (((⟨p, -, rfl⟩ | ⟨p, -, rfl⟩) | ⟨p, ⟨hp, hrun⟩, rfl⟩) | hk) | rfl
  · exact ⟨rfl, by simp⟩
  · exact ⟨rfl, by simp⟩
  · refine ⟨⟨rfl, rfl, ?_⟩, by simp⟩
    rw [← hrun]
    exact Store.mem_requests.mp hp
  · split_ifs at hk with hsid
    · cases hk
    · obtain ⟨p, hp, rfl⟩ := List.mem_map.mp hk
      rw [List.mem_filter, decide_eq_true_eq] at hp
      refine ⟨⟨rfl, ?_⟩, by simp⟩
      rw [← hp.2.1, ← hp.2.2]
      exact Store.mem_triggers.mp hp.1
  · exact ⟨rfl, by simp⟩

theorem Store.owns_of_mem_purge (hk : k ∈ s.purgeKeys r row ++ [Key.wf r]) : s.Owns r k := by
  rcases List.mem_append.mp hk with hk | hk
  · exact (Store.owns_of_mem_purgeKeys hk).1
  · rw [List.mem_singleton.mp hk]
    rfl

theorem purge_along {keys : List Key} (hkeys : ∀ k ∈ keys, s.Owns r k ∧ k ≠ .wf r)
    (hwin : w.window.Purges r) (hrow : w.store.get (.wf r) = some row)
    (hshut : row.isOpen = false) :
    Along L.guard w (keys.map .del) ∧ (w.writes (keys.map .del)).window.Purges r := by
  induction keys generalizing w with
  | nil => exact ⟨trivial, hwin⟩
  | cons k keys ih =>
    obtain ⟨hk, hne⟩ := hkeys k (by simp)
    rw [List.map_cons, along_cons, World.writes_cons]
    have hstep : L.guard w (.del k) ∧ (w.write (.del k)).window.Purges r := by
      cases k with
      | wfh r' id =>
        obtain rfl : r' = r := hk
        exact ⟨.purgeEvent id hwin hrow hshut, .inr rfl⟩
      | wfact r' seq =>
        obtain rfl : r' = r := hk
        exact ⟨.purgeRecord seq hwin hrow hshut, .inr rfl⟩
      | idem ns wf req => exact ⟨.purgeRequest ns wf req hwin, hwin⟩
      | sctrig ns sid req => exact ⟨.purgeTrigger ns sid req hwin, hwin⟩
      | wfopen r' =>
        obtain rfl : r' = r := hk
        refine ⟨.unlist (.of_row hrow hshut) (.inl hwin), ?_⟩
        rcases hwin with h | h <;> simp [Window.next, Window.Purges, h]
      | wf r' => exact absurd (congrArg Key.wf hk) hne
      | ns | wfidx => exact hk.elim
    have hrest := ih (fun k' hk' => hkeys k' (by simp [hk'])) hstep.2
      ((Store.get_del_of_ne _ hne.symm).trans hrow)
    exact ⟨⟨hstep.1, hrest.1⟩, hrest.2⟩

theorem spec_triggerKeys {sid : String} {Q : Post (List Key) World} :
    (triggerKeys r sid).spec A G Q w ↔
      Q (.ok (if sid = "" then []
        else ((w.store.triggers r.ns sid).filter fun p => p.2.1 = r.wf ∧ p.2.2 = r.run).map
          fun p => .sctrig r.ns sid p.1)) w := by
  unfold triggerKeys
  split_ifs
  · rfl
  · simp only [Go.spec_bind, Go.spec_listTriggers, Go.spec_pure]

theorem purgeWorkflowRun_spec {cutoff : Nat} {Q : Post Bool World}
    (hkept : (∀ row, w.store.get (.wf r) = some row → row.isOpen = true ∨ cutoff < closedAt row) →
      Q (.ok false) w)
    (hpurged : ∀ row, w.store.get (.wf r) = some row → row.isOpen = false →
      closedAt row ≤ cutoff → Along G w ((w.store.purgeKeys r row ++ [Key.wf r]).map .del) ∧
        Q (.ok true) (w.writes ((w.store.purgeKeys r row ++ [Key.wf r]).map .del))) :
    (purgeWorkflowRun r cutoff).spec A G Q w := by
  simp only [purgeWorkflowRun, Go.spec_withRun, Go.spec_bind, spec_describeWorkflow,
    Store.resolve_coe]
  cases hrow : w.store.get (.wf r) with
  | none => exact hkept (by simp [hrow])
  | some row =>
    dsimp only [Option.map_some]
    split_ifs with hskip
    · exact hkept (by simpa [hrow] using hskip)
    obtain ⟨hopen, hle⟩ := not_or.mp hskip
    simp only [Go.spec_bind, Go.spec_listEvents, Go.spec_listWorkflowActivities,
      Go.spec_listRequests, spec_triggerKeys, spec_delAll, Go.spec_pure]
    have hkeys : ∀ l : List Key, l ++ [.wfopen r, .wf r] = l ++ [.wfopen r] ++ [.wf r] := by simp
    rw [hkeys]
    exact hpurged row hrow (by simpa using hopen) (Nat.not_lt.mp hle)

theorem keeps_purgeWorkflowRun (r : RunRef) (cutoff : Nat) :
    Keeps L A (purgeWorkflowRun r cutoff) := by
  intro w hw
  refine purgeWorkflowRun_spec (fun _ => hw) fun row hrow hshut _ => ?_
  obtain ⟨halong, hwin⟩ := purge_along (L := L) (fun k => Store.owns_of_mem_purgeKeys)
    (.inl hw) hrow hshut
  rw [List.map_append, along_append, World.writes_append]
  have hrow₁ : (w.writes ((w.store.purgeKeys r row).map .del)).store.get (.wf r) = some row := by
    rw [get_writes_del, if_neg fun hk => (Store.owns_of_mem_purgeKeys hk).2 rfl, hrow]
  refine ⟨⟨halong, .purgeRow hwin (.of_row hrow₁ hshut) (fun id => ?_) fun seq => ?_, trivial⟩, rfl⟩
  · exact get_writes_del_none fun ev => Store.event_mem_purgeKeys
  · exact get_writes_del_none fun a => Store.record_mem_purgeKeys

end Purge

end DurableTasks
