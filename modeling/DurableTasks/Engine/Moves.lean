import DurableTasks.Engine.Ledger

/-!
Operations as sequences of moves: a world shows a ledger, and every function of
the engine that runs to its end takes it to a world that shows a ledger some
moves on.
-/

namespace DurableTasks

open Effects Engine

variable {r : RunRef} {attrs : EventAttrs} {w : World} {L : Ledger} {a : StartRequest}
  {reason identity : String}

/-- `w` shows the ledger `L`. A workflow task that is answered stays in the
ledger. -/
structure World.Shows (w : World) (L : Ledger) : Prop where
  row : ∀ r, w.store.get (.wf r) = L.row r
  event : ∀ r id, w.store.get (.wfh r id) = L.event r id
  act : ∀ r seq, w.store.get (.wfact r seq) = L.act r seq
  numbered : ∀ r id ev, L.event r id = some ev → ev.eventId = id
  storable : ∀ r seq a, L.act r seq = some a → a.storable = true
  tasks : ∀ p ∈ w.disp.wfByToken, p.2 ∈ L.tasks
  tokens : w.disp.actByToken = L.tokens
  next : w.disp.nextToken = L.nextToken
  timers : w.timers = L.timers

def Key.booked : Key → Bool
  | .wf _ | .wfh _ _ | .wfact _ _ => true
  | _ => false

namespace World.Shows

variable {w w' : World} {L : Ledger} {r : RunRef} {row : WorkflowExecution}

theorem aside (h : w.Shows L) (hstore : w'.store = w.store) (hdisp : w'.disp = w.disp)
    (htimers : w'.timers = w.timers) : w'.Shows L := by
  refine ⟨?_, ?_, ?_, h.numbered, h.storable, ?_, ?_, ?_, ?_⟩
  · exact hstore ▸ h.row
  · exact hstore ▸ h.event
  · exact hstore ▸ h.act
  · exact hdisp ▸ h.tasks
  · exact hdisp ▸ h.tokens
  · exact hdisp ▸ h.next
  · exact htimers ▸ h.timers

theorem tick (h : w.Shows L) : w.tick.Shows L := h.aside rfl rfl rfl

theorem write_aside (h : w.Shows L) {x : Write} (hx : x.key.any Key.booked = false) :
    (w.write x).Shows L := by
  have hget : ∀ k : Key, k.booked = true → (w.write x).store.get k = w.store.get k := by
    intro k hbooked
    refine w.store.get_apply_of_ne fun hk => ?_
    rw [hk, Option.any_some, hbooked] at hx
    cases hx
  refine ⟨fun r => ?_, fun r id => ?_, fun r seq => ?_, h.numbered, h.storable, h.tasks,
    h.tokens, h.next, h.timers⟩
  · rw [hget _ rfl, h.row]
  · rw [hget _ rfl, h.event]
  · rw [hget _ rfl, h.act]

theorem put_row (h : w.Shows L) (r : RunRef) (row : WorkflowExecution) :
    (w.write (.put (.wf r) row)).Shows (L.setRow r row) := by
  refine ⟨fun r' => ?_, fun r' id => ?_, fun r' seq => ?_, h.numbered, h.storable, h.tasks,
    h.tokens, h.next, h.timers⟩
  · by_cases hr : r' = r
    · subst hr
      simp [Ledger.setRow]
    · simp [Ledger.setRow, Store.get_put_of_ne, hr, h.row]
  · simp [Ledger.setRow, Store.get_put_of_ne, h.event]
  · simp [Ledger.setRow, Store.get_put_of_ne, h.act]

theorem put_event (h : w.Shows L) (r : RunRef) (id : Nat) {ev : HistoryEvent}
    (hid : ev.eventId = id) : (w.write (.put (.wfh r id) ev)).Shows (L.setEvent r id ev) := by
  refine ⟨fun r' => ?_, fun r' id' => ?_, fun r' seq => ?_, fun r' id' ev' hev => ?_, h.storable,
    h.tasks, h.tokens, h.next, h.timers⟩
  · simp [Ledger.setEvent, Store.get_put_of_ne, h.row]
  · by_cases hr : r' = r
    · subst hr
      by_cases hid : id' = id
      · subst hid
        simp [Ledger.setEvent]
      · simp [Ledger.setEvent, Store.get_put_of_ne, hid, h.event]
    · simp [Ledger.setEvent, Store.get_put_of_ne, hr, h.event]
  · simp [Ledger.setEvent, Store.get_put_of_ne, h.act]
  · rcases Ledger.setEvent_some hev with ⟨-, rfl, rfl⟩ | hev
    · exact hid
    · exact h.numbered r' id' ev' hev

theorem put_act (h : w.Shows L) (r : RunRef) (seq : Int) {a : WorkflowActivity}
    (ha : a.storable = true) : (w.write (.put (.wfact r seq) a)).Shows (L.setAct r seq a) := by
  refine ⟨fun r' => ?_, fun r' id => ?_, fun r' seq' => ?_, h.numbered,
    fun r' seq' b hb => ?_, h.tasks, h.tokens, h.next, h.timers⟩
  · simp [Ledger.setAct, Store.get_put_of_ne, h.row]
  · simp [Ledger.setAct, Store.get_put_of_ne, h.event]
  · by_cases hr : r' = r
    · subst hr
      by_cases hseq : seq' = seq
      · subst hseq
        simp [Ledger.setAct]
      · simp [Ledger.setAct, Store.get_put_of_ne, hseq, h.act]
    · simp [Ledger.setAct, Store.get_put_of_ne, hr, h.act]
  · rcases Ledger.setAct_some hb with ⟨-, -, rfl⟩ | hb
    · exact ha
    · exact h.storable r' seq' b hb

theorem append (h : w.Shows L) (r : RunRef) (row : WorkflowExecution) (t : Nat)
    (attrs : EventAttrs) :
    (w.tick.writes (appendWrites r row t attrs)).Shows (L.appendTo r row t attrs) := by
  exact (h.tick.put_event r (row.historyLen + 1) rfl).put_row r _

theorem enqueue (h : w.Shows L) (t : WorkflowTask) : (w.enqueue t).Shows (L.enqueue t) := by
  refine ⟨h.row, h.event, h.act, h.numbered, h.storable, fun p hp => ?_, h.tokens,
    congrArg (· + 1) h.next, h.timers⟩
  rcases List.mem_cons.mp hp with rfl | hp
  · exact List.mem_cons_self
  · exact List.mem_cons_of_mem _ (h.tasks p hp)

theorem dispatch (h : w.Shows L) (t : ActivityTask) (n : Nat) :
    (w.dispatch t n).Shows (L.handOut t) := by
  refine ⟨h.row, h.event, h.act, h.numbered, h.storable, h.tasks, ?_, congrArg (· + 1) h.next,
    h.timers⟩
  change (w.disp.nextToken, t) :: w.disp.actByToken = _
  rw [h.tokens, h.next]
  rfl

theorem complete (h : w.Shows L) (token : Nat) :
    ({ w with disp := (w.disp.completeWorkflowTask token).2 } : World).Shows L :=
  ⟨h.row, h.event, h.act, h.numbered, h.storable,
    fun p hp => h.tasks p (List.mem_of_mem_filter hp), h.tokens, h.next, h.timers⟩

theorem resolve (h : w.Shows L) (token : Nat) :
    ({ w with disp := (w.disp.resolveActivityToken token).2 } : World).Shows (L.without token) := by
  refine ⟨h.row, h.event, h.act, h.numbered, h.storable, h.tasks, ?_, h.next, h.timers⟩
  change w.disp.actByToken.filter _ = _
  rw [h.tokens]
  rfl

theorem arm (h : w.Shows L) (r : RunRef) (seq : Int) :
    ({ w with timers := (r, seq) :: w.timers } : World).Shows (L.arm r seq) :=
  ⟨h.row, h.event, h.act, h.numbered, h.storable, h.tasks, h.tokens, h.next,
    congrArg ((r, seq) :: ·) h.timers⟩

theorem disarm (h : w.Shows L) (r : RunRef) (seq : Int) :
    ({ w with timers := w.timers.erase (r, seq) } : World).Shows (L.disarm r seq) :=
  ⟨h.row, h.event, h.act, h.numbered, h.storable, h.tasks, h.tokens, h.next,
    congrArg (List.erase · (r, seq)) h.timers⟩

theorem lists (h : w.Shows L) (r : RunRef) : L.Lists r (w.store.events r) where
  mem id ev := by rw [Store.mem_events, h.event]
  ascending := w.store.ascending_events r

theorem close (h : w.Shows L) (r : RunRef) (row : WorkflowExecution) (status : WorkflowStatus)
    (attrs : EventAttrs) :
    ∃ t t', (terminatedWorld w r row status attrs).Shows
      (L.appendTo r (closedRow row status t) t' attrs) := by
  have hnote : (w.tick.write (.close r (.event status attrs))).Shows L :=
    h.tick.write_aside rfl
  have hclosed : (closedWorld w r row status attrs).Shows
      (L.setRow r (closedRow row status w.time)) :=
    (hnote.put_row r (closedRow row status w.time)).write_aside rfl
  have hfinal := hclosed.append r (closedRow row status w.time)
    (closedWorld w r row status attrs).time attrs
  rw [Ledger.setRow_appendTo] at hfinal
  exact ⟨w.time, (closedWorld w r row status attrs).time, hfinal⟩

end World.Shows

/-! ## What makes moves -/

/-- The next run id drawn is as fresh as those starts are given. -/
def Scope.draws (S : Scope) (w : World) : Prop :=
  ∀ ns wf, (S.fresh ⟨ns, wf, w.nextId⟩).Holds w.store ⟨ns, wf, w.nextId⟩

def Scope.Reserved (S : Scope) (s : Store) (a : StartRequest) : Prop :=
  ∀ run, a.runId = some run → ∀ wf, StartRequest.Takes a wf →
    (S.fresh ⟨a.ns, wf, run⟩).Holds s ⟨a.ns, wf, run⟩

def Moved (S : Scope) (L : Ledger) (w' : World) : Prop := ∃ L', w'.Shows L' ∧ Moves S L L'

/-- A function of the engine makes moves, once the tasks `ts` are handed out. -/
def Moving {α : Type} (S : Scope) (ts : List WorkflowTask) (x : Go α) : Prop :=
  ∀ w L, w.Shows L → (∀ t ∈ ts, t ∈ L.tasks) →
    x.spec S.draws (fun _ _ => True) (fun _ w' => Moved S L w') w

abbrev Go.moves {α : Type} (x : Go α) (S : Scope) (L : Ledger) (w : World) : Prop :=
  x.spec S.draws (fun _ _ => True) (fun _ w' => Moved S L w') w

section Rules

variable {α β : Type} {S : Scope} {ts : List WorkflowTask} {L L' : Ledger} {w : World}

theorem Move.tasks (h : Move S L L') : ∀ t ∈ L.tasks, t ∈ L'.tasks := by
  intro t ht
  cases h with
  | enqueue => exact List.mem_cons_of_mem _ ht
  | stray _ _ hleaves => exact hleaves.tasks ▸ ht
  | _ => exact ht

theorem Moves.tasks (h : Moves S L L') : ∀ t ∈ L.tasks, t ∈ L'.tasks := by
  induction h with
  | refl => exact fun _ ht => ht
  | tail _ hstep ih => exact fun t ht => hstep.tasks t (ih t ht)

theorem Moved.refl (h : w.Shows L) : Moved S L w := ⟨L, h, .refl⟩

theorem Moved.of_move (h : w.Shows L') (hmove : Move S L L') : Moved S L w :=
  ⟨L', h, .single hmove⟩

theorem Moved.trans {w' : World} (h : Moves S L L') (h' : Moved S L' w') : Moved S L w' := by
  obtain ⟨L₂, hshows, hmoves⟩ := h'
  exact ⟨L₂, hshows, h.trans hmoves⟩

namespace Moving

theorem run {x : Go α} (hx : Moving S [] x) (h : w.Shows L) :
    x.moves S L w :=
  hx w L h fun _ ht => absurd ht List.not_mem_nil

theorem pure (a : α) : Moving S ts (Pure.pure a : Go α) := fun _ _ h _ => .refl h

theorem throw (e : String) : Moving S ts (throw e : Go α) := fun _ _ h _ => .refl h

/-- What comes after a function that moves goes on from where it came to. -/
theorem then_spec {x : Go α} {Q : Post α World}
    (hx : Moving S ts x) (h : w.Shows L) (hts : ∀ t ∈ ts, t ∈ L.tasks)
    (hQ : ∀ res w' L', w'.Shows L' → (∀ t ∈ ts, t ∈ L'.tasks) → Moves S L L' → Q res w') :
    x.spec S.draws (fun _ _ => True) Q w := by
  refine Go.spec_mono ?_ _ (hx w L h hts)
  rintro res w' ⟨L', hshows, hmoves⟩
  exact hQ res w' L' hshows (fun t ht => Moves.tasks hmoves t (hts t ht)) hmoves

theorem bind {x : Go α} {f : α → Go β} (hx : Moving S ts x) (hf : ∀ a, Moving S ts (f a)) :
    Moving S ts (x >>= f) := by
  intro w L h hts
  rw [Go.spec_bind]
  refine hx.then_spec h hts ?_
  rintro (e | a) w' L' h' hts' hmoves
  · exact ⟨L', h', hmoves⟩
  · exact Go.spec_mono (fun _ _ => .trans hmoves) _ (hf a w' L' h' hts')

theorem attempt {x : Go α} (hx : Moving S ts x) : Moving S ts (attempt x) := by
  intro w L h hts
  rw [Go.spec_attempt]
  exact hx w L h hts

theorem withRun {x : Go α} (hx : Moving S ts x) : Moving S ts (withRun r x) := by
  intro w L h hts
  rw [Go.spec_withRun]
  exact hx w L h hts

theorem ite {c : Prop} [Decidable c] {x y : Go α} (hx : c → Moving S ts x)
    (hy : ¬c → Moving S ts y) : Moving S ts (if c then x else y) := by
  split_ifs with hc
  · exact hx hc
  · exact hy hc

theorem forM {l : List α} {f : α → Go Unit} (hf : ∀ a ∈ l, Moving S ts (f a)) :
    Moving S ts (l.forM f) := by
  induction l with
  | nil => exact .pure _
  | cons a l ih => exact (hf a (by simp)).bind fun _ => ih fun b hb => hf b (by simp [hb])

theorem put_aside {k : Key} {v : k.Val} (hk : k.booked = false) : Moving S ts (put k v) := by
  intro w L h _
  refine Go.spec_put.mpr ⟨trivial, .refl (h.write_aside hk)⟩

theorem del_aside {k : Key} (hk : k.booked = false) : Moving S ts (del k) := by
  intro w L h _
  refine Go.spec_del.mpr ⟨trivial, .refl (h.write_aside hk)⟩

theorem now : Moving S ts now := fun _ _ h _ => Go.spec_now.mpr (.refl (h.aside rfl rfl rfl))

theorem newRunId : Moving S ts newRunId :=
  fun _ _ h _ => Go.spec_newRunId.mpr fun _ => .refl (h.aside rfl rfl rfl)

end Moving

end Rules

section Functions

variable {S : Scope} {ts : List WorkflowTask}

theorem moving_describeWorkflow (t : Target) : Moving S ts (describeWorkflow t) :=
  fun _ _ h _ => spec_describeWorkflow.mpr (.refl h)

theorem moving_listHistory (r : RunRef) : Moving S ts (listHistory r) := by
  intro w L h _
  rw [spec_listHistory]
  cases decodeEvents (w.store.events r) <;> exact .refl h

theorem moving_scheduleWorkflowTask (r : RunRef) : Moving S ts (scheduleWorkflowTask r) := by
  intro w L h _
  rw [spec_scheduleWorkflowTask]
  cases hrow : w.store.get (.wf r) with
  | none => exact .refl h
  | some row =>
    dsimp only
    split_ifs with hterm
    · exact .refl h
    · cases hdec : decodeEvents (w.store.events r) with
      | none => exact .refl h
      | some dec =>
        refine .of_move (h.enqueue _) (.enqueue ((h.row r).symm.trans hrow) ?_ (h.lists r) hdec)
        simpa [WorkflowExecution.isOpen] using hterm

/-- An event for the run `r` goes to its history, if there still is one. -/
theorem appendHistory_shows {Q : Post HistoryEvent World} (h : w.Shows L)
    (hgone : L.row r = none → Q (.error (notFound r)) w)
    (hQ : ∀ row, L.row r = some row → ∀ t w', w'.Shows (L.appendTo r row t attrs) →
      Q (.ok (nextEvent row t attrs)) w') :
    (appendHistory r attrs).spec S.draws (fun _ _ => True) Q w := by
  rw [spec_appendHistory, Store.resolve_coe, h.row]
  cases hrow : L.row r with
  | none => exact hgone hrow
  | some row => exact ⟨by simp [appendWrites], hQ row hrow w.time _ (h.append r row w.time attrs)⟩

theorem moving_appendHistory (t : Target) (hpass : attrs.passing = true) :
    Moving S ts (appendHistory t attrs) := by
  intro w L h _
  rw [spec_appendHistory]
  cases hres : w.store.resolve t with
  | none => exact .refl h
  | some p =>
    obtain ⟨c, row⟩ := p
    refine ⟨by simp [appendWrites], .of_move (h.append c row w.time attrs) (.append ?_ hpass)⟩
    rw [← h.row]
    exact (Store.resolve_some hres).1

theorem terminalTransition_moves {t : Target} {status : WorkflowStatus} (h : w.Shows L)
    (hterm : status.isTerminal = true) (hfits : attrs.closes = some status)
    (hcause : ∀ c, t.Names c → S.Closes L c attrs)
    (hasked : ∀ c row, t.Names c → L.row c = some row → row.isOpen = true → S.Asked row attrs) :
    (terminalTransition t status attrs).moves S L w := by
  rw [Go.moves, spec_terminalTransition]
  cases hres : w.store.resolve t with
  | none => exact .refl h
  | some p =>
    obtain ⟨c, row⟩ := p
    obtain ⟨hrow, hnames⟩ := Store.resolve_some hres
    dsimp only
    split_ifs with hclosed
    · exact .refl h
    · obtain ⟨t₁, t₂, hshows⟩ := h.close c row status attrs
      have hrow' : L.row c = some row := (h.row c).symm.trans hrow
      have hopen : row.isOpen = true := by simpa [WorkflowExecution.isOpen] using hclosed
      exact ⟨by simp [CloseAlong, closeWrites, appendWrites], .of_move hshows (.close hrow' hopen
        hterm hfits (hcause c hnames) (hasked c row hnames hrow' hopen))⟩

/-- A close with any event but a completion or a cancellation. -/
theorem moving_terminalTransition (t : Target) {status : WorkflowStatus}
    (hterm : status.isTerminal = true) (hfits : attrs.closes = some status)
    (hnot : ∀ text, attrs ≠ .workflowCompleted text) (hnot' : ¬attrs.IsCanceled) :
    Moving S ts (terminalTransition t status attrs) :=
  fun _ _ h _ => terminalTransition_moves h hterm hfits (fun _ _ text heq => absurd heq (hnot text))
    fun _ _ _ _ _ _ hcanceled => absurd hcanceled hnot'

/-! ## Starting -/

theorem World.Shows.fresh (h : w.Shows L) {f : Freshness} (hr : f.Holds w.store r) :
    L.Fresh r f := by
  unfold Freshness.Holds at hr
  simp only [h.row, h.event, h.act] at hr
  cases f <;> exact hr

theorem recordRequest_shows {ns wf req run : String} {Q : Post Unit World}
    (h : w.Shows L) (hQ : ∀ w', w'.Shows L → Q (.ok ()) w') :
    (recordRequest ns wf req run).spec S.draws (fun _ _ => True) Q w := by
  unfold recordRequest
  split_ifs
  · exact hQ w h
  · simp only [Go.spec_bind, Go.spec_attempt, Go.spec_put, true_and, Go.spec_pure]
    exact hQ _ (h.write_aside rfl)

theorem createRun_moves {wf run : String} (h : w.Shows L)
    (hfresh : (S.fresh ⟨a.ns, wf, run⟩).Holds w.store ⟨a.ns, wf, run⟩) :
    (createRun a wf run).moves S L w := by
  simp only [createRun, openRun, Go.spec_bind, Go.spec_now, Go.spec_put, true_and]
  set r : RunRef := ⟨a.ns, wf, run⟩
  have hentry : (w.tick.write (.put (.wfopen r) ())).Shows L :=
    h.tick.write_aside rfl
  refine recordRequest_shows (hentry.put_row r (a.row w.time)) fun w₁ h₁ => ?_
  simp only [Go.spec_attempt, spec_describeWorkflow]
  refine appendHistory_shows h₁ (fun hgone => by simp [Ledger.setRow] at hgone) ?_
  intro row hrow t w₂ h₂
  obtain rfl : a.row w.time = row := by simpa [Ledger.setRow] using hrow
  rw [Ledger.setRow_appendTo] at h₂
  have hcreate : Moves S L (L.appendTo r (a.row w.time)
      t (.workflowStarted a.type a.queue a.input)) :=
    .single (.create (h.fresh hfresh) rfl rfl)
  refine Go.spec_mono ?_ _ ((moving_scheduleWorkflowTask r).run h₂)
  rintro (e | _) w₃ hmoved
  · exact .trans hcreate hmoved
  · dsimp only
    split <;> exact .trans hcreate hmoved

theorem startWorkflowFull_moves (h : w.Shows L) (hres : S.Reserved w.store a) :
    (startWorkflowFull a).moves S L w := by
  refine startWorkflowFull_rule (K := fun w' => Moved S L w' ∧ S.Reserved w'.store a)
    (fun _ => .refl h) ?_ (fun _ hK => hK.1) ?_ ?_ ?_
  · unfold useWrites World.inUse
    split_ifs
    · exact ⟨trivial, .refl h, hres⟩
    · exact ⟨⟨trivial, trivial⟩, .refl (h.tick.write_aside rfl),
        fun run hrun wf hwf => (hres run hrun wf hwf).register⟩
  · rintro w' ⟨⟨L', h', hmoves⟩, hres'⟩ _
    exact ⟨⟨L', h'.aside rfl rfl rfl, hmoves⟩, hres'⟩
  · rintro w' c row ⟨⟨L', h', hmoves⟩, hres'⟩ hrow hopen -
    obtain ⟨t, t', hshows⟩ := h'.close c row .terminated superseded
    have hmove : Moves S L' (L'.appendTo c (closedRow row .terminated t) t' superseded) :=
      .single (.close ((h'.row c).symm.trans hrow) hopen rfl rfl
        (by simp [Scope.Closes, superseded]) fun _ hcanceled => hcanceled.elim)
    exact ⟨by simp [CloseAlong, closeWrites, appendWrites], ⟨_, hshows, hmoves.trans hmove⟩,
      fun run hrun wf hwf => (hres' run hrun wf hwf).terminated hrow⟩
  · rintro w' wf ⟨⟨L', h', hmoves⟩, hres'⟩ - - hwf
    refine ⟨fun run hrun => ?_, fun hdraw => ?_⟩
    · exact Go.spec_mono (fun _ _ => .trans hmoves) _ (createRun_moves h' (hres' run hrun wf hwf))
    · exact Go.spec_mono (fun _ _ => .trans hmoves) _
        (createRun_moves (h'.aside rfl rfl rfl) (hdraw a.ns wf))

/-! ## Cancelling, signalling and metadata -/

theorem moving_cancelWorkflowWithReason (t : Target) (reason identity : String) :
    Moving S ts (cancelWorkflowWithReason t reason identity) := by
  intro w L h hts
  simp only [cancelWorkflowWithReason, Go.spec_bind, Go.spec_attempt, spec_describeWorkflow]
  cases hres : w.store.resolve t with
  | none => exact .refl h
  | some p =>
    obtain ⟨c, row⟩ := p
    obtain ⟨hrow, hnames⟩ := Store.resolve_some hres
    dsimp only
    split_ifs with hterm hcanceling
    · exact .refl h
    · simp only [Go.spec_bind, Go.spec_pushCancelRequest]
      exact .refl h
    · have hopen : row.isOpen = true := by simpa [WorkflowExecution.isOpen] using hterm
      simp only [Go.spec_bind, spec_appendHistory, hres, Go.spec_attempt, spec_describeWorkflow]
      refine ⟨by simp [appendWrites], ?_⟩
      have hrow' : L.row c = some row := (h.row c).symm.trans hrow
      have hrequest : Move S L (L.appendTo c { row with status := .canceling } w.time
          (.cancelRequested reason identity)) := .request hrow' hopen hcanceling
      have h₁ := h.append c row w.time (.cancelRequested reason identity)
      have hres₁ := resolve_appendWrites hres w.time (.cancelRequested reason identity)
      rw [hres₁]
      generalize w.tick.writes (appendWrites c row w.time (.cancelRequested reason identity)) = w₁
        at h₁ hres₁ ⊢
      simp only [Go.spec_bind, Go.spec_hasSubscribers]
      split_ifs
      · simp only [Go.spec_bind, Go.spec_put, Go.spec_mark, Go.spec_pushCancelRequest,
          Go.spec_pure, true_and]
        have h₂ := h₁.put_row c { row with
          status := .canceling, historyLen := row.historyLen + 1 }
        rw [L.appendTo_setRow] at h₂
        exact .of_move (h₂.aside rfl rfl rfl) hrequest
      · -- the close is of a run in CANCELING, although its row was never stored as such
        rw [spec_terminalTransition, hres₁]
        dsimp only
        rw [if_neg (by simpa using hterm)]
        obtain ⟨t₁, t₂, hshows⟩ := h₁.close c { row with historyLen := row.historyLen + 1 }
          .canceled (.workflowCanceled reason identity)
        refine ⟨by simp [CloseAlong, closeWrites, appendWrites], ?_⟩
        let asked := { row with status := .canceling, historyLen := row.historyLen + 1 }
        rw [← Ledger.setRow_appendTo _ c asked, L.appendTo_setRow] at hshows
        have hclose : Move S (L.appendTo c { row with status := .canceling } w.time
            (.cancelRequested reason identity)) (Ledger.appendTo _ c (closedRow asked .canceled t₁)
            t₂ (.workflowCanceled reason identity)) :=
          .close Ledger.row_appendTo_self rfl rfl rfl (by simp [Scope.Closes]) fun _ _ => rfl
        exact .trans (.single hrequest) (.of_move hshows hclose)

theorem ackCanceled_shows {Q : Post (RunRef × WorkflowExecution) World} (h : w.Shows L)
    (hsame : ∀ res w', w'.Shows L → Q res w')
    (hclose : ∀ row t t' res w', L.row r = some row → row.isOpen = true →
      w'.Shows (L.appendTo r (closedRow row .canceled t) t' (.workflowCanceled reason identity)) →
        Q res w') :
    (ackCanceled r reason identity).spec S.draws (fun _ _ => True) Q w := by
  rw [ackCanceled, Go.spec_bind, Go.spec_clear]
  dsimp only
  rw [spec_terminalTransition, Store.resolve_coe]
  have hclear : ({ w with cancelling := w.cancelling.filter (· ≠ r) } : World).Shows L :=
    h.aside rfl rfl rfl
  cases hrow : w.store.get (.wf r) with
  | none => exact hsame _ _ hclear
  | some row =>
    dsimp only [Option.map_some]
    split_ifs with hclosed
    · exact hsame _ _ hclear
    · obtain ⟨t, t', hshows⟩ := hclear.close r row .canceled (.workflowCanceled reason identity)
      refine ⟨by simp [CloseAlong, closeWrites, appendWrites], ?_⟩
      exact hclose row t t' _ _ ((h.row r).symm.trans hrow)
        (by simpa [WorkflowExecution.isOpen] using hclosed) hshows

theorem Move.ack {row : WorkflowExecution} {t t' : Nat} (hrow : L.row r = some row)
    (hopen : row.isOpen = true) (hasked : S.handshake → row.status = .canceling) :
    Move S L (L.appendTo r (closedRow row .canceled t) t' (.workflowCanceled reason identity)) :=
  .close hrow hopen rfl rfl (by simp [Scope.Closes]) fun hhand _ => hasked hhand

theorem ackCanceled_moves (reason identity : String) (h : w.Shows L)
    (hasked : S.handshake → ∀ row, L.row r = some row → row.isOpen = true →
      row.status = .canceling) :
    (ackCanceled r reason identity).moves S L w :=
  ackCanceled_shows h (fun _ _ h' => .refl h') fun row _ _ _ _ hrow hopen h' =>
    .of_move h' (.ack hrow hopen fun hhand => hasked hhand row hrow hopen)

theorem sweepCanceling_moves {expired : List RunRef} (h : w.Shows L)
    (hasked : S.handshake → ∀ r ∈ expired, ∀ row, L.row r = some row → row.isOpen = true →
      row.status = .canceling) :
    (sweepCanceling expired).moves S L w := by
  induction expired generalizing w L with
  | nil => exact .refl h
  | cons r expired ih =>
    change ((do let _ ← attempt (ackCanceled r "sweep:cancel-timeout" "engine")) >>= fun _ =>
      sweepCanceling expired : Go Unit).spec _ _ _ w
    simp only [Go.spec_bind, Go.spec_attempt, Go.spec_pure]
    refine ackCanceled_shows h (fun _ w' h' => ?_) fun row t t' _ w' hrow hopen h' => ?_
    · exact ih h' fun hhand c hc => hasked hhand c (by simp [hc])
    · have hack : Move S L (L.appendTo r (closedRow row .canceled t) t'
          (.workflowCanceled "sweep:cancel-timeout" "engine")) :=
        .ack hrow hopen fun hhand => hasked hhand r (by simp) row hrow hopen
      refine Go.spec_mono (fun _ _ => .trans (.single hack)) _ (ih h' ?_)
      intro hhand c hc row' hrow' hopen'
      by_cases hcr : c = r
      · subst hcr
        rw [Ledger.row_appendTo_self] at hrow'
        obtain rfl := Option.some.inj hrow'
        cases hopen'
      · refine hasked hhand c (by simp [hc]) row' ?_ hopen'
        rwa [Ledger.row_appendTo_of_ne hcr] at hrow'

theorem moving_signalWorkflow (t : Target) (name : String) (payload : Json) (identity : String) :
    Moving S ts (signalWorkflow t name payload identity) := by
  refine (moving_describeWorkflow t).attempt.bind ?_
  rintro (e | _ | ⟨c, row⟩)
  · exact .throw _
  · exact .throw _
  · refine .ite (fun _ => .throw _) fun _ => .withRun ?_
    refine (moving_appendHistory _ rfl).bind fun _ => (moving_describeWorkflow _).attempt.bind ?_
    rintro (e | _ | p)
    · exact .throw _
    · exact .throw _
    · exact moving_scheduleWorkflowTask c

theorem moving_updateWorkflowMetadata (t : Target) (m : WorkflowUserMetadata) :
    Moving S ts (updateWorkflowMetadata t m) := by
  intro w L h _
  simp only [updateWorkflowMetadata, Go.spec_bind, Go.spec_attempt, spec_describeWorkflow]
  cases hres : w.store.resolve t with
  | none => exact .refl h
  | some p =>
    obtain ⟨c, row⟩ := p
    simp only [Go.spec_bind, Go.spec_now, Go.spec_put, Go.spec_pure, true_and]
    have hrow : L.row c = some row := (h.row c).symm.trans (Store.resolve_some hres).1
    exact .of_move (h.tick.put_row c _) (.revise hrow rfl rfl rfl)

theorem startThenSignal_moves (name : String) (payload : Json) (h : w.Shows L)
    (hres : S.Reserved w.store a) :
    (startThenSignal a name payload).moves S L w := by
  unfold startThenSignal Go.moves
  rw [Go.spec_bind]
  refine Go.spec_mono ?_ _ (startWorkflowFull_moves (S := S) h hres)
  rintro (e | ⟨c, row⟩) w' ⟨L', h', hmoves⟩
  · exact ⟨L', h', hmoves⟩
  · refine Go.spec_mono (fun _ _ => .trans hmoves) _ ?_
    refine Moving.run (.bind (moving_signalWorkflow _ _ _ _) fun _ => ?_) h'
    refine (moving_describeWorkflow _).attempt.bind ?_
    rintro (e | found)
    · exact .pure _
    · exact .pure _

theorem signalWithStartFull_moves (name : String) (payload : Json) (h : w.Shows L)
    (hres : S.Reserved w.store a) :
    (signalWithStartFull a name payload).moves S L w := by
  simp only [signalWithStartFull, Go.spec_bind, Go.spec_attempt, spec_describeWorkflow]
  cases w.store.resolve ⟨a.ns, a.workflowId, none⟩ with
  | none => exact startThenSignal_moves name payload h hres
  | some p =>
    obtain ⟨c, row⟩ := p
    dsimp only
    split_ifs
    · exact startThenSignal_moves name payload h hres
    · exact Moving.run (.bind (moving_signalWorkflow _ _ _ _) fun _ => .pure _) h

/-! ## Reset -/

theorem copyEvents_shows {n : Nat} {l : List (Nat × HistoryEvent)} {Q : Post Unit World}
    (h : w.Shows L) (hasc : l.Pairwise fun p q => p.1 < q.1) (hnum : ∀ p ∈ l, p.2.eventId = p.1)
    (hQ : ∀ w', w'.Shows (L.copyTo r n l) → Q (.ok ()) w') :
    (copyEvents r n (l.map Prod.snd)).spec S.draws (fun _ _ => True) Q w := by
  induction l generalizing w L with
  | nil => exact hQ w (by simpa using h)
  | cons p l ih =>
    obtain ⟨id, ev⟩ := p
    obtain ⟨hlt, hrest⟩ := List.pairwise_cons.mp hasc
    obtain rfl : id = ev.eventId := (hnum (id, ev) List.mem_cons_self).symm
    have hnum' : ∀ p ∈ l, p.2.eventId = p.1 := fun p hp => hnum p (List.mem_cons_of_mem _ hp)
    unfold copyEvents
    simp only [List.map_cons]
    split_ifs with hcut
    · refine hQ w ?_
      rw [Ledger.copyTo_past]
      · exact h
      · rintro p (_ | ⟨_, hp⟩)
        · exact hcut
        · exact hcut.trans (hlt p hp)
    · simp only [Go.spec_bind, Go.spec_put, true_and]
      refine ih (h.put_event r ev.eventId rfl) hrest hnum' fun w' h' => hQ w' ?_
      rwa [Ledger.copyTo_cons (Nat.le_of_not_lt hcut) hlt] at h'

theorem forkRun_shows {src : RunRef} {row : WorkflowExecution} {l : List (Nat × HistoryEvent)}
    {n : Nat} {Q : Post RunRef World} (h : w.Shows L) (hasc : l.Pairwise fun p q => p.1 < q.1)
    (hnum : ∀ p ∈ l, p.2.eventId = p.1)
    (hQ : ∀ r new t w', (S.fresh r).Holds w.store r → new.status = .running → new.historyLen = n →
      w'.Shows ((L.copyTo r n l).appendTo r new t (.reset src.run n reason identity)) →
        Q (.ok r) w') :
    (forkRun src row (l.map Prod.snd) n reason identity).spec S.draws (fun _ _ => True) Q w := by
  simp only [forkRun, openRun, Go.spec_bind, Go.spec_newRunId, Go.spec_now, Go.spec_put, true_and]
  intro hdraw
  set r : RunRef := ⟨src.ns, src.wf, w.nextId⟩
  set fork := forkRow src row n reason identity w.mint.time
  have hmint : w.mint.Shows L := h.aside rfl rfl rfl
  have hentry : (w.mint.tick.write (.put (.wfopen r) ())).Shows L :=
    hmint.tick.write_aside rfl
  refine copyEvents_shows (hentry.put_row r fork) hasc hnum fun w₁ h₁ => ?_
  refine appendHistory_shows (h₁.put_row r { fork with historyLen := n }) ?_ ?_
  · exact fun hgone => by simp [Ledger.setRow] at hgone
  intro row' hrow t w₂ h₂
  obtain rfl : { fork with historyLen := n } = row' := by simpa [Ledger.setRow] using hrow
  rw [Ledger.setRow_appendTo, Ledger.setRow_copyTo, Ledger.setRow_appendTo] at h₂
  exact hQ r _ _ _ (hdraw src.ns src.wf) rfl rfl h₂

theorem resetWorkflow_moves {t : Target} {eventID : Int} (reason identity : String)
    (h : w.Shows L)
    (hcopies : ∀ src row, w.store.resolve t = some (src, row) →
      S.Copies (fun id => w.store.get (.wfh src id)) eventID.toNat) :
    (resetWorkflow t eventID reason identity).moves S L w := by
  simp only [resetWorkflow, Go.spec_bind, Go.spec_attempt, spec_describeWorkflow]
  cases hres : w.store.resolve t with
  | none => exact .refl h
  | some p =>
    obtain ⟨src, row⟩ := p
    have hrow := (Store.resolve_some hres).1
    dsimp only
    split_ifs with hrange
    · exact .refl h
    simp only [Go.spec_bind, spec_listHistory]
    cases hdec : decodeEvents (w.store.events src) with
    | none => exact .refl h
    | some all =>
      have hlist := h.lists src
      have hcopies' : S.Copies (L.event src) eventID.toNat := by
        have hcopies := hcopies src row hres
        simpa only [h.event] using hcopies
      have hnum := numbered_decodeEvents hdec fun p hp =>
        h.numbered src p.1 p.2 ((hlist.mem p.1 p.2).mp hp)
      dsimp only
      refine forkRun_shows h (pairwise_decodeEvents hdec hlist.ascending) hnum ?_
      intro r new time w₁ hfresh hrunning hlen h₁
      simp only [Go.spec_now, Go.spec_write, Go.spec_attempt, spec_closeRun, along_cons,
        along_nil, World.writes_cons, World.writes_nil, true_and]
      have hnote : (w₁.tick.write (.close src .reset)).Shows _ :=
        h₁.tick.write_aside rfl
      have hclosed := (hnote.put_row src (closedRow row .terminated w₁.time)).write_aside
        (x := .del (.wfopen src)) rfl
      have hfork : Moves S L (((L.copyTo r eventID.toNat all).appendTo r new
          time (.reset src.run eventID.toNat reason identity)).setRow src
            (closedRow row .terminated w₁.time)) :=
        .single (.fork ((h.row src).symm.trans hrow) (by omega) (by omega) hlist hdec
          (h.fresh hfresh) hrunning hlen hcopies')
      refine Go.spec_mono ?_ _ ((moving_scheduleWorkflowTask r).run hclosed)
      rintro (e | _) w₂ hmoved
      · exact .trans hfork hmoved
      · simp only [spec_describeWorkflow]
        cases w₂.store.resolve r.target <;> exact .trans hfork hmoved

end Functions

end DurableTasks
