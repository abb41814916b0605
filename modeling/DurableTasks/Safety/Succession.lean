import DurableTasks.Engine.Footprint
import DurableTasks.Safety.Endings

/-!
The chain of runs that continue one another. A run is closed with the id of its
successor noted, and only then is the successor started, so the link is broken
when a crash falls in between: recovery finds a closed run and leaves it.
-/

namespace DurableTasks

open Effects Engine

variable {w : World} {r : RunRef} {x : Write} {e : Effect} {orgs : String → Bool} {n : String}

def continuation (n : String) : Closing := .event .continuedAsNew (.continuedAsNew n)

/-- `r` was closed with `n` as the run that continues it. -/
def World.Continued (w : World) (r : RunRef) (n : String) : Prop :=
  (r, continuation n) ∈ w.closings

def RunRef.successor (r : RunRef) (n : String) : RunRef := ⟨r.ns, r.wf, n⟩

def Store.HasRun (s : Store) (r : RunRef) : Prop := ∃ row, s.get (.wf r) = some row

/-- A closing that fits the status continued-as-new names a run. -/
theorem Closing.Fits.continuation {c : Closing} (hfits : c.Fits)
    (hstatus : c.status = .continuedAsNew) : ∃ n, c = continuation n := by
  cases c with
  | reset => cases hstatus
  | event status attrs =>
    obtain rfl : status = .continuedAsNew := hstatus
    cases attrs <;> cases hfits
    exact ⟨_, rfl⟩

/-! ## Every run can be continued -/

/-- The close that is under way. -/
def Window.Notes (r : RunRef) (c : Closing) : Window → Prop
  | .closing r' c' | .closed r' c' | .unlisted r' c' => r' = r ∧ c' = c
  | _ => False

/-- Every run has what a start of its successor needs, every run that says it was
continued was closed with a successor, and a stored event names no other
successor than a run of the workflow was closed with. -/
structure World.Renewable (w : World) : Prop where
  named : ∀ r row, w.store.get (.wf r) = some row → Named r row
  closing : ∀ r c, w.window.Notes r c → (r, c) ∈ w.closings ∧ c.Fits
  continued : ∀ r row, w.store.get (.wf r) = some row → row.status = .continuedAsNew →
    ∃ n, w.Continued r n
  told : ∀ r id ev n, w.store.get (.wfh r id) = some ev → ev.attrs = .continuedAsNew n →
    ∃ r', r'.ns = r.ns ∧ r'.wf = r.wf ∧ w.Continued r' n

theorem Write.mem_logged {log : List (RunRef × Closing)} {p : RunRef × Closing} (h : p ∈ log)
    (x : Write) : p ∈ x.logged log := by
  cases x with
  | close r c => exact List.mem_cons_of_mem _ h
  | _ => exact h

theorem World.Continued.write (h : w.Continued r n) (x : Write) : (w.write x).Continued r n := by
  rw [Continued, w.write_closings]
  exact x.mem_logged h

theorem Window.next_notes {win : Window} {c : Closing} (h : (win.next x).Notes r c) :
    x = .close r c ∨ win.Notes r c := by
  revert h
  fun_cases Window.next win x <;> simp_all [Window.Notes]

theorem HistoryEvent.continuedAsNew_of_read {ev ev' : HistoryEvent} (h : ev'.throughAny = some ev)
    (hn : ev.attrs = .continuedAsNew n) : ev'.attrs = .continuedAsNew n := by
  obtain ⟨attrs, hattrs, rfl⟩ := Option.map_eq_some_iff.mp h
  obtain rfl : attrs = .continuedAsNew n := hn
  cases hev : ev'.attrs <;> simp_all [EventAttrs.throughAny]

namespace World.Renewable

variable {L : Licence} {w : World} {x : Write}

theorem write_named (h : w.Renewable) (hx : L.guard w x) {row : WorkflowExecution}
    (hrow : (w.store.apply x).get (.wf r) = some row) : Named r row := by
  rcases Store.get_apply_some hrow with hrow | rfl
  · exact h.named r row hrow
  · rw [Licence.guard] at hx
    generalize w.window = win at hx
    cases hx with
    | create entry running unwritten fresh named =>
      rcases named with hnamed | ⟨c, row', hc, hwf, htype⟩
      · exact hnamed
      · obtain ⟨hne, htyped⟩ := h.named c row' hc
        exact ⟨hwf ▸ hne, htype ▸ htyped⟩
    | update stored type len time status =>
      obtain ⟨hne, htyped⟩ := h.named _ _ stored
      exact ⟨hne, type ▸ htyped⟩
    | count stored more following | close stored closable terminal =>
      obtain ⟨hne, htyped⟩ := h.named _ _ stored
      exact ⟨hne, htyped⟩

theorem write_continued (h : w.Renewable) (hx : L.guard w x) {row : WorkflowExecution}
    (hrow : (w.store.apply x).get (.wf r) = some row) (hstatus : row.status = .continuedAsNew) :
    ∃ n, (w.write x).Continued r n := by
  have hkept : ∀ row', w.store.get (.wf r) = some row' → row'.status = .continuedAsNew →
      ∃ n, (w.write x).Continued r n := by
    intro row' hrow' hstatus'
    obtain ⟨n, hn⟩ := h.continued r row' hrow' hstatus'
    exact ⟨n, hn.write x⟩
  rcases Store.get_apply_some hrow with hrow | rfl
  · exact hkept row hrow hstatus
  · rw [Licence.guard] at hx
    generalize hwin : w.window = win at hx
    cases hx with
    | create entry running unwritten fresh named =>
      rw [running] at hstatus
      cases hstatus
    | update stored type len time status =>
      rcases status with hsame | ⟨-, hcanceling⟩
      · exact hkept _ stored (hsame ▸ hstatus)
      · rw [hcanceling] at hstatus
        cases hstatus
    | count stored more following => exact hkept _ stored hstatus
    | close stored closable terminal =>
      obtain ⟨hmem, hfits⟩ := h.closing _ _ (by rw [hwin]; exact ⟨rfl, rfl⟩)
      obtain ⟨n, rfl⟩ := hfits.continuation hstatus
      exact ⟨n, hmem⟩

theorem write_told (h : w.Renewable) (hx : L.guard w x) {id : Nat} {ev : HistoryEvent}
    (hev : (w.store.apply x).get (.wfh r id) = some ev) (hn : ev.attrs = .continuedAsNew n) :
    ∃ r', r'.ns = r.ns ∧ r'.wf = r.wf ∧ (w.write x).Continued r' n := by
  have hkept : ∀ {c id' ev'}, c.ns = r.ns → c.wf = r.wf → w.store.get (.wfh c id') = some ev' →
      ev'.attrs = .continuedAsNew n →
      ∃ r', r'.ns = r.ns ∧ r'.wf = r.wf ∧ (w.write x).Continued r' n := by
    intro c id' ev' hns hwf hev' hn'
    obtain ⟨r', hns', hwf', hcontinued⟩ := h.told c id' ev' n hev' hn'
    exact ⟨r', hns'.trans hns, hwf'.trans hwf, hcontinued.write x⟩
  rcases Store.get_apply_some hev with hev | rfl
  · exact hkept rfl rfl hev hn
  · rw [Licence.guard] at hx
    generalize hwin : w.window = win at hx
    cases hx with
    | append stored admits numbered =>
      cases win with
      | settled => simp [Window.Admits, hn, EventAttrs.closes] at admits
      | unlisted r' c =>
        obtain ⟨hmem, hfits⟩ := h.closing r' c (by rw [hwin]; exact ⟨rfl, rfl⟩)
        cases c with
        | reset => exact admits.elim
        | event st attrs =>
          obtain ⟨rfl, rfl⟩ := admits
          rw [hn] at hmem hfits
          obtain rfl := Option.some.inj hfits
          exact ⟨r', rfl, rfl, World.Continued.write hmem _⟩
      | outcome r' seq a =>
        have hattrs := admits.2.trans hn
        unfold WorkflowActivity.outcome at hattrs
        split at hattrs <;> cases hattrs
      | _ => exact admits.elim
    | copy stored running beyond recordless following numbered copied =>
      obtain ⟨src, id', ev', hns, hwf, hev', hread⟩ := copied
      exact hkept hns hwf hev' (HistoryEvent.continuedAsNew_of_read hread hn)

theorem write (h : w.Renewable) (hx : L.guard w x) : (w.write x).Renewable := by
  refine ⟨fun r row hrow => h.write_named hx hrow, fun r c hwin => ?_,
    fun r row hrow hstatus => h.write_continued hx hrow hstatus,
    fun r id ev n hev hn => h.write_told hx hev hn⟩
  rw [w.write_closings]
  rcases Window.next_notes hwin with rfl | hwin
  · rw [Licence.guard] at hx
    generalize w.window = win at hx
    cases hx with
    | note stored closable terminal fits licensed => exact ⟨List.mem_cons_self, fits⟩
  · obtain ⟨hmem, hfits⟩ := h.closing r c hwin
    exact ⟨x.mem_logged hmem, hfits⟩

theorem frame {w' : World} (h : w.Renewable) (hsame : w.SameDurable w') : w'.Renewable := by
  obtain ⟨hstore, hwindow, hclosings⟩ := hsame
  have hcontinued : ∀ r n, w'.Continued r n ↔ w.Continued r n := by
    intro r n
    rw [World.Continued, hclosings, World.Continued]
  refine ⟨?_, ?_, ?_, ?_⟩
  · rw [hstore]
    exact h.named
  · rw [hwindow, hclosings]
    exact h.closing
  · simp only [hstore, hcontinued]
    exact h.continued
  · simp only [hstore, hcontinued]
    exact h.told

theorem begin (h : w.Renewable) : w.begin.Renewable := ⟨h.named, nofun, h.continued, h.told⟩

theorem crash (h : w.Renewable) : w.crash.Renewable := ⟨h.named, h.closing, h.continued, h.told⟩

end World.Renewable

/-! ## The links of the chain -/

section Links

variable {s : RunRef}

def World.Linked (w : World) (s : RunRef) : Prop :=
  ∀ r n, w.Continued r n → r.successor n = s → w.store.HasRun s

/-- The same, but for the run closed last. -/
def World.Owing (w : World) (s : RunRef) : Prop :=
  ∀ r n, w.Continued r n → r.successor n = s → w.store.HasRun s ∨
    w.closings.head? = some (r, continuation n)

theorem World.Linked.owing (h : w.Linked s) : w.Owing s :=
  fun r n hn hs => .inl (h r n hn hs)

theorem World.Owing.linked (h : w.Owing s)
    (hpaid : ∀ r n, w.closings.head? = some (r, continuation n) → w.store.HasRun (r.successor n)) :
    w.Linked s := by
  intro r n hn hs
  rcases h r n hn hs with hrun | hhead
  · exact hrun
  · exact hs ▸ hpaid r n hhead

theorem Store.HasRun.apply {st : Store} (h : st.HasRun s) (hx : x ≠ .del (.wf s)) :
    (st.apply x).HasRun s := by
  obtain ⟨row, hrow⟩ := h
  obtain hrow | ⟨row', rfl⟩ | rfl := Store.get_apply_of_some hrow x
  · exact ⟨row, hrow⟩
  · exact ⟨row', by simp⟩
  · exact absurd rfl hx

def Write.Quiet (x : Write) : Prop := ∀ r c, x ≠ .close r c

theorem Write.Quiet.logged (hx : x.Quiet) (log : List (RunRef × Closing)) : x.logged log = log := by
  cases x with
  | close r c => exact absurd rfl (hx r c)
  | _ => rfl

theorem World.Owing.write (h : w.Owing s) (hx : x.Quiet) (hdel : x ≠ .del (.wf s)) :
    (w.write x).Owing s := by
  intro r n hn hs
  rw [World.Continued, w.write_closings, hx.logged] at hn
  rw [w.write_closings, hx.logged]
  exact (h r n hn hs).imp_left fun hrun => hrun.apply hdel

/-- A run may be closed for another to continue it once all links are there. -/
theorem World.Linked.close (h : w.Linked s) (r : RunRef) (c : Closing) :
    (w.write (.close r c)).Owing s := by
  intro r' n hn hs
  rcases List.mem_cons.mp hn with heq | hn
  · exact .inr (congrArg some heq.symm)
  · exact .inl (h r' n hn hs)

/-- Nothing but a continuation can break a link. -/
theorem World.Linked.write {L : Licence} (h : w.Linked s) (hx : L.guard w x)
    (hL : ∀ r n, ¬L.closes r (.continuedAsNew n)) (hdel : x ≠ .del (.wf s)) :
    (w.write x).Linked s := by
  intro r n hn hs
  by_cases hq : x.Quiet
  · rw [World.Continued, w.write_closings, hq.logged] at hn
    exact (h r n hn hs).apply hdel
  · simp only [Write.Quiet, not_forall, not_not] at hq
    obtain ⟨r', c, rfl⟩ := hq
    rcases List.mem_cons.mp hn with heq | hn
    · obtain ⟨rfl, rfl⟩ := Prod.mk.inj heq
      rw [Licence.guard] at hx
      generalize w.window = win at hx
      cases hx with
      | note stored closable terminal fits licensed => exact absurd licensed (hL _ _)
    · exact h r n hn hs

end Links

/-! ## Starting the successor -/

structure LegalName (orgs : String → Bool) (name : String) : Prop where
  nonempty : name ≠ ""
  set : name ≠ "_"
  plain : '\x00' ∉ name.toList
  org : orgs name = true

theorem LegalName.nameError {name : String} (h : LegalName orgs name) :
    nameError orgs name = none := by
  simp [DurableTasks.nameError, h.nonempty, h.set, h.plain, h.org]

/-- The accesses that close no run and delete none. -/
def Effect.Additive : Effect → Prop
  | .write x => x.Quiet ∧ ∀ r, x ≠ .del (.wf r)
  | _ => True

structure World.Started (w : World) (log : List (RunRef × Closing)) (s : RunRef) : Prop where
  closings : w.closings = log
  stored : w.store.HasRun s

theorem additive_put {k : Key} (v : k.Val) : Effect.Additive (.write (.put k v)) :=
  ⟨fun _ _ => nofun, fun _ => nofun⟩

theorem additive_unlist (r : RunRef) : Effect.Additive (.write (.del (.wfopen r))) :=
  ⟨fun _ _ => nofun, fun _ => nofun⟩

section Start

variable {A : World → Prop} {G : World → Write → Prop} {w : World}

theorem createRun_starts (hG : ∀ w x, Effect.Additive (.write x) → G w x) (a : StartRequest)
    (wf run : String) :
    (createRun a wf run).spec A G (fun _ w' => w'.Started w.closings ⟨a.ns, wf, run⟩) w := by
  have hput : ∀ {k : Key} (v : k.Val) w, G w (.put k v) := fun v w => hG w _ (additive_put v)
  have hstarted : (createdWorld w a wf run).Started w.closings ⟨a.ns, wf, run⟩ := by
    refine ⟨?_, _, get_createdWorld w a wf run⟩
    unfold createdWorld enteredWorld createWrites
    split_ifs <;> rfl
  rw [spec_createRun]
  refine ⟨?_, ⟨hput _ _, hput _ _, trivial⟩, ?_⟩
  · unfold createWrites
    split_ifs
    · exact ⟨hput _ _, hput _ _, trivial⟩
    · exact ⟨hput _ _, hput _ _, hput _ _, trivial⟩
  · cases decodeEvents ((createdWorld w a wf run).store.events ⟨a.ns, wf, run⟩) with
    | some evs => exact ⟨hstarted.closings, hstarted.stored⟩
    | none => exact hstarted

/-- A start that names its run, no request and no conflict policy stores the
run, whatever it returns. -/
theorem startWorkflowFull_starts (hG : ∀ w x, Effect.Additive (.write x) → G w x) {a : StartRequest}
    {run : String} (hlegal : LegalName w.orgs a.ns) (htype : a.type ≠ "") (hwf : a.workflowId ≠ "")
    (hrun : a.runId = some run) (hreq : a.requestID = "") (hpolicy : a.conflictPolicy = .unset) :
    (startWorkflowFull a).spec A G
      (fun _ w' => w'.Started w.closings ⟨a.ns, a.workflowId, run⟩) w := by
  have hcreate : ∀ w : World, (startUnder a a.workflowId).spec A G
      (fun _ w' => w'.Started w.closings ⟨a.ns, a.workflowId, run⟩) w := by
    intro w
    rw [spec_startUnder, Store.startDecision_fresh _ _ hreq hpolicy]
    dsimp only
    rw [spec_startFresh, hrun]
    exact createRun_starts hG a a.workflowId run
  rw [spec_startWorkflowFull, hlegal.nameError]
  dsimp only
  rw [if_neg htype, if_neg hwf]
  unfold useWrites World.inUse
  split_ifs
  · exact ⟨trivial, hcreate w⟩
  · exact ⟨⟨hG _ _ (additive_put _), trivial⟩,
      hcreate (w.tick.write (.put (.ns a.ns) (firstUse w.time)))⟩

end Start

/-! ## Every operation keeps the chain -/

section Chain

variable {s : RunRef} {A : World → Prop} {w : World}

/-- A write after which at most the run closed last misses its successor. -/
def Write.Owes (s : RunRef) (w : World) (x : Write) : Prop :=
  x ≠ .del (.wf s) → w.Owing s → (w.write x).Owing s

theorem owes_additive (w : World) (x : Write) (hx : Effect.Additive (.write x)) : x.Owes s w :=
  fun hdel h => h.write hx.1 hdel

/-- `applyContinueAsNew` closes the run, and stores its successor before it
returns. -/
theorem applyContinueAsNew_owes (input : Raw) (type queue : String) (hlinked : w.Linked s)
    (hnamed : ∀ row, w.store.get (.wf r) = some row → Named r row)
    (hlegal : LegalName w.orgs r.ns) :
    (applyContinueAsNew r input type queue).spec A (fun w x => x.Owes s w)
      (fun _ w' => w'.Owing s → w'.Linked s) w := by
  simp only [applyContinueAsNew, Go.spec_bind, spec_describeWorkflow, Store.resolve_coe]
  cases hrow : w.store.get (.wf r) with
  | none => exact fun _ => hlinked
  | some cur =>
    obtain ⟨hwf, htype⟩ := hnamed cur hrow
    dsimp only [Option.map_some]
    split_ifs with hterm
    · exact fun _ => hlinked
    rw [Go.spec_bind]
    refine decodeInput_spec ?_
    rintro (e | args)
    · exact fun _ => hlinked
    simp only [Go.spec_bind, Go.spec_newRunId, spec_terminalTransition, Store.resolve_coe,
      World.mint_store, hrow, Option.map_some, hterm]
    intro _
    refine ⟨⟨⟨fun _ _ => World.Linked.close hlinked r _, ?_, ?_, trivial⟩, ?_, ?_, trivial⟩, ?_⟩
    · exact owes_additive _ _ (additive_put _)
    · exact owes_additive _ _ (additive_unlist _)
    · exact owes_additive _ _ (additive_put _)
    · exact owes_additive _ _ (additive_put _)
    have htype' : (successorOf r cur args type queue w.nextId).type ≠ "" := by
      unfold successorOf
      dsimp only
      split_ifs with h
      · exact htype
      · exact h
    have hstart := startWorkflowFull_starts (A := A) (G := fun w x => x.Owes s w)
      (w := terminatedWorld w.mint r cur .continuedAsNew (.continuedAsNew w.nextId))
      (a := successorOf r cur args type queue w.nextId) owes_additive hlegal htype' hwf rfl rfl rfl
    have hdone : ∀ w' : World, w'.Started (terminatedWorld w.mint r cur .continuedAsNew
        (.continuedAsNew w.nextId)).closings (r.successor w.nextId) → w'.Owing s → w'.Linked s := by
      intro w' hw' howing
      refine howing.linked fun r' n hhead => ?_
      rw [hw'.closings] at hhead
      obtain ⟨rfl, hn⟩ := Prod.mk.inj (Option.some.inj hhead)
      obtain rfl : w.nextId = n := by
        simpa [continuation] using hn
      exact hw'.stored
    refine Go.spec_mono ?_ _ hstart
    rintro (e | p) w' hw'
    · exact hdone w' hw'
    · exact hdone w' hw'

structure World.Chained (s : RunRef) (w : World) : Prop where
  keyed : w.store.Keyed
  renewable : w.Renewable
  owing : w.Owing s

/-- What holds between two commands of a batch, in a process that accepts the
names `orgs`. -/
structure World.Whole (s : RunRef) (orgs : String → Bool) (w : World) : Prop where
  keyed : w.store.Keyed
  renewable : w.Renewable
  linked : w.Linked s
  names : w.orgs = orgs

/-- Everything a caller may do, but closing a run for another to continue it. -/
def Licence.unrenewing : Licence :=
  { fresh := .any, reclose := True, closes := fun _ attrs => ∀ n, attrs ≠ .continuedAsNew n }

/-- A response that continues a run is for a run in a namespace the store
accepts: the store holds no other. -/
def Operation.Renewing (w : World) : Operation → Prop
  | .respondWorkflow token cmds => (∃ c ∈ cmds, c.renews = true) →
      ∀ t, (w.disp.completeWorkflowTask token).1 = some t → LegalName w.orgs t.ref.ns
  | _ => True

/-- The runs in which the run `s` is not purged and no crash falls between the
close of a run that is continued and the first row of its successor. -/
def chainPolicy (s : RunRef) : Policy Effect World Operation where
  op w o := o.Renewing w
  effect w e := (Licence.lenient.policy fun _ => True).effect w e ∧ e ≠ .write (.del (.wf s))
  crash w := ∀ r n, w.closings.head? = some (r, continuation n) → w.store.HasRun (r.successor n)

theorem World.Whole.chained (h : w.Whole s orgs) : w.Chained s :=
  ⟨h.keyed, h.renewable, h.linked.owing⟩

theorem handler_orgs (e : Effect) (w : World) : (handler e w).2.orgs = w.orgs := by
  cases e <;> rfl

/-- Every access of an operation that keeps to a discipline. -/
theorem renewable_effect {L : Licence} (hg : onWrite L.guard w e) (hkeyed : w.store.Keyed)
    (hrenewable : w.Renewable) : (handler e w).2.store.Keyed ∧ (handler e w).2.Renewable := by
  cases e with
  | write x => exact ⟨hkeyed.write hg, hrenewable.write hg⟩
  | _ => exact ⟨hkeyed, hrenewable.frame ⟨rfl, rfl, rfl⟩⟩

theorem World.Whole.effect (h : w.Whole s orgs) (hg : onWrite Licence.unrenewing.guard w e)
    (he : e ≠ .write (.del (.wf s))) : (handler e w).2.Whole s orgs := by
  obtain ⟨hkeyed, hrenewable⟩ := renewable_effect hg h.keyed h.renewable
  refine ⟨hkeyed, hrenewable, ?_, (handler_orgs e w).trans h.names⟩
  cases e with
  | write x => exact h.linked.write hg (fun _ n h => h n rfl) fun hx => he (congrArg _ hx)
  | _ => exact h.linked

theorem unrenewing_draws : Licence.unrenewing.Draws fun w =>
    (Licence.lenient.policy fun _ => True).effect w .newRunId := fun _ h => h

theorem chainPolicy_draws (he : (chainPolicy s).effect w e) :
    onDraw (fun w => (Licence.lenient.policy fun _ => True).effect w .newRunId) w e := by
  cases e with
  | newRunId => exact he.1
  | _ => trivial

/-- A program of the discipline without continuations keeps the chain whole. -/
theorem Program.wp_whole {α : Type} {p : Program Effect Effect.Answer α} {Q : α → World → Prop}
    (hp : p.wp handler (onDraw fun w => (Licence.lenient.policy fun _ => True).effect w .newRunId)
      (onWrite Licence.unrenewing.guard) Q w)
    (hw : w.Whole s orgs) :
    p.wp handler (chainPolicy s).effect (fun w e => (handler e w).2.Chained s)
      (fun a w' => Q a w' ∧ w'.Whole s orgs) w := by
  refine Program.wp_weaken (fun _ _ h => h) (fun _ _ h => h.chained) _
    (Program.wp_invariant (I := World.Whole s orgs) (fun _ _ h => chainPolicy_draws h) ?_ p hp hw)
  intro w e he hg h
  exact h.effect hg he.2

theorem applyContinueAsNew_whole (input : Raw) (type queue : String)
    (hlegal : LegalName orgs r.ns) (hw : w.Whole s orgs) (hsettled : w.window = .settled) :
    (applyContinueAsNew r input type queue).run.wp handler (chainPolicy s).effect
      (fun w e => (handler e w).2.Chained s)
      (fun _ w' => w'.Whole s orgs ∧ w'.window = .settled) w := by
  let I : World → Prop := fun w => (w.store.Keyed ∧ w.Renewable) ∧ w.orgs = orgs
  have hkeeps := keeps_applyContinueAsNew (L := .lenient) (r := r) (fun _ h => h)
    (fun _ _ => trivial) input type queue w hsettled
  have howes := applyContinueAsNew_owes (A := fun _ => True) input type queue hw.linked
    (fun row hrow => hw.renewable.named r row hrow) (hw.names ▸ hlegal)
  have hrooted := Program.wp_invariant (B := (chainPolicy s).effect) (I := I)
    (fun _ _ h => chainPolicy_draws h) ?_ _ hkeeps ⟨⟨hw.keyed, hw.renewable⟩, hw.names⟩
  have hlinks := Program.wp_invariant (B := (chainPolicy s).effect) (I := fun w => w.Owing s)
    (fun _ e _ => by cases e <;> trivial) ?_ _ howes hw.linked.owing
  · refine Program.wp_weaken (fun _ _ h => h) ?_ _
      (Program.wp_mono ?_ _ (Program.wp_and _ hrooted hlinks))
    · rintro w e ⟨⟨⟨hkeyed, hrenewable⟩, -⟩, howing⟩
      exact ⟨hkeyed, hrenewable, howing⟩
    · rintro res w' ⟨⟨hset, ⟨hkeyed, hrenewable⟩, hnames⟩, hpays, howing⟩
      exact ⟨⟨hkeyed, hrenewable, hpays howing, hnames⟩, hset⟩
  · rintro w e ⟨-, he⟩ hg howing
    cases e with
    | write x => exact hg (fun hx => he (congrArg _ hx)) howing
    | _ => exact howing
  · rintro w e - hg ⟨⟨hkeyed, hrenewable⟩, hnames⟩
    exact ⟨renewable_effect hg hkeyed hrenewable, (handler_orgs e w).trans hnames⟩

/-- A batch of commands keeps the chain whole. -/
def KeepsWhole {α : Type} (s : RunRef) (orgs : String → Bool) (x : Go α) : Prop :=
  KeepsOf handler (chainPolicy s).effect (fun w e => (handler e w).2.Chained s)
    (fun w => w.Whole s orgs ∧ w.window = .settled) x

theorem Command.closes_unrenewing {c : Command} {D : String → Prop} {attrs : EventAttrs}
    (hc : ¬c.renews = true) (h : c.Closes D attrs) : attrs ≠ .continuedAsNew n := by
  rintro rfl
  cases c with
  | continueAsNew input type queue => exact hc rfl
  | _ => cases h

theorem keepsWhole_applyCommand {c : Command} (hlegal : c.renews = true → LegalName orgs r.ns) :
    KeepsWhole s orgs (applyCommand r c) := by
  intro w hw
  by_cases hc : c.renews = true
  · cases c with
    | continueAsNew input type queue =>
      exact applyContinueAsNew_whole input type queue (hlegal hc) hw.1 hw.2
    | _ => cases hc
  · refine Program.wp_mono (fun _ _ h => h.symm) _ (Program.wp_whole ?_ hw.1)
    exact keeps_applyCommand (D := fun _ => True) unrenewing_draws (fun _ _ => trivial)
      (fun _ h _ => Command.closes_unrenewing hc h) w hw.2

theorem keepsWhole_withRun {x : Go Unit} (hx : KeepsWhole s orgs x) :
    KeepsWhole s orgs (withRun r x) := by
  refine .bind ?_ fun _ => .bind hx.lift_run fun res => .bind ?_ fun _ => ?_
  · exact fun w hw _ => ⟨hw.1.chained, hw⟩
  · exact fun w hw _ => ⟨hw.1.chained, hw⟩
  · exact fun w hw => hw

theorem respondWorkflow_whole {token : Nat} {cmds : List Command}
    (hlegal : (∃ c ∈ cmds, c.renews = true) →
      ∀ t, (w.disp.completeWorkflowTask token).1 = some t → LegalName orgs t.ref.ns)
    (hw : w.Whole s orgs) (hsettled : w.window = .settled) :
    (respondWorkflow token cmds).run.wp handler (chainPolicy s).effect
      (fun w e => (handler e w).2.Chained s)
      (fun _ w' => w'.Whole s orgs ∧ w'.window = .settled) w := by
  have hdone : ∀ d : Dispatcher, ({ w with disp := d } : World).Whole s orgs := fun d =>
    ⟨hw.keyed, hw.renewable.frame ⟨rfl, rfl, rfl⟩, hw.linked, hw.names⟩
  have hready : ∀ d : Dispatcher, ({ w with disp := d } : World).Whole s orgs ∧
      ({ w with disp := d } : World).window = .settled := fun d => ⟨hdone d, hsettled⟩
  intro _
  refine ⟨(hdone _).chained, ?_⟩
  generalize hfound : (handler (.completeWorkflowTask token) w).1 = found
  cases found with
  | none => exact hready _
  | some t =>
    refine keepsWhole_withRun (.forM fun c hc => .bind (.lift_run ?_) fun _ => .pure _) _
      (hready _)
    exact keepsWhole_applyCommand fun hrenews => hlegal ⟨c, hc, hrenews⟩ t hfound

/-- What holds when no operation is running. -/
def World.Resting (s : RunRef) (w : World) : Prop := w.AtRest ∧ w.Linked s

theorem closes_unrenewing {o : Operation} (ho : ∀ token cmds, o ≠ .respondWorkflow token cmds)
    {attrs : EventAttrs} (h : o.Closes w r attrs) : Licence.unrenewing.closes r attrs := by
  rintro n rfl
  cases o with
  | respondWorkflow token cmds => exact ho token cmds rfl
  | start a | cancel t _ _ | terminate t _ _ | sweepCanceling l => cases h.2
  | _ => exact h

theorem program_whole {fuel : Nat} {o : Operation} (hw : w.Chained s) (hlinked : w.Linked s)
    (ho : o.Renewing w) :
    (program fuel o).wp handler (chainPolicy s).effect (fun w e => (handler e w).2.Chained s)
      (fun _ w' => w'.Resting s) w.begin := by
  have hbegin : w.begin.Whole s w.orgs := ⟨hw.keyed, hw.renewable.begin, hlinked, rfl⟩
  by_cases hrespond : ∃ token cmds, o = .respondWorkflow token cmds
  · obtain ⟨token, cmds, rfl⟩ := hrespond
    rw [program, drop, Program.wp_bind]
    refine Program.wp_mono ?_ _ (respondWorkflow_whole ho hbegin rfl)
    rintro res w' ⟨hwhole, hsettled⟩
    exact ⟨.inl hsettled, hwhole.linked⟩
  · have hconduct := program_conduct unrenewing_draws fuel hw.keyed
      (Operation.admitted_of_any rfl trivial w.store)
      fun _ _ => closes_unrenewing fun token cmds h => hrespond ⟨token, cmds, h⟩
    refine Program.wp_mono ?_ _ (Program.wp_whole hconduct hbegin)
    rintro res w' ⟨hrest, hwhole⟩
    exact ⟨hrest, hwhole.linked⟩

theorem chain_proof (s : RunRef) (fuel : Nat) :
    (system fuel).Proof (chainPolicy s) (fun w e => (handler e w).2.Chained s) (World.Resting s)
      (World.Chained s) where
  program w o hinv hrest ho := program_whole hinv hrest.2 ho
  recover w hinv hcrash := by
    have hcrashed : w.crash.begin.Whole s w.orgs :=
      ⟨hinv.keyed, hinv.renewable.crash.begin, hinv.owing.linked hcrash, rfl⟩
    refine Program.wp_mono ?_ _ (Program.wp_whole (recover_conduct fuel w.crash) hcrashed)
    rintro res w' ⟨hrest, hwhole⟩
    exact ⟨hrest, hwhole.linked⟩
  begin w hinv _ := ⟨hinv.keyed, hinv.renewable.begin, hinv.owing⟩
  crash w hinv _ := ⟨hinv.keyed, hinv.renewable.crash.begin, hinv.owing⟩
  effect _ _ _ hg _ := hg

end Chain

/-- In every run in which `s` is not purged and no crash falls between a close
and the start that follows it, whenever no operation is running, a run with the
status continued-as-new was closed with a successor, and if that is `s`, it is
stored, as it is if an event of the run's history names it. -/
theorem continued_run_succeeded {fuel : Nat} {w w' : World} (hw : w.Fresh) {s : RunRef}
    (hr : (system fuel).Reachable (chainPolicy s) w ⟨w', .done ()⟩) {r : RunRef}
    {row : WorkflowExecution} (hrow : w'.store.get (.wf r) = some row)
    (hstatus : row.status = .continuedAsNew) :
    (∃ n, w'.Continued r n) ∧
      (∀ n, w'.Continued r n → r.successor n = s → w'.store.HasRun s) ∧
      ∀ id ev n, w'.store.get (.wfh r id) = some ev → ev.attrs = .continuedAsNew n →
        r.successor n = s → w'.store.HasRun s := by
  have hnone : ∀ r row, w.store.get (.wf r) ≠ some row := by
    intro r row hrow
    rw [hw.store, Store.get_empty] at hrow
    cases hrow
  have hnever : ∀ r n, ¬w.Continued r n := by
    intro r n hn
    rw [World.Continued, hw.closings] at hn
    cases hn
  have hrenewable : w.Renewable := by
    refine ⟨fun r row hrow => absurd hrow (hnone r row), fun r c hwin => ?_,
      fun r row hrow _ => absurd hrow (hnone r row), fun r id ev n hev => ?_⟩
    · rw [hw.window] at hwin
      cases hwin
    · rw [hw.store, Store.get_empty] at hev
      cases hev
  have hlinked : w.Linked s := fun r n hn _ => absurd hn (hnever r n)
  have hinv : w.Chained s := ⟨hw.keyed, hrenewable, hlinked.owing⟩
  have hchained := (chain_proof s fuel).invariant hinv ⟨.inl hw.window, hlinked⟩ hr
  have hrest := (chain_proof s fuel).settled hinv ⟨.inl hw.window, hlinked⟩ hr
  refine ⟨hchained.renewable.continued r row hrow hstatus, fun n hn hs => hrest.2 r n hn hs,
    fun id ev n hev hn hs => ?_⟩
  obtain ⟨r', hns, hwf, hcontinued⟩ := hchained.renewable.told r id ev n hev hn
  refine hrest.2 r' n hcontinued ?_
  rw [← hs, RunRef.successor, hns, hwf, RunRef.successor]

def chainCheck (s : RunRef) (w : World) : Effect → Bool
  | .newRunId => w.nextUnused
  | .write (.del (.wf r)) => r ≠ s
  | _ => true

theorem chainCheck_effect (s : RunRef) (w : World) (e : Effect) (h : chainCheck s w e = true) :
    (chainPolicy s).effect w e := by
  refine ⟨?_, ?_⟩
  · cases e with
    | newRunId => exact fun ns wf => ⟨w.get_nextId h ns wf, trivial⟩
    | _ => trivial
  · rintro rfl
    simp [chainCheck] at h

def continueOne : Operation := .respondWorkflow 0 [.continueAsNew .empty "" ""]

def startAndContinue : List (System.Turn Operation) := [.whole startRun, .whole continueOne]

def Store.statusOf (s : Store) (r : RunRef) : Option WorkflowStatus :=
  (s.get (.wf r)).map WorkflowExecution.status

def World.successors (w : World) (r : RunRef) : List String :=
  w.closings.filterMap fun
    | (r', .event .continuedAsNew (.continuedAsNew n)) => if r' = r then some n else none
    | _ => none

theorem World.continued_of_mem (h : n ∈ w.successors r) : w.Continued r n := by
  obtain ⟨⟨r', c⟩, hmem, hc⟩ := List.mem_filterMap.mp h
  split at hc
  · next r₁ n₁ heq =>
      obtain ⟨rfl, rfl⟩ := Prod.mk.inj heq
      split_ifs at hc with hr
      obtain rfl := Option.some.inj hc
      subst hr
      exact hmem
  · cases hc

theorem startAndContinue_reachable :
    (system 1).Reachable (chainPolicy ⟨"n", "wf", "id0"⟩) emptyShard
      ⟨(system 1).turns startAndContinue emptyShard, .done ()⟩ := by
  have hstart := (system 1).reaches_whole (chainPolicy ⟨"n", "wf", "id0"⟩) (w := emptyShard)
    (o := startRun) trivial
    (Program.meets_of_checks (chainCheck_effect _) _ _ (by decide +kernel))
  refine hstart.trans ((system 1).reaches_whole (chainPolicy ⟨"n", "wf", "id0"⟩)
    (o := continueOne) (fun _ t ht => ?_)
    (Program.meets_of_checks (chainCheck_effect _) _ _ (by decide +kernel)))
  have hns : (((system 1).turn (.whole startRun) emptyShard).disp.completeWorkflowTask 0).1.map
      (fun t => t.ref.ns) = some "n" := by decide +kernel
  obtain ⟨t', ht', hn⟩ := Option.map_eq_some_iff.mp hns
  obtain rfl : t' = t := Option.some.inj (ht'.symm.trans ht)
  rw [hn]
  exact ⟨by decide, by decide, by decide, rfl⟩

theorem continued_run_succeeded_once :
    ((system 1).turns startAndContinue emptyShard).store.statusOf ⟨"n", "wf", "r"⟩ =
        some .continuedAsNew ∧
      ((system 1).turns startAndContinue emptyShard).Continued ⟨"n", "wf", "r"⟩ "id0" ∧
      ((system 1).turns startAndContinue emptyShard).store.HasRun ⟨"n", "wf", "id0"⟩ := by
  have hstatus : ((system 1).turns startAndContinue emptyShard).store.statusOf ⟨"n", "wf", "r"⟩ =
      some .continuedAsNew := by decide +kernel
  obtain ⟨row, hrow, hcontinued⟩ := Option.map_eq_some_iff.mp hstatus
  have hn : ((system 1).turns startAndContinue emptyShard).Continued ⟨"n", "wf", "r"⟩ "id0" :=
    World.continued_of_mem (by decide +kernel)
  exact ⟨hstatus, hn, (continued_run_succeeded emptyShard_fresh startAndContinue_reachable hrow
    hcontinued).2.1 "id0" hn rfl⟩

/-- Cut once the terminal event of the run is counted, its successor is never
started: recovery finds the run closed. -/
theorem continued_run_orphaned :
    ((system 1).turns [.whole startRun, .cut continueOne 13] emptyShard).store.statusOf
        ⟨"n", "wf", "r"⟩ = some .continuedAsNew ∧
      ((system 1).turns [.whole startRun, .cut continueOne 13] emptyShard).Continued
        ⟨"n", "wf", "r"⟩ "id0" ∧
      ¬((system 1).turns [.whole startRun, .cut continueOne 13] emptyShard).store.HasRun
        ⟨"n", "wf", "id0"⟩ := by
  refine ⟨by decide +kernel, World.continued_of_mem (by decide +kernel), ?_⟩
  have hnone : ((system 1).turns [.whole startRun, .cut continueOne 13] emptyShard).store.statusOf
      ⟨"n", "wf", "id0"⟩ = none := by decide +kernel
  rintro ⟨row, hrow⟩
  rw [Store.statusOf, hrow] at hnone
  cases hnone

end DurableTasks
