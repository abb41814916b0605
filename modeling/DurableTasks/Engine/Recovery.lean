import DurableTasks.Engine.DurableConduct

/-!
What recovery does: the index walk gives every open run its entry, and each
entry is then driven once or dropped. With it, every operation of the engine
keeps to the write discipline.
-/

namespace DurableTasks

open Effects Engine

variable {r : RunRef} {ns : String} {Q : Post Unit World} {w w' w'' : World} {fuel : Nat}
  {l : List (Int × WorkflowActivity)} {seq : Int} {a : WorkflowActivity}

variable {L : Licence} {A : World → Prop}

def Store.IsOpen (s : Store) (r : RunRef) : Prop :=
  ∃ row, s.get (.wf r) = some row ∧ row.isOpen = true

/-- Every open run of a namespace has its index entry. -/
def Store.IndexComplete (s : Store) (ns : String) : Prop :=
  ∀ r, r.ns = ns → s.IsOpen r → s.get (.wfopen r) = some ()

/-! ## The index walk -/

structure Enlists (ns : String) (w w' : World) : Prop where
  settled : w'.window = .settled
  runs : ∀ r, w'.store.run r = w.store.run r ∨ r.ns = ns ∧ w.store.IsOpen r ∧
    w'.store.run r = { w.store.run r with entry := some () }
  marks : ∀ ns', ns' ≠ ns → w'.store.get (.wfidx ns') = w.store.get (.wfidx ns')
  disp : w'.disp = w.disp
  dispatched : w'.dispatched = w.dispatched

namespace Enlists

variable {ns : String} {w w' w'' : World}

theorem refl (hw : w.window = .settled) : Enlists ns w w :=
  ⟨hw, fun _ => .inl rfl, fun _ _ => rfl, rfl, rfl⟩

theorem row (h : Enlists ns w w') (r : RunRef) : w'.store.get (.wf r) = w.store.get (.wf r) := by
  simp only [Store.get]
  rcases h.runs r with hr | ⟨-, -, hr⟩ <;> rw [hr]

theorem isOpen (h : Enlists ns w w') (r : RunRef) : w'.store.IsOpen r ↔ w.store.IsOpen r := by
  simp only [Store.IsOpen, h.row r]

theorem entry (h : Enlists ns w w') (hr : w.store.get (.wfopen r) = some ()) :
    w'.store.get (.wfopen r) = some () := by
  simp only [Store.get] at hr ⊢
  rcases h.runs r with heq | ⟨-, -, heq⟩
  · rw [heq, hr]
  · rw [heq]

theorem trans (h : Enlists ns w w') (h' : Enlists ns w' w'') : Enlists ns w w'' := by
  refine ⟨h'.settled, fun r => ?_, fun ns' hne => (h'.marks ns' hne).trans (h.marks ns' hne),
    h'.disp.trans h.disp, h'.dispatched.trans h.dispatched⟩
  rcases h'.runs r with hr' | ⟨hns, hopen, hr'⟩
  · rw [hr']
    exact h.runs r
  · refine .inr ⟨hns, (h.isOpen r).mp hopen, ?_⟩
    rcases h.runs r with hr | ⟨-, -, hr⟩ <;> rw [hr', hr]

theorem enlist (hns : r.ns = ns) (hopen : w.store.IsOpen r) :
    Enlists ns w (w.write (.put (.wfopen r) ())) := by
  refine ⟨rfl, fun r' => ?_, fun _ _ => rfl, rfl, rfl⟩
  simp only [World.write_store, Store.apply_put, Store.put, Store.run_setRun]
  split_ifs with hr
  · subst hr
    exact .inr ⟨hns, hopen, rfl⟩
  · exact .inl rfl

end Enlists

theorem indexRows_spec {rows : List (RunRef × WorkflowExecution)} (hw : w.window = .settled)
    (hrows : ∀ p ∈ rows, p.1.ns = ns ∧ w.store.get (.wf p.1) = some p.2)
    (hQ : ∀ w', Enlists ns w w' →
      (∀ p ∈ rows, p.2.isOpen = true → w'.store.get (.wfopen p.1) = some ()) → Q (.ok ()) w') :
    (indexRows rows).spec A L.guard Q w := by
  induction rows generalizing w with
  | nil => exact hQ w (.refl hw) (by simp)
  | cons p rows ih =>
    change ((if p.2.status.isTerminal then pure () else openRun p.1) >>=
      fun _ => indexRows rows : Go Unit).spec A L.guard Q w
    obtain ⟨hns, hrow⟩ := hrows p (by simp)
    have hrows' : ∀ q ∈ rows, q.1.ns = ns ∧ w.store.get (.wf q.1) = some q.2 :=
      fun q hq => hrows q (by simp [hq])
    rw [Go.spec_bind]
    split_ifs with hterm
    · refine ih hw hrows' fun w' hw' hall => hQ w' hw' ?_
      rintro q hq hopen
      rcases List.mem_cons.mp hq with rfl | hq
      · simp [WorkflowExecution.isOpen, hterm] at hopen
      · exact hall q hq hopen
    · have hopen : w.store.IsOpen p.1 :=
        ⟨p.2, hrow, by simpa [WorkflowExecution.isOpen] using hterm⟩
      have hfirst : Enlists ns w (w.write (.put (.wfopen p.1) ())) := .enlist hns hopen
      have hentry : (w.write (.put (.wfopen p.1) ())).store.get (.wfopen p.1) = some () := by
        simp
      rw [openRun, Go.spec_put]
      refine ⟨settled_guard hw (.enlist (.inr ⟨p.1, p.2, rfl, hrow⟩)), ?_⟩
      generalize w.write (.put (.wfopen p.1) ()) = w₁ at hfirst hentry ⊢
      refine ih hfirst.settled (fun q hq => ?_) fun w' hw' hall => hQ w' (hfirst.trans hw') ?_
      · rw [hfirst.row]
        exact hrows' q hq
      · rintro q hq hqopen
        rcases List.mem_cons.mp hq with rfl | hq
        · exact hw'.entry hentry
        · exact hall q hq hqopen

/-- The walk from a cursor with nothing left to index before it. It is cut
short only by more rows than `fuel` pages hold. -/
theorem indexPages_spec {after : Option RunRef} (hw : w.window = .settled)
    (hbefore : ∀ r, r.ns = ns → w.store.IsOpen r → ¬Store.After after r →
      w.store.get (.wfopen r) = some ())
    (hQ : ∀ w', Enlists ns w w' → w'.store.IndexComplete ns → Q (.ok ()) w')
    (hcut : fuel * indexPage ≤ (w.store.rowsAfter ns after).length → ∀ e w', Enlists ns w w' →
      Q (.error e) w') :
    (indexPages ns fuel after).spec A L.guard Q w := by
  induction fuel generalizing w after with
  | zero => exact hcut (by omega) _ w (.refl hw)
  | succ fuel ih =>
    simp only [indexPages, Go.spec_bind, Go.spec_page]
    have hpage : ∀ p ∈ w.store.page ns after indexPage,
        p.1.ns = ns ∧ w.store.get (.wf p.1) = some p.2 := fun p hp => Store.mem_page hp
    refine indexRows_spec hw hpage fun w₁ hw₁ hindexed => ?_
    -- what the page does not reach comes after every key of it
    have hreached : ∀ r, r.ns = ns → w₁.store.IsOpen r →
        w₁.store.get (.wfopen r) = some () ∨
          (w.store.page ns after indexPage).length = indexPage ∧
            ∀ p ∈ w.store.page ns after indexPage, RunRef.cmp p.1 r = .lt := by
      intro r hns hopen
      have hopen' := (hw₁.isOpen r).mp hopen
      obtain ⟨row, hrow, hrowOpen⟩ := hopen'
      by_cases hafter : Store.After after r
      · refine (Store.mem_page_or (Store.mem_rowsAfter.mpr ⟨⟨hns, hrow⟩, hafter⟩)).imp_left ?_
        exact fun hmem => hindexed _ hmem hrowOpen
      · exact .inl (hw₁.entry (hbefore r hns ((hw₁.isOpen r).mp hopen) hafter))
    split_ifs with hshort
    · refine hQ w₁ hw₁ fun r hns hopen => (hreached r hns hopen).resolve_right ?_
      exact fun h => absurd h.1 (by omega)
    · obtain ⟨p, hlast⟩ : ∃ p, (w.store.page ns after indexPage).getLast? = some p := by
        rw [← Option.isSome_iff_exists, List.getLast?_isSome]
        rintro hnil
        rw [hnil] at hshort
        exact hshort (by decide)
      have hleft := Store.length_rowsAfter_page hlast
      rw [hlast, Option.map_some, Option.some_or]
      have hrest : w₁.store.rowsAfter ns (some p.1) = w.store.rowsAfter ns (some p.1) := by
        simp only [Store.rowsAfter, Store.nsRows_congr hw₁.row]
      refine ih hw₁.settled ?_ (fun w' hw' => hQ w' (hw₁.trans hw')) ?_
      · intro r hns hopen hnot
        refine (hreached r hns hopen).resolve_right fun h => hnot ?_
        rintro a ha
        obtain rfl := Option.some.inj ha
        exact h.2 p (List.mem_of_getLast? hlast)
      · rw [hrest]
        intro hlen e w' hw'
        refine hcut ?_ e w' (hw₁.trans hw')
        rw [Nat.succ_mul]
        omega

/-- `indexOpenRuns` leaves the index of the namespace complete, if the mark it
finds can be trusted. -/
theorem indexOpenRuns_spec (hw : w.window = .settled)
    (hQ : ∀ w', Enlists ns w w' →
      (((w.store.get (.wfidx ns)).isSome → w.store.IndexComplete ns) → w'.store.IndexComplete ns) →
      Q (.ok ()) w')
    (hcut : fuel * indexPage ≤ (w.store.nsRows ns).length → ∀ e w', Enlists ns w w' →
      Q (.error e) w') :
    (indexOpenRuns fuel ns).spec A L.guard Q w := by
  simp only [indexOpenRuns, Go.spec_bind, Go.spec_getIndexed]
  cases hidx : w.store.get (.wfidx ns) with
  | some t => exact hQ w (.refl hw) fun h => h (by simp [hidx])
  | none =>
    simp only [Go.spec_bind]
    refine indexPages_spec hw ?_ (fun w' hw' hcomplete => ?_) ?_
    · exact fun r _ _ hnot => absurd (fun a ha => by cases ha) hnot
    · simp only [Go.spec_now, Go.spec_put]
      refine ⟨settled_guard hw'.settled (.index _ fun r row hns hrow hopen => ?_), ?_⟩
      · exact hcomplete r hns ⟨row, hrow, hopen⟩
      · have hmark : Enlists ns w' (w'.tick.write (.put (.wfidx ns) w'.time)) :=
          ⟨rfl, fun _ => .inl rfl, fun ns' hne => by simp [Store.get_put_of_ne, hne], rfl, rfl⟩
        refine hQ _ (hw'.trans hmark) fun _ r hns hopen => ?_
        exact hmark.entry (hcomplete r hns ((hmark.isOpen r).mp hopen))
    · simpa [Store.rowsAfter] using hcut

/-! ## Driving a run -/

def World.tasks (w : World) (r : RunRef) : Nat :=
  w.disp.wfByToken.countP fun p => p.2.ref = r

def World.attempts (w : World) (r : RunRef) (seq : Int) : Nat :=
  w.dispatched.countP fun p => p.1 = r ∧ p.2.1 = seq

theorem World.tasks_enqueue (w : World) (t : WorkflowTask) (r : RunRef) :
    (w.enqueue t).tasks r = w.tasks r + if t.ref = r then 1 else 0 := by
  simp [tasks, enqueue, Dispatcher.enqueueWorkflowTask, List.countP_cons]

theorem World.attempts_dispatch (w : World) (t : ActivityTask) (n : Nat) (r : RunRef) (seq : Int) :
    (w.dispatch t n).attempts r seq =
      w.attempts r seq + if t.ref = r ∧ t.seq = seq then 1 else 0 := by
  simp [attempts, dispatch, List.countP_cons]

structure Untouched (w w' : World) (r : RunRef) : Prop where
  data : w'.store.run r = w.store.run r
  tasks : w'.tasks r = w.tasks r
  attempts : ∀ seq, w'.attempts r seq = w.attempts r seq

theorem Untouched.refl (w : World) (r : RunRef) : Untouched w w r := ⟨rfl, rfl, fun _ => rfl⟩

theorem Untouched.trans (h : Untouched w w' r) (h' : Untouched w' w'' r) : Untouched w w'' r :=
  ⟨h'.data.trans h.data, h'.tasks.trans h.tasks, fun seq =>
    (h'.attempts seq).trans (h.attempts seq)⟩

def WorkflowActivity.restarted (a : WorkflowActivity) : WorkflowActivity :=
  { a with status := .started }

/-- From `w` to `w'` the records of `l` that are not terminal were handed out,
once each, and nothing else of the store changed. -/
structure Redispatched (r : RunRef) (l : List (Int × WorkflowActivity)) (w w' : World) :
    Prop where
  settled : w'.window = .settled
  marks : w'.store.indexed = w.store.indexed
  others : ∀ r', r' ≠ r → Untouched w w' r'
  data : w'.store.run r = { w.store.run r with acts := (w'.store.run r).acts }
  tasks : w'.tasks r = w.tasks r
  handed : ∀ seq a, (seq, a) ∈ l → a.isTerminal = false →
    w'.store.get (.wfact r seq) = some a.restarted ∧ w'.attempts r seq = w.attempts r seq + 1
  kept : ∀ seq, (∀ a, (seq, a) ∈ l → a.isTerminal = true) →
    w'.store.get (.wfact r seq) = w.store.get (.wfact r seq) ∧
      w'.attempts r seq = w.attempts r seq

theorem Redispatched.refl (hw : w.window = .settled) (hl : ∀ p ∈ l, p.2.isTerminal = true) :
    Redispatched r l w w where
  settled := hw
  marks := rfl
  others r' _ := .refl w r'
  data := rfl
  tasks := rfl
  handed seq a hmem hterm := by simp [hl _ hmem] at hterm
  kept _ _ := ⟨rfl, rfl⟩

def handedOut (w : World) (r : RunRef) (seq : Int) (a : WorkflowActivity) : World :=
  (w.write (.put (.wfact r seq) a.restarted)).dispatch
    { ref := r, seq := seq, queue := a.taskQueue, activityID := a.activityID
      activityType := a.activityType, input := a.input
      startToCloseMs := a.startToCloseMs, heartbeatMs := a.heartbeatMs } a.attempt

theorem spec_dispatchActivityAttempt_quiet {G : World → Write → Prop} :
    (dispatchActivityAttempt r seq a false).spec A G Q w ↔
      if a.storable then
        G w (.put (.wfact r seq) a.restarted) ∧ Q (.ok ()) (handedOut w r seq a)
      else Q (.error "store.put: marshal: invalid json.RawMessage") w := by
  have hstorable : a.restarted.storable = a.storable := rfl
  have hmarker : ∀ b, appendStartedMarker r seq b false = pure () := fun _ => rfl
  simp only [dispatchActivityAttempt, Go.spec_bind, putWorkflowActivity_spec, hmarker,
    Go.spec_pure, Go.spec_dispatchActivity]
  change (if a.restarted.storable then _ else _) ↔ _
  rw [hstorable]
  rfl

theorem Redispatched.cons (hnew : ∀ b, (seq, b) ∉ l) (hterm : a.isTerminal = false)
    (h : Redispatched r l (handedOut w r seq a) w') : Redispatched r ((seq, a) :: l) w w' := by
  have hattempts : ∀ r' seq', (handedOut w r seq a).attempts r' seq' =
      w.attempts r' seq' + if r = r' ∧ seq = seq' then 1 else 0 := fun r' seq' =>
    World.attempts_dispatch _ _ _ r' seq'
  have htouched : ∀ r', r' ≠ r → Untouched w (handedOut w r seq a) r' := by
    intro r' hne
    refine ⟨?_, rfl, fun seq' => ?_⟩
    · simp [handedOut, Store.put, Store.run_setRun, hne]
    · rw [hattempts, if_neg (fun h => hne h.1.symm), Nat.add_zero]
  have hother : ∀ seq', seq' ≠ seq →
      (handedOut w r seq a).store.get (.wfact r seq') = w.store.get (.wfact r seq') ∧
        (handedOut w r seq a).attempts r seq' = w.attempts r seq' := by
    intro seq' hne
    refine ⟨?_, ?_⟩
    · simp [handedOut, Store.get_put_of_ne, hne]
    · rw [hattempts, if_neg (fun h => hne h.2.symm), Nat.add_zero]
  have hself : (handedOut w r seq a).store.get (.wfact r seq) = some a.restarted ∧
      (handedOut w r seq a).attempts r seq = w.attempts r seq + 1 := by
    refine ⟨?_, ?_⟩
    · simp [handedOut]
    · rw [hattempts, if_pos ⟨rfl, rfl⟩]
  refine ⟨h.settled, h.marks, fun r' hr' => (htouched r' hr').trans (h.others r' hr'), ?_,
    h.tasks, ?_, ?_⟩
  · rw [h.data]
    simp [handedOut, Store.put, Store.run_setRun]
  · grind [h.kept, h.handed]
  · grind [h.kept]

theorem Redispatched.skip (hterm : a.isTerminal = true) (h : Redispatched r l w w') :
    Redispatched r ((seq, a) :: l) w w' := by
  refine ⟨h.settled, h.marks, h.others, h.data, h.tasks, fun seq' b hmem hb => ?_,
    fun seq' hall => h.kept seq' fun b hb => hall b (by simp [hb])⟩
  rcases List.mem_cons.mp hmem with heq | hmem
  · obtain ⟨rfl, rfl⟩ := Prod.mk.inj heq
    simp [hterm] at hb
  · exact h.handed seq' b hmem hb

theorem redispatch_spec (hw : w.window = .settled)
    (hstored : ∀ p ∈ l, w.store.get (.wfact r p.1) = some p.2) (hnodup : (l.map Prod.fst).Nodup) :
    (redispatch r l).spec A L.guard (fun res w' => w'.window = .settled ∧
      ((∀ p ∈ l, p.2.storable = true) → res = .ok () ∧ Redispatched r l w w')) w := by
  induction l generalizing w with
  | nil => exact ⟨hw, fun _ => ⟨rfl, .refl hw (by simp)⟩⟩
  | cons p l ih =>
    obtain ⟨seq, a⟩ := p
    obtain ⟨hnew, hnodup⟩ := List.nodup_cons.mp hnodup
    have hnew' : ∀ b, (seq, b) ∉ l := fun b hb =>
      hnew (List.mem_map.mpr ⟨(seq, b), hb, rfl⟩)
    have hstored' : ∀ p ∈ l, w.store.get (.wfact r p.1) = some p.2 :=
      fun p hp => hstored p (by simp [hp])
    change ((if a.isTerminal then pure () else dispatchActivityAttempt r seq a false) >>=
      fun _ => redispatch r l : Go Unit).spec A L.guard _ w
    rw [Go.spec_bind]
    split_ifs with hterm
    · show (redispatch r l).spec A L.guard _ w
      refine Go.spec_mono ?_ _ (ih hw hstored' hnodup)
      rintro res w' ⟨hw', hall⟩
      refine ⟨hw', fun hstorable => ?_⟩
      obtain ⟨hok, hre⟩ := hall fun p hp => hstorable p (by simp [hp])
      exact ⟨hok, hre.skip hterm⟩
    · have hterm' : a.isTerminal = false := by simpa using hterm
      rw [spec_dispatchActivityAttempt_quiet]
      split_ifs with hstorable
      · have hact : w.store.get (.wfact r seq) = some a := hstored (seq, a) (by simp)
        refine ⟨settled_guard hw (.record hstorable ?_ (fun h => by cases h)
          (.inr ⟨a, hact, rfl, rfl⟩)), ?_⟩
        · intro b hb
          obtain rfl : a = b := Option.some.inj (hact.symm.trans hb)
          exact hterm'
        · have hne : ∀ p ∈ l, p.1 ≠ seq := fun p hp heq => hnew' p.2 (heq ▸ hp)
          refine Go.spec_mono ?_ _ (ih (w := handedOut w r seq a) rfl (fun p hp => ?_) hnodup)
          · rintro res w' ⟨hw', hall⟩
            refine ⟨hw', fun hstorable => ?_⟩
            obtain ⟨hok, hre⟩ := hall fun p hp => hstorable p (by simp [hp])
            exact ⟨hok, hre.cons hnew' hterm'⟩
          · simpa [handedOut, Store.get_put_of_ne, hne p hp] using hstored' p hp
      · refine ⟨hw, fun hall => absurd (hall (seq, a) (by simp)) hstorable⟩

structure Store.Readable (s : Store) (r : RunRef) : Prop where
  decodes : (decodeEvents (s.events r)).isSome
  storable : ∀ seq a, s.get (.wfact r seq) = some a → a.storable = true

/-- What recovery from `w` has done for a run once it is done with it. -/
structure Driven (w w' : World) (r : RunRef) : Prop where
  row : w'.store.get (.wf r) = w.store.get (.wf r)
  hist : (w'.store.run r).hist = (w.store.run r).hist
  entry : w'.store.get (.wfopen r) = some () ↔ w.store.IsOpen r
  task : w.store.IsOpen r → w'.tasks r = w.tasks r + 1
  noTask : ¬w.store.IsOpen r → w'.tasks r = w.tasks r
  handed : w.store.IsOpen r → ∀ seq a, w.store.get (.wfact r seq) = some a →
    a.isTerminal = false →
    w'.store.get (.wfact r seq) = some a.restarted ∧ w'.attempts r seq = w.attempts r seq + 1
  kept : ∀ seq, (w.store.IsOpen r → ∀ a, w.store.get (.wfact r seq) = some a →
      a.isTerminal = true) →
    w'.store.get (.wfact r seq) = w.store.get (.wfact r seq) ∧
      w'.attempts r seq = w.attempts r seq

theorem Untouched.readable (h : Untouched w w' r) (hread : w.store.Readable r) :
    w'.store.Readable r := by
  obtain ⟨hdec, hst⟩ := hread
  simp only [Store.events, Store.get] at hdec hst
  exact ⟨by rwa [Store.events, h.data], by simpa only [Store.get, h.data] using hst⟩

theorem Untouched.driven (h : Untouched w w' r) (h' : Driven w' w'' r) : Driven w w'' r := by
  obtain ⟨hrow, hhist, hentry, htask, hnoTask, hhanded, hkept⟩ := h'
  simp only [Store.IsOpen, Store.get, h.data, h.tasks, h.attempts] at *
  exact ⟨hrow, hhist, hentry, htask, hnoTask, hhanded, hkept⟩

theorem Driven.untouched (h : Driven w w' r) (h' : Untouched w' w'' r) : Driven w w'' r := by
  obtain ⟨hrow, hhist, hentry, htask, hnoTask, hhanded, hkept⟩ := h
  simp only [Store.IsOpen, Store.get, ← h'.data, ← h'.tasks, ← h'.attempts] at *
  exact ⟨hrow, hhist, hentry, htask, hnoTask, hhanded, hkept⟩

/-- From `w` to `w'` recovery has been through the runs of `own`. -/
structure Visits (own : RunRef → Prop) (w w' : World) : Prop where
  marks : ∀ ns, (∀ r, own r → r.ns ≠ ns) → w'.store.get (.wfidx ns) = w.store.get (.wfidx ns)
  driven : ∀ r, own r → Driven w w' r
  others : ∀ r, ¬own r → Untouched w w' r

namespace Visits

variable {own own' both : RunRef → Prop}

theorem row (h : Visits own w w') (r : RunRef) : w'.store.get (.wf r) = w.store.get (.wf r) := by
  by_cases hr : own r
  · exact (h.driven r hr).row
  · simp only [Store.get, (h.others r hr).data]

theorem trans (h : Visits own w w') (h' : Visits own' w' w'') (hboth : ∀ r, both r ↔ own r ∨ own' r)
    (hapart : ∀ r, own r → ¬own' r) : Visits both w w'' where
  marks ns hns := (h'.marks ns fun r hr => hns r ((hboth r).mpr (.inr hr))).trans
    (h.marks ns fun r hr => hns r ((hboth r).mpr (.inl hr)))
  driven r hr := by
    rcases (hboth r).mp hr with hr | hr
    · exact (h.driven r hr).untouched (h'.others r (hapart r hr))
    · exact (h.others r fun hown => hapart r hown hr).driven (h'.driven r hr)
  others r hr := by
    rw [hboth, not_or] at hr
    exact (h.others r hr.1).trans (h'.others r hr.2)

end Visits

/-- Recovery goes through the items of a list, each with runs of its own. -/
theorem forM_visits {ι : Type} {f : ι → Go Unit} {own : ι → RunRef → Prop}
    {Ready : ι → World → Prop}
    (hone : ∀ i w, w.window = .settled → (f i).spec A L.guard (fun res w' =>
      w'.window = .settled ∧ (Ready i w → res = .ok () ∧ Visits (own i) w w')) w)
    (hkeep : ∀ {i j w w'}, j ≠ i → Visits (own i) w w' → Ready j w → Ready j w')
    (hapart : ∀ {i j r}, own i r → own j r → i = j) {items : List ι} (hnodup : items.Nodup)
    (hw : w.window = .settled) :
    (items.forM f).spec A L.guard (fun res w' => w'.window = .settled ∧
      ((∀ i ∈ items, Ready i w) →
        res = .ok () ∧ Visits (fun r => ∃ i ∈ items, own i r) w w')) w := by
  induction items generalizing w with
  | nil => exact ⟨hw, fun _ => ⟨rfl, fun _ _ => rfl, by simp, fun r _ => .refl w r⟩⟩
  | cons i items ih =>
    obtain ⟨hnew, hnodup⟩ := List.nodup_cons.mp hnodup
    change (f i >>= fun _ => items.forM f).spec A L.guard _ w
    rw [Go.spec_bind]
    refine Go.spec_mono ?_ _ (hone i w hw)
    rintro (e | _) w₁ ⟨hw₁, hfirst⟩
    · exact ⟨hw₁, fun hall => by cases (hfirst (hall i List.mem_cons_self)).1⟩
    refine Go.spec_mono ?_ _ (ih hnodup hw₁)
    rintro res w₂ ⟨hw₂, hrest⟩
    refine ⟨hw₂, fun hall => ?_⟩
    obtain ⟨-, hvisit⟩ := hfirst (hall i List.mem_cons_self)
    obtain ⟨hok, hvisits⟩ := hrest fun j hj =>
      hkeep (ne_of_mem_of_not_mem hj hnew) hvisit (hall j (List.mem_cons_of_mem _ hj))
    refine ⟨hok, hvisit.trans hvisits (by simp) ?_⟩
    rintro r hr ⟨j, hj, hr'⟩
    exact hnew (hapart hr hr' ▸ hj)

theorem driven_dropped (hclosed : ¬w.store.IsOpen r) :
    Driven w (w.write (.del (.wfopen r))) r where
  row := by simp [Store.get_del_of_ne]
  hist := by simp [Store.del, Store.run_setRun]
  entry := by simp [hclosed]
  task h := absurd h hclosed
  noTask _ := rfl
  handed h := absurd h hclosed
  kept seq _ := ⟨by simp [Store.get_del_of_ne], rfl⟩

/-- Recovery can deal with the run of an index entry. -/
def World.Due (r : RunRef) (w : World) : Prop :=
  w.store.Readable r ∧ w.store.get (.wfopen r) = some ()

theorem recoverRun_spec (r : RunRef) (w : World) (hw : w.window = .settled) :
    (recoverRun r).spec A L.guard (fun res w' => w'.window = .settled ∧
      (w.Due r → res = .ok () ∧ Visits (· = r) w w')) w := by
  -- a run that is not open loses its entry
  have hdrop : ¬w.store.IsOpen r → (del (.wfopen r)).spec A L.guard
      (fun res w' => w'.window = .settled ∧ (w.Due r → res = .ok () ∧ Visits (· = r) w w')) w := by
    intro hclosed
    rw [Go.spec_del]
    refine ⟨settled_guard hw (.unlist ?_ (.inl (.inl rfl))), ?_, fun _ =>
      ⟨rfl, fun _ _ => rfl, ?_, fun r' hne => ⟨?_, rfl, fun _ => rfl⟩⟩⟩
    · intro row hrow
      rw [← Bool.not_eq_true]
      exact fun hopen => hclosed ⟨row, hrow, hopen⟩
    · simp [Window.next, hw]
    · rintro _ rfl
      exact driven_dropped hclosed
    · simp [Store.del, Store.run_setRun, hne]
  simp only [recoverRun, Go.spec_withRun, Go.spec_bind, spec_describeWorkflow, Store.resolve_coe]
  cases hrow : w.store.get (.wf r) with
  | none => exact hdrop (by simp [Store.IsOpen, hrow])
  | some row =>
    dsimp only [Option.map_some]
    split_ifs with hterm
    · refine hdrop ?_
      rintro ⟨row', hrow', hopen⟩
      obtain rfl : row = row' := by simpa [hrow] using hrow'
      simp [WorkflowExecution.isOpen, hterm] at hopen
    have hopen : w.store.IsOpen r :=
      ⟨row, hrow, by simpa [WorkflowExecution.isOpen] using hterm⟩
    simp only [Go.spec_bind, Go.spec_listWorkflowActivities]
    refine Go.spec_mono ?_ _ (redispatch_spec hw (fun p hp => Store.mem_acts.mp hp)
      (w.store.nodup_acts r))
    rintro res w₁ ⟨hw₁, hre⟩
    have hre : w.store.Readable r → res = .ok () ∧ Redispatched r (w.store.acts r) w w₁ :=
      fun h => hre fun p hp => h.storable p.1 p.2 (Store.mem_acts.mp hp)
    rcases res with e | _
    · exact ⟨hw₁, fun h => by cases (hre h.1).1⟩
    -- the workflow task, from the world the records leave
    refine Go.spec_mono (Q := fun res w' => w'.window = .settled ∧
      (w.store.Readable r → res = .ok () ∧ ∃ t, w' = w₁.enqueue t ∧ t.ref = r)) ?_ _ ?_
    · rintro res w' ⟨hw', hlast⟩
      refine ⟨hw', ?_⟩
      rintro ⟨hread, hentry⟩
      obtain ⟨hok, t, rfl, rfl⟩ := hlast hread
      obtain ⟨-, h⟩ := hre hread
      have hkeep : ∀ seq, (∀ a, w.store.get (.wfact t.ref seq) = some a → a.isTerminal = true) →
          w₁.store.get (.wfact t.ref seq) = w.store.get (.wfact t.ref seq) ∧
            w₁.attempts t.ref seq = w.attempts t.ref seq := fun seq hall =>
        h.kept seq fun a ha => hall a (Store.mem_acts.mp ha)
      refine ⟨hok, fun ns _ => ?_, ?_, fun r' hne => ?_⟩
      · simp only [World.enqueue_store, Store.get, h.marks]
      rotate_left
      · obtain ⟨hdata, htasks, hattempts⟩ := h.others r' hne
        refine ⟨hdata, ?_, hattempts⟩
        rw [World.tasks_enqueue, if_neg (Ne.symm hne), Nat.add_zero, htasks]
      rintro _ rfl
      refine ⟨?_, ?_, ?_, ?_, ?_, ?_, ?_⟩
      · simp only [World.enqueue_store, Store.get]
        rw [h.data]
      · rw [World.enqueue_store, h.data]
      · refine iff_of_true ?_ hopen
        simp only [World.enqueue_store, Store.get]
        rw [h.data]
        exact hentry
      · intro _
        rw [World.tasks_enqueue, if_pos rfl, h.tasks]
      · exact fun hclosed => absurd hopen hclosed
      · exact fun _ seq a ha hnot => h.handed seq a (Store.mem_acts.mpr ha) hnot
      · exact fun seq hall => hkeep seq (hall hopen)
    · by_cases hread : w.store.Readable r
      · obtain ⟨-, h⟩ := hre hread
        have hrow₁ : w₁.store.get (.wf r) = some row := by
          rw [← hrow]
          simp only [Store.get]
          rw [h.data]
        have hevents : w₁.store.events r = w.store.events r := by
          simp only [Store.events]
          rw [h.data]
        obtain ⟨evs, hevs⟩ := Option.isSome_iff_exists.mp hread.decodes
        simp only [spec_scheduleWorkflowTask, hrow₁, hevents, hevs]
        rw [if_neg hterm]
        exact ⟨hw₁, fun _ => ⟨trivial, _, rfl, rfl⟩⟩
      · refine Go.spec_mono ?_ _ (keeps_scheduleWorkflowTask r w₁ hw₁)
        exact fun _ _ hw' => ⟨hw', fun h => absurd h hread⟩

/-! ## The whole pass -/

theorem recoverRuns_spec {refs : List RunRef} (hw : w.window = .settled) (hnodup : refs.Nodup) :
    (refs.forM recoverRun).spec A L.guard (fun res w' => w'.window = .settled ∧
      ((∀ r ∈ refs, w.Due r) → res = .ok () ∧ Visits (fun r => ∃ r' ∈ refs, r = r') w w')) w := by
  refine forM_visits recoverRun_spec (fun hne hvisit hdue => ?_) (fun h h' => h.symm.trans h')
    hnodup hw
  have hsame := hvisit.others _ hne
  exact ⟨hsame.readable hdue.1, by simpa only [Store.get, hsame.data] using hdue.2⟩

theorem Enlists.readable (h : Enlists ns w w') (hread : w.store.Readable r) :
    w'.store.Readable r := by
  obtain ⟨hdec, hst⟩ := hread
  simp only [Store.events, Store.get] at hdec hst
  rcases h.runs r with heq | ⟨-, -, heq⟩ <;>
    exact ⟨by simpa only [Store.events, heq] using hdec, by simpa only [Store.get, heq] using hst⟩

theorem Enlists.untouched (h : Enlists ns w w') (hne : r.ns ≠ ns) : Untouched w w' r := by
  refine ⟨(h.runs r).resolve_right fun hr => hne hr.1, ?_, fun seq => ?_⟩
  · simp only [World.tasks, h.disp]
  · simp only [World.attempts, h.dispatched]

theorem Enlists.driven (h : Enlists ns w w') (h' : Driven w' w'' r) : Driven w w'' r := by
  have htasks : w'.tasks r = w.tasks r := by simp only [World.tasks, h.disp]
  have hattempts : ∀ seq, w'.attempts r seq = w.attempts r seq := by
    simp only [World.attempts, h.dispatched, implies_true]
  obtain ⟨hrow, hhist, hentry, htask, hnoTask, hhanded, hkept⟩ := h'
  rcases h.runs r with heq | ⟨-, -, heq⟩ <;>
  · simp only [Store.IsOpen, Store.get, heq, htasks, hattempts] at *
    exact ⟨hrow, hhist, hentry, htask, hnoTask, hhanded, hkept⟩

/-- A run that is neither open nor on the index needs nothing. -/
theorem driven_closed (hclosed : ¬w.store.IsOpen r) (hentry : w.store.get (.wfopen r) ≠ some ()) :
    Driven w w r where
  row := rfl
  hist := rfl
  entry := iff_of_false hentry hclosed
  task h := absurd h hclosed
  noTask _ := rfl
  handed h := absurd h hclosed
  kept _ _ := ⟨rfl, rfl⟩

/-- What recovery of a namespace needs: a mark that says the truth, few enough
rows for the walk, and runs that read back. -/
structure Store.Recoverable (s : Store) (fuel : Nat) (ns : String) : Prop where
  marked : (s.get (.wfidx ns)).isSome → s.IndexComplete ns
  paged : (s.nsRows ns).length < fuel * indexPage
  readable : ∀ r, r.ns = ns → s.Readable r

theorem recoverNamespace_spec (ns : String) (w : World) (hw : w.window = .settled) :
    (recoverNamespace fuel ns).spec A L.guard (fun res w' => w'.window = .settled ∧
      (w.store.Recoverable fuel ns → res = .ok () ∧ Visits (RunRef.ns · = ns) w w')) w := by
  rw [recoverNamespace, Go.spec_bind]
  refine indexOpenRuns_spec hw (fun w₁ hw₁ hcomplete => ?_) fun hlen e w₁ hw₁ => ?_
  · simp only [Go.spec_bind, Go.spec_listOpen]
    refine Go.spec_mono ?_ _ (recoverRuns_spec hw₁.settled (w₁.store.nodup_opens ns))
    rintro res w₂ ⟨hw₂, hpass⟩
    refine ⟨hw₂, fun hrec => ?_⟩
    obtain ⟨hok, hvisits⟩ := hpass fun r hr => by
      obtain ⟨hns, hentry⟩ := Store.mem_opens.mp hr
      exact ⟨hw₁.readable (hrec.readable r hns), hentry⟩
    have hothers : ∀ r, r ∉ w₁.store.opens ns → Untouched w₁ w₂ r := by
      intro r hmem
      refine hvisits.others r ?_
      rintro ⟨r', hr', rfl⟩
      exact hmem hr'
    refine ⟨hok, fun ns' hne => ?_, fun r hns => ?_, fun r hne => ?_⟩
    · rw [← hw₁.marks ns' fun heq => hne ⟨ns, "", ""⟩ rfl heq.symm]
      refine hvisits.marks ns' ?_
      rintro r ⟨r', hr', rfl⟩
      exact hne r (Store.mem_opens.mp hr').1
    · refine hw₁.driven ?_
      by_cases hmem : r ∈ w₁.store.opens ns
      · exact hvisits.driven r ⟨r, hmem, rfl⟩
      · have hentry : w₁.store.get (.wfopen r) ≠ some () :=
          fun h => hmem (Store.mem_opens.mpr ⟨hns, h⟩)
        have hclosed : ¬w₁.store.IsOpen r :=
          fun hopen => hentry (hcomplete hrec.marked r hns hopen)
        exact (driven_closed hclosed hentry).untouched (hothers r hmem)
    · exact (hw₁.untouched hne).trans (hothers r fun hmem => hne (Store.mem_opens.mp hmem).1)
  · exact ⟨hw₁.settled, fun hrec => absurd hrec.paged (by omega)⟩

/-- What is recoverable in one namespace stays so while another is recovered. -/
theorem Store.Recoverable.visits {ns' : String} (h : w.store.Recoverable fuel ns) (hne : ns ≠ ns')
    (hvisit : Visits (RunRef.ns · = ns') w w') : w'.store.Recoverable fuel ns := by
  have hsame : ∀ r, r.ns = ns → Untouched w w' r := fun r hns => hvisit.others r (hns ▸ hne)
  refine ⟨fun hset r hns hopen => ?_, ?_, fun r hns => (hsame r hns).readable (h.readable r hns)⟩
  · rw [hvisit.marks ns fun r hr => hr ▸ hne.symm] at hset
    have hopen' : w.store.IsOpen r := by simpa only [Store.IsOpen, hvisit.row r] using hopen
    simpa only [Store.get, (hsame r hns).data] using h.marked hset r hns hopen'
  · rw [Store.nsRows_congr hvisit.row]
    exact h.paged

/-- `Recover` keeps to the discipline, and when every namespace is recoverable
it returns without an error having driven every run. -/
theorem recover_spec (hw : w.window = .settled) :
    (recover fuel).spec A L.guard (fun res w' => w'.window = .settled ∧
      ((∀ ns ∈ w.store.names, w.store.Recoverable fuel ns) → res = .ok () ∧
        Visits (fun r => ∃ ns ∈ w.store.names, r.ns = ns) w w')) w := by
  simp only [recover, Go.spec_bind, Go.spec_listNamespaces]
  exact forM_visits recoverNamespace_spec (fun hne hvisit h => h.visits hne hvisit)
    (fun h h' => h.symm.trans h') w.store.nodup_names hw

/-! ## Every operation -/

/-- The terminal events an operation that begins in `w` closes a run with. -/
def Operation.Closes (w : World) (r : RunRef) (attrs : EventAttrs) : Operation → Prop
  | .start a => StartRequest.Supersedes a r ∧ attrs = superseded
  | .cancel t reason identity => t.Names r ∧ attrs = .workflowCanceled reason identity
  | .terminate t reason identity => t.Names r ∧ attrs = .workflowTerminated reason identity
  | .respondWorkflow token cmds => ∃ t, (w.disp.completeWorkflowTask token).1 = some t ∧
      t.ref = r ∧ ∃ c ∈ cmds, c.Closes w.Draws attrs
  | .sweepCanceling expired =>
    r ∈ expired ∧ attrs = .workflowCanceled "sweep:cancel-timeout" "engine"
  | _ => False

/-- What the discipline asks of a call, as far as the licence does not waive it. -/
def Operation.Admitted (L : Licence) (s : Store) : Operation → Prop
  | .start a => StartRequest.Reserved L s a
  | .signalWithStart a _ _ => StartRequest.Reserved L s a
  | .reset t _ _ _ => L.reclose ∨ ∀ c row, s.resolve t = some (c, row) → row.isOpen = true
  | _ => True

theorem recover_conduct (fuel : Nat) (w : World) :
    (drop (recover fuel)).wp handler (onDraw A) (onWrite L.guard) (fun _ w' => w'.AtRest)
      w.begin :=
  Go.wp_drop (Go.spec_mono (fun _ _ h => .inl h.1) _ (recover_spec rfl))

/-- The ids an operation draws are among those drawn from where it begins. -/
theorem wp_drawn {α : Type} {G : World → Effect → Prop} {Q : α → World → Prop}
    {p : Program Effect Effect.Answer α}
    (hp : p.wp handler (onDraw fun w' => A w' ∧ w.Draws w'.nextId) G Q w.begin) :
    p.wp handler (onDraw A) G Q w.begin := by
  refine Program.wp_assume (I := fun w' => w'.ids = w.ids ∧ w.minted ≤ w'.minted) ?_ ?_ p hp
    ⟨rfl, le_rfl⟩
  · rintro w' e ⟨hids, hle⟩ hA
    cases e with
    | newRunId => exact ⟨hA, w'.minted, hle, congrFun hids _⟩
    | _ => trivial
  · rintro w' e ⟨hids, hle⟩
    cases e with
    | newRunId => exact ⟨hids, Nat.le_succ_of_le hle⟩
    | _ => exact ⟨hids, hle⟩

/-- Every operation keeps to the write discipline and ends at rest. -/
theorem program_conduct (hdraws : L.Draws A) (fuel : Nat) {o : Operation} (hkeyed : w.store.Keyed)
    (ho : o.Admitted L w.store) (hcloses : ∀ r attrs, o.Closes w r attrs → L.closes r attrs) :
    (program fuel o).wp handler (onDraw A) (onWrite L.guard) (fun _ w' => w'.AtRest)
      w.begin := by
  have hkeeps : ∀ {α : Type} {x : Go α}, Keeps L A x →
      (drop x).wp handler (onDraw A) (onWrite L.guard) (fun _ w' => w'.AtRest) w.begin :=
    fun {_ x} hx => Go.wp_drop (Go.spec_mono (fun _ _ h => .inl h) x (hx _ rfl))
  cases o with
  | registerNamespace name n => exact hkeeps (keeps_registerNamespace name n)
  | start a =>
    refine Go.wp_drop (Go.spec_mono (fun _ _ h => .inl h) _ ?_)
    exact startWorkflowFull_spec hdraws rfl ho fun c hc => hcloses c _ ⟨hc, rfl⟩
  | signalWithStart a name payload =>
    refine Go.wp_drop (Go.spec_mono (fun _ _ h => .inl h) _ ?_)
    exact signalWithStartFull_spec hdraws name payload rfl ho
  | signal t name payload identity => exact hkeeps (keeps_signalWorkflow t name payload identity)
  | cancel t reason identity =>
    exact hkeeps (keeps_cancelWorkflowWithReason fun c hc => hcloses c _ ⟨hc, rfl⟩)
  | terminate t reason identity =>
    exact hkeeps (keeps_terminalTransition t _ rfl rfl fun c hc => hcloses c _ ⟨hc, rfl⟩)
  | updateMetadata t m => exact hkeeps (keeps_updateWorkflowMetadata t m)
  | reset t eventID reason identity =>
    refine Go.wp_drop (Go.spec_mono (fun _ _ h => .inl h) _ ?_)
    exact resetWorkflow_spec hdraws rfl hkeyed ho
  | respondWorkflow token cmds =>
    refine wp_drawn (Go.wp_drop (Go.spec_mono (fun _ _ h => .inl h) _ ?_))
    refine respondWorkflow_spec (fun w' h => hdraws w' h.1) (fun _ h => h.2) rfl ?_
    exact fun t ht c hc attrs h => hcloses t.ref attrs ⟨t, ht, rfl, c, hc, h⟩
  | respondActivityCompleted token result =>
    refine Go.wp_drop (respondActivity_spec rfl fun t w hw => ?_)
    exact completeWorkflowActivity_spec hw
  | respondActivityFailed token failure =>
    refine Go.wp_drop (respondActivity_spec rfl fun t w hw => ?_)
    exact completeWorkflowActivity_spec hw
  | retryTimer r seq => exact hkeeps (keeps_retryTimer r seq)
  | sweepCanceling expired =>
    exact hkeeps (keeps_sweepCanceling fun r hr => hcloses r _ ⟨hr, rfl⟩)
  | purge r cutoff => exact hkeeps (keeps_purgeWorkflowRun r cutoff)
  | subscribe ns queue => exact hkeeps fun w hw => Go.spec_subscribe.mpr hw
  | unsubscribe ns queue => exact hkeeps fun w hw => Go.spec_unsubscribe.mpr hw
  | recover => exact recover_conduct fuel w

end DurableTasks
