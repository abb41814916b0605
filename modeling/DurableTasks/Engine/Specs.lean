import DurableTasks.Engine.CurrentRun

/-!
What the building blocks of the engine do, as equations on the world. Each one
says which writes the function makes, in which order, and the world it leaves.
-/

namespace DurableTasks

open Effects Engine

variable {r c : RunRef} {t : Target} {row : WorkflowExecution} {Q : Post Unit World} {x : Write}
  {k : Key} {s : Store}

namespace World

variable (w : World)

@[simp] theorem write_store (x : Write) : (w.write x).store = w.store.apply x := rfl
@[simp] theorem write_window (x : Write) : (w.write x).window = w.window.next x := rfl
@[simp] theorem tick_store : w.tick.store = w.store := rfl
@[simp] theorem tick_window : w.tick.window = w.window := rfl
@[simp] theorem mint_store : w.mint.store = w.store := rfl
@[simp] theorem enqueue_store (t : WorkflowTask) : (w.enqueue t).store = w.store := rfl
@[simp] theorem dispatch_store (t : ActivityTask) (n : Nat) :
    (w.dispatch t n).store = w.store := rfl
@[simp] theorem dispatch_window (t : ActivityTask) (n : Nat) :
    (w.dispatch t n).window = w.window := rfl

end World

@[simp] theorem Store.apply_put (s : Store) (k : Key) (v : k.Val) :
    s.apply (.put k v) = s.put k v := rfl

@[simp] theorem Store.apply_del (s : Store) (k : Key) : s.apply (.del k) = s.del k := rfl

@[simp] theorem Store.apply_close (s : Store) (r : RunRef) (c : Closing) :
    s.apply (.close r c) = s := rfl

@[simp] def Write.key : Write → Option Key
  | .put k _ => some k
  | .del k => some k
  | .close _ _ => none

theorem Store.get_apply_of_ne (s : Store) (hk : x.key ≠ some k) : (s.apply x).get k = s.get k := by
  cases x with
  | put k' v => exact s.get_put_of_ne v fun h => hk (congrArg some h.symm)
  | del k' => exact s.get_del_of_ne fun h => hk (congrArg some h.symm)
  | close r c => rfl

theorem Write.key_cases (x : Write) (k : Key) :
    x.key ≠ some k ∨ (∃ v, x = .put k v) ∨ x = .del k := by
  by_cases hk : x.key = some k
  · cases x with
    | put k' v =>
      obtain rfl : k' = k := by simpa using hk
      exact .inr (.inl ⟨v, rfl⟩)
    | del k' =>
      obtain rfl : k' = k := by simpa using hk
      exact .inr (.inr rfl)
    | close r c => simp at hk
  · exact .inl hk

/-- What is stored after a write was there before, or is what was written. -/
theorem Store.get_apply_some {v : k.Val} (h : (s.apply x).get k = some v) :
    s.get k = some v ∨ x = .put k v := by
  rcases x.key_cases k with hk | ⟨v', rfl⟩ | rfl
  · exact .inl ((s.get_apply_of_ne hk).symm.trans h)
  · obtain rfl : v' = v := by simpa using h
    exact .inr rfl
  · simp at h

/-- What is stored before a write is still there, unless its key is written. -/
theorem Store.get_apply_of_some {v : k.Val} (h : s.get k = some v) (x : Write) :
    (s.apply x).get k = some v ∨ (∃ v', x = .put k v') ∨ x = .del k :=
  (x.key_cases k).imp_left fun hk => (s.get_apply_of_ne hk).trans h

def Store.resolve (s : Store) (t : Target) : Option (RunRef × WorkflowExecution) :=
  match t.run with
  | some run => (s.get (.wf ⟨t.ns, t.wf, run⟩)).map (Prod.mk ⟨t.ns, t.wf, run⟩)
  | none => currentRun (s.rows t.ns t.wf)

@[simp] theorem Store.resolve_coe (s : Store) (r : RunRef) :
    s.resolve r.target = (s.get (.wf r)).map (Prod.mk r) := rfl

def Target.Names (t : Target) (c : RunRef) : Prop :=
  c.ns = t.ns ∧ c.wf = t.wf ∧ ∀ run, t.run = some run → c.run = run

theorem Target.Names.eq (h : r.target.Names c) : c = r := by
  obtain ⟨hns, hwf, hrun⟩ := h
  have hrun := hrun r.run rfl
  cases c
  cases r
  cases hns
  cases hwf
  cases hrun
  rfl

theorem Store.resolve_some (h : s.resolve t = some (c, row)) :
    s.get (.wf c) = some row ∧ t.Names c := by
  unfold resolve at h
  split at h
  · next run hrun =>
      obtain ⟨row', hrow, heq⟩ := Option.map_eq_some_iff.mp h
      obtain ⟨rfl, rfl⟩ := Prod.mk.inj heq
      refine ⟨hrow, rfl, rfl, fun run' hrun' => ?_⟩
      exact Option.some.inj (hrun.symm.trans hrun')
  · next hrun =>
      obtain ⟨hns, hwf, hrow⟩ := Store.mem_rows.mp (currentRun_mem h)
      exact ⟨hrow, hns, hwf, by simp [hrun]⟩

/-- A target that can name an open run resolves to an open run. -/
theorem Store.resolve_open {c' : RunRef} {row' : WorkflowExecution}
    (hc : s.get (.wf c) = some row) (hopen : row.isOpen = true) (hnames : t.Names c)
    (h : s.resolve t = some (c', row')) : row'.isOpen = true := by
  obtain ⟨hns, hwf, hrun⟩ := hnames
  unfold resolve at h
  split at h
  · next run hrun' =>
      have hcref : c = ⟨t.ns, t.wf, run⟩ := by
        rw [← hns, ← hwf, ← hrun run hrun']
      obtain ⟨row₁, hrow₁, heq⟩ := Option.map_eq_some_iff.mp h
      obtain ⟨-, rfl⟩ := Prod.mk.inj heq
      rw [← hcref, hc] at hrow₁
      exact Option.some.inj hrow₁ ▸ hopen
  · exact currentRun_open (p := (c, row)) (Store.mem_rows.mpr ⟨hns, hwf, hc⟩) hopen h

/-- The current run is found by status and start time. -/
theorem currentRun_map {f : RunRef × WorkflowExecution → RunRef × WorkflowExecution}
    (hf : ∀ p q, moreCurrentRun (f p) (f q) = moreCurrentRun p q)
    (rows : List (RunRef × WorkflowExecution)) :
    currentRun (rows.map f) = (currentRun rows).map f := by
  cases rows with
  | nil => rfl
  | cons first rest =>
    simp only [List.map_cons, currentRun, Option.map_some, Option.some.injEq]
    induction rest generalizing first with
    | nil => rfl
    | cons q rest ih =>
      rw [List.map_cons, List.foldl_cons, List.foldl_cons, hf, ← apply_ite f]
      exact ih _

/-- A target still resolves to its run when that gets another row with the same
status and start time. -/
theorem Store.resolve_revised {s' : Store} {row' : WorkflowExecution}
    (h : s.resolve t = some (c, row)) (hrow : s'.get (.wf c) = some row')
    (hstatus : row'.status = row.status) (hstart : row'.startTime = row.startTime)
    (hother : ∀ c', c' ≠ c → s'.get (.wf c') = s.get (.wf c')) : s'.resolve t = some (c, row') := by
  have hstored := (Store.resolve_some h).1
  unfold resolve at h ⊢
  split at h
  · obtain ⟨row₁, -, heq⟩ := Option.map_eq_some_iff.mp h
    obtain ⟨rfl, -⟩ := Prod.mk.inj heq
    rw [hrow, Option.map_some]
  · classical
    let f (p : RunRef × WorkflowExecution) := if p = (c, row) then (c, row') else p
    have hkey : ∀ p, (f p).1 = p.1 ∧ (f p).2.status = p.2.status ∧
        (f p).2.startTime = p.2.startTime := by
      intro p
      by_cases hp : p = (c, row)
      · subst hp
        simp [f, hstatus, hstart]
      · simp [f, hp]
    have hmem : ∀ p, p ∈ s'.rows t.ns t.wf ↔ p ∈ (s.rows t.ns t.wf).map f := by
      rintro ⟨c', row''⟩
      rw [Store.mem_rows, List.mem_map]
      by_cases hc : c' = c
      · subst hc
        constructor
        · rintro ⟨hns, hwf, hget⟩
          obtain rfl : row' = row'' := Option.some.inj (hrow.symm.trans hget)
          exact ⟨(c', row), Store.mem_rows.mpr ⟨hns, hwf, hstored⟩, by simp [f]⟩
        · rintro ⟨⟨c₁, row₁⟩, hp, heq⟩
          obtain rfl : c₁ = c' := (hkey _).1.symm.trans (congrArg Prod.fst heq)
          obtain ⟨hns, hwf, hget⟩ := Store.mem_rows.mp hp
          obtain rfl : row = row₁ := Option.some.inj (hstored.symm.trans hget)
          obtain rfl : row' = row'' := by simpa [f] using heq
          exact ⟨hns, hwf, hrow⟩
      · rw [hother c' hc]
        constructor
        · intro hget
          exact ⟨(c', row''), Store.mem_rows.mpr hget, by simp [f, hc]⟩
        · rintro ⟨⟨c₁, row₁⟩, hp, heq⟩
          obtain rfl : c₁ = c' := (hkey _).1.symm.trans (congrArg Prod.fst heq)
          obtain rfl : row₁ = row'' := by simpa [f, hc] using heq
          exact Store.mem_rows.mp hp
    have hrows : s'.rows t.ns t.wf = (s.rows t.ns t.wf).map f := by
      refine Listing.Sorted.eq_of_mem_iff ((s'.pairwise_nsRows t.ns).filter _) ?_ hmem
      refine List.pairwise_map.mpr (((s.pairwise_nsRows t.ns).filter _).imp fun {p q} hlt => ?_)
      rwa [(hkey p).1, (hkey q).1]
    rw [hrows, currentRun_map ?_, h, Option.map_some]
    · simp [f]
    · intro p q
      simp only [moreCurrentRun, hkey]

/-! ## Sequences of writes -/

def World.writes (w : World) : List Write → World
  | [] => w
  | x :: xs => (w.write x).writes xs

def Along (G : World → Write → Prop) (w : World) : List Write → Prop
  | [] => True
  | x :: xs => G w x ∧ Along G (w.write x) xs

@[simp] theorem World.writes_nil (w : World) : w.writes [] = w := rfl

@[simp] theorem World.writes_cons (w : World) (x : Write) (xs : List Write) :
    w.writes (x :: xs) = (w.write x).writes xs := rfl

@[simp] theorem along_nil (G : World → Write → Prop) (w : World) : Along G w [] := trivial

@[simp] theorem along_cons {G : World → Write → Prop} {w : World} {xs : List Write} :
    Along G w (x :: xs) ↔ G w x ∧ Along G (w.write x) xs := Iff.rfl

theorem along_of_forall {G : World → Write → Prop} (hG : ∀ w x, G w x) (xs : List Write) :
    ∀ w, Along G w xs := by
  induction xs with
  | nil => exact fun w => trivial
  | cons x xs ih => exact fun w => ⟨hG w x, ih _⟩

namespace Engine

def nextEvent (row : WorkflowExecution) (t : Nat) (attrs : EventAttrs) : HistoryEvent :=
  { eventId := row.historyLen + 1, eventTime := t, attrs := attrs }

def appendWrites (c : RunRef) (row : WorkflowExecution) (t : Nat) (attrs : EventAttrs) :
    List Write :=
  [.put (.wfh c (row.historyLen + 1)) (nextEvent row t attrs),
    .put (.wf c) { row with historyLen := row.historyLen + 1 }]

theorem resolve_appendWrites {w : World} (h : w.store.resolve t = some (c, row)) (time : Nat)
    (attrs : EventAttrs) :
    (w.tick.writes (appendWrites c row time attrs)).store.resolve t =
      some (c, { row with historyLen := row.historyLen + 1 }) := by
  refine Store.resolve_revised h ?_ rfl rfl fun c' hc => ?_
  · simp [appendWrites]
  · simp [appendWrites, Store.get_put_of_ne, hc]

def closeWrites (c : RunRef) (row : WorkflowExecution) (cl : Closing) : List Write :=
  [.close c cl, .put (.wf c) row, .del (.wfopen c)]

variable {A : World → Prop} {G : World → Write → Prop} {w : World}

@[simp] theorem spec_describeWorkflow {Q : Post (Option (RunRef × WorkflowExecution)) World} :
    (describeWorkflow t).spec A G Q w ↔ Q (.ok (w.store.resolve t)) w := by
  unfold describeWorkflow Store.resolve
  cases t.run <;> simp [Except.map]

theorem spec_appendHistory {attrs : EventAttrs} {Q : Post HistoryEvent World} :
    (appendHistory t attrs).spec A G Q w ↔
      match w.store.resolve t with
      | none => Q (.error (notFound t)) w
      | some (c, row) =>
        Along G w.tick (appendWrites c row w.time attrs) ∧
          Q (.ok (nextEvent row w.time attrs))
            (w.tick.writes (appendWrites c row w.time attrs)) := by
  simp only [appendHistory, Go.spec_bind, Go.spec_attempt, spec_describeWorkflow]
  cases w.store.resolve t with
  | none => simp
  | some p =>
    simp only [Go.spec_bind, Go.spec_now, Go.spec_put, Go.spec_pure, appendWrites, nextEvent,
      along_cons, along_nil, World.writes_cons, World.writes_nil, and_true, and_assoc]

theorem spec_closeRun :
    (closeRun r row).spec A G Q w ↔
      Along G w [.put (.wf r) row, .del (.wfopen r)] ∧
        Q (.ok ()) (w.writes [.put (.wf r) row, .del (.wfopen r)]) := by
  simp only [closeRun, Go.spec_bind, Go.spec_put, Go.spec_del, along_cons, along_nil,
    World.writes_cons, World.writes_nil, and_true, and_assoc]

@[simp] theorem spec_listHistory {Q : Post (List (Nat × HistoryEvent)) World} :
    (listHistory r).spec A G Q w ↔
      match decodeEvents (w.store.events r) with
      | some evs => Q (.ok evs) w
      | none => Q (.error "json: cannot unmarshal number into Go value of type float64") w := by
  simp only [listHistory, Go.spec_bind, Go.spec_listEvents]
  cases decodeEvents (w.store.events r) <;> simp

/-! ### Decoded histories -/

section Decoded

variable {l l' : List (Nat × HistoryEvent)}

/-- A history is decoded event by event. -/
theorem forall₂_decodeEvents (h : decodeEvents l = some l') :
    List.Forall₂ (fun p q => q.1 = p.1 ∧ p.2.throughAny = some q.2) l l' := by
  induction l generalizing l' with
  | nil =>
    obtain rfl : [] = l' := by simpa [decodeEvents] using h
    exact .nil
  | cons p l ih =>
    simp only [decodeEvents, Option.bind_eq_bind, Option.pure_def, Option.bind_eq_some_iff,
      Option.some.injEq] at h
    obtain ⟨ev', hev, rest, hrest, rfl⟩ := h
    exact .cons ⟨rfl, hev⟩ (ih hrest)

theorem map_fst_decodeEvents (h : decodeEvents l = some l') : l'.map Prod.fst = l.map Prod.fst := by
  replace h := forall₂_decodeEvents h
  induction h with
  | nil => rfl
  | cons hread _ ih => simp [hread.1, ih]

theorem mem_decodeEvents {q : Nat × HistoryEvent} (h : decodeEvents l = some l') (hq : q ∈ l') :
    ∃ p ∈ l, q.1 = p.1 ∧ p.2.throughAny = some q.2 := by
  replace h := forall₂_decodeEvents h
  induction h with
  | nil => cases hq
  | cons hread _ ih =>
    rcases List.mem_cons.mp hq with rfl | hq
    · exact ⟨_, List.mem_cons_self, hread⟩
    · obtain ⟨p, hp, hread⟩ := ih hq
      exact ⟨p, List.mem_cons_of_mem _ hp, hread⟩

theorem numbered_decodeEvents (h : decodeEvents l = some l') (hnum : ∀ p ∈ l, p.2.eventId = p.1) :
    ∀ p ∈ l', p.2.eventId = p.1 := by
  intro q hq
  obtain ⟨p, hp, hid, hread⟩ := mem_decodeEvents h hq
  obtain ⟨attrs, -, hq'⟩ := Option.map_eq_some_iff.mp hread
  rw [hid, ← hnum p hp, ← hq']

end Decoded

def taskOf (r : RunRef) (row : WorkflowExecution) (evs : List (Nat × HistoryEvent)) :
    WorkflowTask :=
  { ref := r, queue := row.taskQueue, workflowType := row.type, history := evs.map Prod.snd }

theorem spec_scheduleWorkflowTask :
    (scheduleWorkflowTask r).spec A G Q w ↔
      match w.store.get (.wf r) with
      | none => Q (.error (notFound r)) w
      | some row =>
        if row.status.isTerminal then Q (.ok ()) w
        else
          match decodeEvents (w.store.events r) with
          | some evs => Q (.ok ()) (w.enqueue (taskOf r row evs))
          | none =>
            Q (.error "json: cannot unmarshal number into Go value of type float64") w := by
  simp only [scheduleWorkflowTask, Go.spec_bind, spec_describeWorkflow, Store.resolve_coe]
  cases w.store.get (.wf r) with
  | none => simp
  | some row =>
    simp only [Option.map_some]
    split_ifs
    · simp
    · simp only [Go.spec_bind, spec_listHistory]
      cases decodeEvents (w.store.events r) <;> simp [taskOf]

def closedWorld (w : World) (c : RunRef) (row : WorkflowExecution) (status : WorkflowStatus)
    (attrs : EventAttrs) : World :=
  w.tick.writes (closeWrites c (closedRow row status w.time) (.event status attrs))

def terminatedWorld (w : World) (c : RunRef) (row : WorkflowExecution) (status : WorkflowStatus)
    (attrs : EventAttrs) : World :=
  let w' := closedWorld w c row status attrs
  w'.tick.writes (appendWrites c (closedRow row status w.time) w'.time attrs)

def CloseAlong (G : World → Write → Prop) (w : World) (c : RunRef) (row : WorkflowExecution)
    (status : WorkflowStatus) (attrs : EventAttrs) : Prop :=
  let w' := closedWorld w c row status attrs
  Along G w.tick (closeWrites c (closedRow row status w.time) (.event status attrs)) ∧
    Along G w'.tick (appendWrites c (closedRow row status w.time) w'.time attrs)

theorem get_closedWorld (c : RunRef) (row : WorkflowExecution) (status : WorkflowStatus)
    (attrs : EventAttrs) :
    (closedWorld w c row status attrs).store.get (.wf c) =
      some (closedRow row status w.time) := by
  simp [closedWorld, closeWrites, Store.get_del_of_ne]

theorem get_terminatedWorld (c : RunRef) (row : WorkflowExecution) (status : WorkflowStatus)
    (attrs : EventAttrs) :
    (terminatedWorld w c row status attrs).store.get (.wf c) =
      some { closedRow row status w.time with historyLen := row.historyLen + 1 } := by
  simp [terminatedWorld, appendWrites, closedRow]

@[simp] theorem spec_reportClose {status : WorkflowStatus} :
    (reportClose c row status).spec A G Q w ↔ Q (.ok ()) w := by
  cases status <;> simp [reportClose]

@[simp] theorem spec_reportOutcome {id : FailureIdentity} {status : ActivityStatus} :
    (reportOutcome id status).spec A G Q w ↔ Q (.ok ()) w := by
  unfold reportOutcome
  split_ifs <;> simp

theorem spec_terminalTransition {status : WorkflowStatus} {attrs : EventAttrs}
    {Q : Post (RunRef × WorkflowExecution) World} :
    (terminalTransition t status attrs).spec A G Q w ↔
      match w.store.resolve t with
      | none => Q (.error (notFound t)) w
      | some (c, row) =>
        if row.status.isTerminal then Q (.ok (c, row)) w
        else
          CloseAlong G w c row status attrs ∧
            Q (.ok (c, { closedRow row status w.time with historyLen := row.historyLen + 1 }))
              (terminatedWorld w c row status attrs) := by
  simp only [terminalTransition, Go.spec_bind, Go.spec_attempt, spec_describeWorkflow]
  cases w.store.resolve t with
  | none => simp
  | some p =>
    obtain ⟨c, row⟩ := p
    simp only
    split_ifs with hterm
    · simp
    · simp only [Go.spec_bind, Go.spec_now, Go.spec_write, spec_closeRun, spec_appendHistory,
        Go.spec_attempt, spec_describeWorkflow, Store.resolve_coe]
      have hclosed := get_closedWorld (w := w) c row status attrs
      have hfinal := get_terminatedWorld (w := w) c row status attrs
      simp only [closedWorld, terminatedWorld, closeWrites, World.writes_cons, World.writes_nil]
        at hclosed hfinal
      simp only [World.writes_cons, World.writes_nil, hclosed, hfinal, Option.map_some,
        Go.spec_bind, spec_reportClose, Go.spec_pure, CloseAlong, closedWorld, terminatedWorld,
        closeWrites, along_cons, along_nil, and_true, and_assoc]

end Engine

end DurableTasks
