import DurableTasks.Engine.Invariants

/-!
The open-run index and the recovery built on it: every open run is found, and
each one is driven exactly once.
-/

namespace DurableTasks

open Effects Engine

variable {r : RunRef} {w : World}

/-! ## The index -/

/-- The invariant of the index. `bare` are the namespaces that held no run when
the process began. -/
structure Store.Indexed (bare : String → Prop) (s : Store) : Prop where
  complete : ∀ ns, bare ns ∨ (s.get (.wfidx ns)).isSome → s.IndexComplete ns
  known : ∀ r, (s.get (.wf r)).isSome ∨ (s.get (.wfopen r)).isSome → (s.get (.ns r.ns)).isSome
  storable : ∀ r seq a, s.get (.wfact r seq) = some a → a.storable = true
  decodes : ∀ r id ev, s.get (.wfh r id) = some ev → ev.throughAny.isSome

section Write

variable {bare : String → Prop} {s : Store} {win : Window} {x : Write}

theorem Store.Indexed.write_complete (h : s.Indexed bare) (hx : Allowed .lenient s win x)
    {ns : String} (hns : bare ns ∨ ((s.apply x).get (.wfidx ns)).isSome) :
    (s.apply x).IndexComplete ns := by
  rintro r hr ⟨row, hrow, hopen⟩
  -- an entry of an open run is not deleted
  have hkept : bare ns ∨ (s.get (.wfidx ns)).isSome → s.IsOpen r →
      (s.apply x).get (.wfopen r) = some () := by
    rintro hns ⟨row₀, hrow₀, hopen₀⟩
    obtain hentry | ⟨⟨⟩, rfl⟩ | rfl :=
      Store.get_apply_of_some (h.complete ns hns r hr ⟨row₀, hrow₀, hopen₀⟩) x
    · exact hentry
    · exact s.get_put_self (.wfopen r) ()
    · cases hx with
      | unlist shut following => simp [shut row₀ hrow₀] at hopen₀
  rcases Store.get_apply_some hrow with hrow | rfl
  · rcases hns with hbare | hmark
    · exact hkept (.inl hbare) ⟨row, hrow, hopen⟩
    obtain ⟨t, ht⟩ := Option.isSome_iff_exists.mp hmark
    rcases Store.get_apply_some ht with ht | rfl
    · exact hkept (.inr (by simp [ht])) ⟨row, hrow, hopen⟩
    · cases hx with
      | index t all => exact (s.get_apply_of_ne (by simp)).trans (all r row hr hrow hopen)
  · rw [s.get_apply_of_ne (by simp)] at hns
    cases hx with
    | create entry running unwritten fresh named => exact (s.get_apply_of_ne (by simp)).trans entry
    | update stored type len time status =>
      refine hkept hns ⟨_, stored, ?_⟩
      rcases status with heq | ⟨hwas, -⟩
      · simpa [WorkflowExecution.isOpen, heq] using hopen
      · exact hwas
    | count stored more following => exact hkept hns ⟨_, stored, hopen⟩
    | close stored closable terminal =>
      simp [WorkflowExecution.isOpen, closedRow, terminal] at hopen

/-- A row or an entry appears only in a namespace that is registered. -/
theorem Store.Indexed.write_known (h : s.Indexed bare) (hx : Allowed .lenient s win x)
    (hr : ((s.apply x).get (.wf r)).isSome ∨ ((s.apply x).get (.wfopen r)).isSome) :
    ((s.apply x).get (.ns r.ns)).isSome := by
  have hregistered : (s.get (.ns r.ns)).isSome → ((s.apply x).get (.ns r.ns)).isSome := by
    intro hwas
    obtain ⟨n, hn⟩ := Option.isSome_iff_exists.mp hwas
    obtain hn | ⟨n', rfl⟩ | rfl := Store.get_apply_of_some hn x
    · simp [hn]
    · simp
    · cases hx
  refine hregistered ?_
  have hknown := h.known r
  rcases hr with hr | hr
  · obtain ⟨row, hrow⟩ := Option.isSome_iff_exists.mp hr
    rcases Store.get_apply_some hrow with hrow | rfl
    · exact hknown (.inl (by simp [hrow]))
    · cases hx with
      | create entry running unwritten fresh named => exact hknown (.inr (by simp [entry]))
      | update stored _ _ _ _ | count stored _ _ | close stored _ _ =>
        exact hknown (.inl (by simp [stored]))
  · obtain ⟨⟨⟩, hentry⟩ := Option.isSome_iff_exists.mp hr
    rcases Store.get_apply_some hentry with hentry | rfl
    · exact hknown (.inr (by simp [hentry]))
    · cases hx with
      | enlist known =>
        rcases known with ⟨n, hn⟩ | ⟨r', row, hns, hrow⟩
        · simp [hn]
        · rw [← hns]
          exact h.known r' (.inl (by simp [hrow]))

theorem Store.Indexed.write_storable (h : s.Indexed bare) (hx : Allowed .lenient s win x)
    {seq : Int} {a : WorkflowActivity} (ha : (s.apply x).get (.wfact r seq) = some a) :
    a.storable = true := by
  rcases Store.get_apply_some ha with ha | rfl
  · exact h.storable r seq a ha
  · cases hx with
    | record storable pending running patient => exact storable

def Write.Decodes : Write → Prop
  | .put (.wfh _ _) ev => ev.throughAny.isSome
  | _ => True

theorem Store.Indexed.write_decodes (h : s.Indexed bare) (hx : x.Decodes) {id : Nat}
    {ev : HistoryEvent} (hev : (s.apply x).get (.wfh r id) = some ev) : ev.throughAny.isSome := by
  rcases Store.get_apply_some hev with hev | rfl
  · exact h.decodes r id ev hev
  · exact hx

theorem Store.Indexed.write (h : s.Indexed bare) (hx : Allowed .lenient s win x)
    (hdec : x.Decodes) :
    (s.apply x).Indexed bare :=
  ⟨fun _ hns => h.write_complete hx hns, fun _ hr => h.write_known hx hr,
    fun _ _ _ ha => h.write_storable hx ha, fun _ _ _ hev => h.write_decodes hdec hev⟩

end Write

/-! ## Recovery -/

/-- A shard a process may begin on: an empty one, or one written before there
was an index. -/
structure World.PreIndex (w : World) : Prop where
  settled : w.window = .settled
  noMark : ∀ ns, w.store.get (.wfidx ns) = none
  noEntry : ∀ r, w.store.get (.wfopen r) = none
  keyed : w.store.Keyed
  registered : ∀ r row, w.store.get (.wf r) = some row → (w.store.get (.ns r.ns)).isSome
  storable : ∀ r seq a, w.store.get (.wfact r seq) = some a → a.storable = true
  decodes : ∀ r id ev, w.store.get (.wfh r id) = some ev → ev.throughAny.isSome

theorem World.Fresh.preIndex (h : w.Fresh) : w.PreIndex where
  settled := h.window
  noMark ns := by rw [h.store, Store.get_empty]
  noEntry r := by rw [h.store, Store.get_empty]
  keyed := h.keyed
  registered r row hrow := by simp [h.store] at hrow
  storable r seq a ha := by simp [h.store] at ha
  decodes r id ev hev := by simp [h.store] at hev

/-- The runs in which every event written reads back. A crash may fall
anywhere. -/
def readablePolicy : Policy Effect World Operation where
  op w o := o.Admitted .lenient w.store
  effect w e := (Licence.lenient.policy fun _ => True).effect w e ∧
    onWrite (fun _ x => x.Decodes) w e

theorem readable_conforms : Conforms .lenient readablePolicy :=
  ⟨fun _ _ h => h, fun _ _ _ _ _ _ => trivial, fun _ h => h.1⟩

def Store.Bare (s : Store) (ns : String) : Prop := ∀ r, r.ns = ns → s.get (.wf r) = none

theorem indexed_inductive (bare : String → Prop) :
    Inductive .lenient readablePolicy fun w => w.store.Indexed bare where
  frame w w' hsame h := by rwa [hsame.1]
  write w x h hx he := h.write hx he.2
  begin w h _ := h
  crash w h _ := h

theorem World.PreIndex.indexed (h : w.PreIndex) : w.store.Indexed w.store.Bare where
  complete ns hns r hr hopen := by
    rcases hns with hbare | hmark
    · obtain ⟨row, hrow, -⟩ := hopen
      simp [hbare r hr] at hrow
    · simp [h.noMark] at hmark
  known r hr := by
    rcases hr with hrow | hentry
    · obtain ⟨row, hrow⟩ := Option.isSome_iff_exists.mp hrow
      exact h.registered r row hrow
    · simp [h.noEntry] at hentry
  storable := h.storable
  decodes := h.decodes

theorem decodeEvents_isSome {l : List (Nat × HistoryEvent)}
    (h : ∀ p ∈ l, (HistoryEvent.throughAny p.2).isSome) : (decodeEvents l).isSome := by
  induction l with
  | nil => rfl
  | cons p l ih =>
    obtain ⟨ev, hev⟩ := Option.isSome_iff_exists.mp (h p (by simp))
    obtain ⟨rest, hrest⟩ := Option.isSome_iff_exists.mp (ih fun q hq => h q (by simp [hq]))
    simp [decodeEvents, hev, hrest]

/-- What is true once recovery has run on a store `s`, from a process that holds nothing
yet. -/
structure Store.RecoveredBy (s : Store) (w : World) : Prop where
  task : ∀ r, s.IsOpen r → w.tasks r = 1
  noTask : ∀ r, ¬s.IsOpen r → w.tasks r = 0
  dispatch : ∀ r seq a, s.IsOpen r → s.get (.wfact r seq) = some a → a.isTerminal = false →
    w.attempts r seq = 1
  noDispatch : ∀ r seq, (s.IsOpen r → ∀ a, s.get (.wfact r seq) = some a → a.isTerminal = true) →
    w.attempts r seq = 0
  entry : ∀ r, w.store.get (.wfopen r) = some () ↔ s.IsOpen r
  row : ∀ r, w.store.get (.wf r) = s.get (.wf r)
  event : ∀ r id, w.store.get (.wfh r id) = s.get (.wfh r id)

/-- With every namespace recoverable and registered, driving every run is
recovering exactly. -/
theorem recoveredBy_of_driven {w' : World} (htasks : ∀ r, w.tasks r = 0)
    (hattempts : ∀ r seq, w.attempts r seq = 0) (hdriven : ∀ r, Driven w w' r) :
    w.store.RecoveredBy w' where
  task r hopen := by rw [(hdriven r).task hopen, htasks]
  noTask r hclosed := by rw [(hdriven r).noTask hclosed, htasks]
  dispatch r seq a hopen ha hterm := by
    rw [((hdriven r).handed hopen seq a ha hterm).2, hattempts]
  noDispatch r seq hall := by rw [((hdriven r).kept seq hall).2, hattempts]
  entry r := (hdriven r).entry
  row r := (hdriven r).row
  event r id := by simp only [Store.get, (hdriven r).hist]

/-- `Recover` on an indexed store returns without an error, having driven every
run, given enough fuel for the index walk. -/
theorem recover_driven {bare : String → Prop} {fuel : Nat} (h : w.store.Indexed bare)
    (hfuel : ∀ ns, (w.store.nsRows ns).length < fuel * indexPage) :
    ∃ w', (recover fuel).run.run handler w.crash.begin = (.ok (), w') ∧
      ∀ r, Driven w.crash.begin w' r := by
  have hrec : ∀ ns ∈ w.store.names, w.store.Recoverable fuel ns := by
    intro ns _
    refine ⟨fun hmark => h.complete ns (.inr hmark), hfuel ns, fun r _ => ⟨?_, h.storable r⟩⟩
    exact decodeEvents_isSome fun p hp => h.decodes r p.1 p.2 (Store.mem_events.mp hp)
  obtain ⟨-, hpost⟩ := Go.run_of_spec
    (recover_spec (L := .lenient) (A := fun _ => True) (w := w.crash.begin) rfl)
  obtain ⟨hok, hvisits⟩ := hpost hrec
  refine ⟨_, Prod.ext hok rfl, fun r => ?_⟩
  by_cases hns : r.ns ∈ w.store.names
  · exact hvisits.driven r ⟨_, hns, rfl⟩
  · -- a namespace that is not registered holds neither a row nor an entry
    have hbare : ¬((w.store.get (.wf r)).isSome ∨ (w.store.get (.wfopen r)).isSome) :=
      fun hr => hns (Store.mem_names.mpr (h.known r hr))
    have hclosed : ¬w.crash.begin.store.IsOpen r := by
      rintro ⟨row, hrow, -⟩
      exact hbare (.inl (Option.isSome_iff_exists.mpr ⟨row, hrow⟩))
    have hentry : w.crash.begin.store.get (.wfopen r) ≠ some () :=
      fun hentry => hbare (.inr (Option.isSome_iff_exists.mpr ⟨(), hentry⟩))
    refine (driven_closed hclosed hentry).untouched (hvisits.others r ?_)
    rintro ⟨ns, hmem, rfl⟩
    exact hns hmem

/-- `Recover` on an indexed store recovers it exactly. -/
theorem recover_exact {bare : String → Prop} {fuel : Nat} (h : w.store.Indexed bare)
    (hfuel : ∀ ns, (w.store.nsRows ns).length < fuel * indexPage) :
    ∃ w', (recover fuel).run.run handler w.crash.begin = (.ok (), w') ∧ w.store.RecoveredBy w' := by
  obtain ⟨w', hrun, hdriven⟩ := recover_driven h hfuel
  exact ⟨w', hrun, recoveredBy_of_driven (w := w.crash.begin) (fun _ => rfl) (fun _ _ => rfl)
    hdriven⟩

/-- In every run in which every event written reads back, on a shard that began
empty or before there was an index, with crashes anywhere, the walk that builds
the index included: in every state every open run of a namespace that began
without runs, or is marked as indexed, has its entry; and if the process crashes
there, `Recover` returns without an error and recovers exactly. -/
theorem open_index_complete_recovery_exact {fuel : Nat} {w : World} (hw : w.PreIndex)
    {c : Config Effect Effect.Answer World} (hr : (system fuel).Reachable readablePolicy w c) :
    (∀ ns, w.store.Bare ns ∨ (c.world.store.get (.wfidx ns)).isSome →
        c.world.store.IndexComplete ns) ∧
      ∀ fuel', (∀ ns, (c.world.store.nsRows ns).length < fuel' * indexPage) →
        ∃ w', (recover fuel').run.run handler c.world.crash.begin = (.ok (), w') ∧
          c.world.store.RecoveredBy w' := by
  have hindexed := (indexed_inductive w.store.Bare).reachable readable_conforms hw.keyed
    hw.indexed (.inl hw.settled) hr
  exact ⟨hindexed.complete, fun fuel' hfuel => recover_exact hindexed hfuel⟩

def readsBack : Effect → Bool
  | .newRunId => false
  | .write (.put (.wfh _ _) ev) => ev.throughAny.isSome
  | _ => true

theorem readablePolicy_readsBack (w : World) (e : Effect) (he : readsBack e = true) :
    readablePolicy.effect w e := by
  cases e with
  | newRunId => cases he
  | write x =>
    refine ⟨trivial, ?_⟩
    cases x with
    | put k v =>
      cases k with
      | wfh r id => exact he
      | _ => trivial
    | _ => trivial
  | _ => exact ⟨trivial, trivial⟩

theorem Store.length_nsRows_le (s : Store) (ns : String) :
    (s.nsRows ns).length ≤ s.runs.toList.length :=
  List.length_filterMap_le _ _

def startOf (wf : String) : Operation :=
  .start { ns := "n", workflowId := wf, runId := some "r", type := "T" }

def twoRuns : List (System.Turn Operation) :=
  [.whole (startOf "a"), .whole (startOf "b"),
    .whole (.respondWorkflow 0 [.scheduleActivity 0 "A" (.ofJson "null" .null) "" 0 0 none])]

theorem open_index_complete_recovery_exact_twoRuns :
    ((system 1).turns twoRuns emptyShard).store.IndexComplete "n" ∧
      ∃ w', (recover 1).run.run handler ((system 1).turns twoRuns emptyShard).crash.begin =
          (.ok (), w') ∧ ((system 1).turns twoRuns emptyShard).store.RecoveredBy w' := by
  have hr := (system 1).reachable_turns _ readablePolicy_readsBack twoRuns emptyShard
    ⟨⟨fun _ _ _ _ => trivial, by decide +kernel⟩, ⟨fun _ _ _ _ => trivial, by decide +kernel⟩,
      ⟨trivial, by decide +kernel⟩, trivial⟩
  obtain ⟨hcomplete, hexact⟩ := open_index_complete_recovery_exact emptyShard_fresh.preIndex hr
  refine ⟨hcomplete "n" (.inl fun r _ => Store.get_empty _), hexact 1 fun ns => ?_⟩
  have hlen : ((system 1).turns twoRuns emptyShard).store.runs.toList.length < 1 * indexPage := by
    decide +kernel
  exact lt_of_le_of_lt (Store.length_nsRows_le _ ns) hlen

/-- One history that does not read back stops recovery: an activity of the
first run answered with a number beyond `float64`, then a crash. Both runs are
open, and neither has a workflow task. -/
theorem unreadable_history_stops_recovery :
    let w := (system 1).turns
      (twoRuns ++ [.cut (.respondActivityCompleted 2 (.ofJson "1e400" (.num (10 ^ 400)))) 100])
      emptyShard
    (w.store.get (.wf ⟨"n", "a", "r"⟩)).map (fun row => row.isOpen) = some true ∧
      (w.store.get (.wf ⟨"n", "b", "r"⟩)).map (fun row => row.isOpen) = some true ∧
      w.tasks ⟨"n", "a", "r"⟩ = 0 ∧ w.tasks ⟨"n", "b", "r"⟩ = 0 := by
  decide +kernel

end DurableTasks
