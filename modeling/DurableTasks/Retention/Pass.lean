import DurableTasks.Listing.Walk
import DurableTasks.Retention.Removal

/-!
One pass of the purge is one pass of a walk over a single listing: the rows of
the workflow runs, then those of the standalone activities.
-/

namespace DurableTasks.Retention

open Std Effects Engine

variable {ns : String} {after : Option RunRef} {limit left : Nat}

/-! ## The listing -/

def Phase.rank : Phase → Nat
  | .workflows => 0
  | .activities => 1

def keyCmp : Phase × RunRef → Phase × RunRef → Ordering :=
  compareLex (compareOn fun p => p.1.rank) fun p q => RunRef.cmp p.2 q.2

instance : TransCmp fun p q : Phase × RunRef => RunRef.cmp p.2 q.2 where
  eq_swap := OrientedCmp.eq_swap
  isLE_trans := TransCmp.isLE_trans

instance : TransCmp keyCmp := inferInstanceAs (TransCmp (compareLex _ _))

abbrev Entry := (Phase × RunRef) × RunRow

def workflowEntry (p : RunRef × WorkflowExecution) : Entry := ((.workflows, p.1), .ofWorkflow p)

def activityEntry (p : RunRef × StandaloneActivity) : Entry := ((.activities, p.1), .ofActivity p)

def listing (ns : String) (s : Shard) : List Entry :=
  (s.world.store.nsRows ns).map workflowEntry ++ (s.acts.rows ns).map activityEntry

section Order

variable {a b : RunRef} {ns : String} {s : Shard}

@[simp] theorem keyCmp_workflows : keyCmp (.workflows, a) (.workflows, b) = RunRef.cmp a b := by
  simp [keyCmp, compareLex, compareOn, Phase.rank]

@[simp] theorem keyCmp_activities : keyCmp (.activities, a) (.activities, b) = RunRef.cmp a b := by
  simp [keyCmp, compareLex, compareOn, Phase.rank]

@[simp] theorem keyCmp_lt : keyCmp (.workflows, a) (.activities, b) = .lt := rfl

@[simp] theorem keyCmp_gt : keyCmp (.activities, a) (.workflows, b) = .gt := rfl

theorem sorted_listing : Listing.Sorted keyCmp (listing ns s) := by
  refine List.pairwise_append.mpr ⟨?_, ?_, ?_⟩
  · rw [List.pairwise_map]
    exact (s.world.store.pairwise_nsRows ns).imp fun hlt => by simpa [workflowEntry] using hlt
  · rw [List.pairwise_map]
    exact (s.acts.pairwise_rows ns).imp fun hlt => by simpa [activityEntry] using hlt
  · intro p hp q hq
    obtain ⟨p, -, rfl⟩ := List.mem_map.mp hp
    obtain ⟨q, -, rfl⟩ := List.mem_map.mp hq
    rfl

theorem entriesAfter_none : Listing.entriesAfter keyCmp (listing ns s) none = listing ns s := by
  simp [Listing.entriesAfter]

theorem entriesAfter_workflows :
    Listing.entriesAfter keyCmp (listing ns s) (some (.workflows, a)) =
      (s.world.store.rowsAfter ns (some a)).map workflowEntry ++
        (s.acts.rows ns).map activityEntry := by
  simp [Listing.entriesAfter, listing, List.filter_map, Function.comp_def, workflowEntry,
    activityEntry, Store.rowsAfter]

theorem entriesAfter_activities :
    Listing.entriesAfter keyCmp (listing ns s) (some (.activities, a)) =
      (Listing.entriesAfter RunRef.cmp (s.acts.rows ns) (some a)).map activityEntry := by
  simp [Listing.entriesAfter, listing, List.filter_map, Function.comp_def, workflowEntry,
    activityEntry]

end Order

def removed (cutoff : Int) (s : Shard) : Phase × RunRef → Shard
  | (.workflows, r) =>
    { s with world := s.world.purged r (cutoff / Standalone.second).toNat }
  | (.activities, r) => s.purged r cutoff.toNat

def visit (cutoff : Int) (s : Shard) (p : Entry) : Shard :=
  if p.2.terminal = false ∨ cutoff < p.2.closedAt * Standalone.second then s
  else removed cutoff s p.1

abbrev pass (ns : String) (cutoff : Int) (limit : Nat) : Shard × Cursor → Shard × Cursor :=
  Listing.pass keyCmp (listing ns) (visit cutoff) limit

/-! ## The program -/

/-- The weakest precondition of a part of the purge that leaves `I` behind after
each access. -/
def Purging.spec {α : Type} (I : Tenant → Prop) (x : Purging α)
    (Q : Except String α → Tenant → Prop) (t : Tenant) : Prop :=
  specOf tenantHandler (fun _ _ => True) (fun t e => I (tenantHandler e t).2) x Q t

namespace Purging

variable {α β : Type} {I : Tenant → Prop} {t : Tenant}

theorem spec_bind {Q : Post β Tenant} (x : Purging α) (f : α → Purging β) :
    (x >>= f).spec I Q t ↔
      x.spec I (fun res t' => match res with
        | .ok a => (f a).spec I Q t'
        | .error e => Q (.error e) t') t :=
  specOf.bind_iff x f (fun _ _ => Iff.rfl) fun _ _ => Iff.rfl

theorem spec_mono {Q Q' : Post α Tenant} (hQ : ∀ a t, Q a t → Q' a t)
    (x : Purging α) (hx : x.spec I Q t) : x.spec I Q' t :=
  specOf.mono hQ x hx

theorem spec_attempt {x : Purging α} {Q : Post (Except String α) Tenant} :
    (attempt x).spec I Q t ↔ x.spec I (fun res t' => Q (.ok res) t') t :=
  specOf.lift_run_iff

theorem spec_pageActivities (ht : I t) {Q : Post (List (RunRef × StandaloneActivity)) Tenant} :
    (pageActivities ns after limit).spec I Q t ↔ Q (.ok (t.acts.page ns after limit)) t :=
  Standalone.Act.read_access ht

theorem spec_page_activities (ht : I t) {Q : Post (List RunRow) Tenant} :
    (page ns after limit .activities).spec I Q t ↔
      Q (.ok ((t.acts.page ns after limit).map .ofActivity)) t := by
  rw [page, spec_bind, spec_pageActivities ht]
  rfl

theorem spec_page_workflows (ht : I t) {Q : Post (List RunRow) Tenant} :
    (page ns after limit .workflows).spec I Q t ↔
      Q (.ok ((t.store.page ns after limit).map .ofWorkflow)) t := by
  rw [page, spec_bind]
  exact Standalone.Act.read_access ht

theorem spec_getCursor (ht : I t) {Q : Post Cursor Tenant} :
    (getCursor ns).spec I Q t ↔ Q (.ok (t.cursors ns)) t :=
  Standalone.Act.read_access ht

theorem spec_setCursor {c : Cursor} (ht : I (t.setCursor ns c)) {Q : Post Unit Tenant} :
    (Retention.setCursor ns c).spec I Q t ↔ Q (.ok ()) (t.setCursor ns c) :=
  Standalone.Act.read_access ht

theorem extends_workflow : Program.Extends TenantEffect.workflow (fun _ r => r) handler
    tenantHandler (fun t => t.shard.world) Tenant.setWorld :=
  ⟨fun _ _ => rfl, fun _ _ => rfl, fun _ _ => rfl, fun _ _ _ => rfl, fun _ => rfl⟩

theorem extends_activity : Program.Extends TenantEffect.activity (fun _ r => r) activityHandler
    tenantHandler Tenant.shard Tenant.setShard :=
  ⟨fun _ _ => rfl, fun _ _ => rfl, fun _ _ => rfl, fun _ _ _ => rfl, fun _ => rfl⟩

theorem spec_onWorkflows {x : Go α} {J : Store → Prop} {Q : Post α World}
    (hx : x.spec (fun _ => True) (fun w y => J (w.store.apply y)) Q t.shard.world)
    (ht : J t.store) (hJ : ∀ w, J w.store → I (t.setWorld w)) :
    (onWorkflows x).spec I (fun res t' => ∃ w, Q res w ∧ t' = t.setWorld w) t := by
  refine (Program.wp_embed extends_workflow x.run t).mpr ?_
  have hinv := Program.wp_invariant (B := fun _ _ => True) (I := fun w => J w.store)
    (fun w e _ => by cases e <;> trivial)
    (fun w e _ hG hw => by
      cases e with
      | write y => exact hG
      | _ => exact hw)
    x.run hx ht
  refine Program.wp_weaken (fun _ _ h => h) (fun w e h => hJ _ h) _ ?_
  refine Program.wp_mono ?_ _ hinv
  rintro res w ⟨hQ, -⟩
  exact ⟨w, hQ, rfl⟩

/-- An access of the activity functions leaves the workflow store alone. -/
theorem activityHandler_store (e : ActivityEffect) (s : Shard) :
    (activityHandler e s).2.world.store = s.world.store := by
  cases e <;> rfl

theorem spec_onActivities {x : Standalone.Act α} {J : ActivityStore → Prop}
    {Q : Post α Shard} (hx : x.specIn J Q t.shard)
    (hJ : ∀ s : Shard, J s.acts → s.world.store = t.store → I (t.setShard s)) :
    (onActivities x).spec I
      (fun res t' => ∃ s, Q res s ∧ s.world.store = t.store ∧ t' = t.setShard s) t := by
  refine (Program.wp_embed extends_activity x.run t).mpr ?_
  have hinv := Program.wp_invariant (B := fun _ _ => True)
    (I := fun s => s.world.store = t.store) (fun _ _ h => h)
    (fun s e _ _ hs => (activityHandler_store e s).trans hs) x.run hx rfl
  have hboth := Program.wp_weaken (fun _ _ h => h) (fun s e h => hJ _ h.1 h.2) _
    (Program.wp_and x.run hx hinv)
  refine Program.wp_mono ?_ _ hboth
  rintro res s ⟨-, hQ, hs⟩
  exact ⟨s, hQ, hs, rfl⟩

end Purging

/-! ## A pass -/

/-- `t` is `t₀` after some keys of runs and activities of `ns` that closed at or
before `cutoff` were deleted and the cursor of `ns` was moved. Where all runs are
stamped, the row of each of them went last. -/
structure Between (ns : String) (cutoff : Int) (t₀ t : Tenant) : Prop where
  workflows : Store.Thinned ns cutoff t₀.store t.store
  activities : ActivityStore.Thinned ns cutoff t₀.acts t.acts
  cursors : ∀ c, c ≠ ns → t.cursors c = t₀.cursors c

section Pass

variable {ns : String} {cutoff : Int} {t₀ t : Tenant}

theorem Between.setCursor (ht : Between ns cutoff t₀ t) (c : Cursor) :
    Between ns cutoff t₀ (t.setCursor ns c) := by
  refine ⟨ht.workflows, ht.activities, fun c' hc' => ?_⟩
  show Function.update t.cursors ns c c' = t₀.cursors c'
  rw [Function.update_of_ne hc', ht.cursors c' hc']

theorem Between.setShard (ht : Between ns cutoff t₀ t) {s : Shard}
    (hs : ActivityStore.Thinned ns cutoff t₀.acts s.acts) (hstore : s.world.store = t.store) :
    Between ns cutoff t₀ (t.setShard s) := by
  refine ⟨?_, hs, ht.cursors⟩
  show Store.Thinned ns cutoff t₀.store s.world.store
  rw [hstore]
  exact ht.workflows

theorem purgeRun_spec (ht : Between ns cutoff t₀ t)
    {r : RunRef} (hns : r.ns = ns) (hcutoff : 0 ≤ cutoff) (phase : Phase) :
    (purgeRun cutoff r phase).spec (Between ns cutoff t₀)
      (fun res t' => (∃ gone, res = .ok gone) ∧
        t' = t.setShard (removed cutoff t.shard (phase, r)) ∧
        Between ns cutoff t₀ t') t := by
  cases phase with
  | workflows =>
    have hle :
        (((cutoff / Standalone.second).toNat : Nat) * Standalone.second : Int) ≤ cutoff := by
      have hnonneg : 0 ≤ cutoff / Standalone.second :=
        Int.ediv_nonneg hcutoff (by simp [Standalone.second])
      rw [Int.toNat_of_nonneg hnonneg]
      exact Int.ediv_mul_le _ (by simp [Standalone.second])
    refine Purging.spec_mono ?_ _ (Purging.spec_onWorkflows
      (J := Store.Thinned ns cutoff t₀.store)
      (purgeWorkflowRun_thins ht.workflows hns hle) ht.workflows
      fun w hw => ⟨hw, ht.activities, ht.cursors⟩)
    rintro res t' ⟨w, ⟨hres, rfl, hw⟩, rfl⟩
    exact ⟨hres, rfl, hw, ht.activities, ht.cursors⟩
  | activities =>
    have hle : ((cutoff.toNat : Nat) : Int) ≤ cutoff := by rw [Int.toNat_of_nonneg hcutoff]
    refine Purging.spec_mono ?_ _ (Purging.spec_onActivities
      (J := ActivityStore.Thinned ns cutoff t₀.acts)
      (purgeActivityRun_thins ht.activities hns hle)
      fun s hs hstore => ht.setShard hs hstore)
    rintro res t' ⟨s, ⟨hres, rfl, hs⟩, hstore, rfl⟩
    exact ⟨hres, rfl, ht.setShard hs hstore⟩

theorem purgeRow_spec (ht : Between ns cutoff t₀ t)
    {row : RunRow} (hns : row.ref.ns = ns) (phase : Phase) (out : Outcome) :
    (purgeRow cutoff phase out row).spec (Between ns cutoff t₀)
      (fun res t' => (∃ out', res = .ok out' ∧ out'.first = out.first) ∧
        t' = t.setShard (visit cutoff t.shard ((phase, row.ref), row)) ∧
        Between ns cutoff t₀ t') t := by
  unfold purgeRow visit
  split_ifs with hskip
  · exact ⟨⟨out, rfl, rfl⟩, rfl, ht⟩
  · have hcutoff : 0 ≤ cutoff := by
      have hle := Int.not_lt.mp (not_or.mp hskip).2
      exact Int.le_trans (by positivity) hle
    rw [Purging.spec_bind, Purging.spec_attempt]
    refine Purging.spec_mono ?_ _ (purgeRun_spec ht hns hcutoff phase)
    rintro res t' ⟨⟨gone, rfl⟩, rfl, hbetween⟩
    exact ⟨⟨_, rfl, rfl⟩, rfl, hbetween⟩

theorem purgeRows_spec (ht : Between ns cutoff t₀ t)
    {rows : List RunRow} (hns : ∀ row ∈ rows, row.ref.ns = ns) (phase : Phase) (out : Outcome) :
    (rows.foldlM (purgeRow cutoff phase) out).spec (Between ns cutoff t₀)
      (fun res t' => (∃ out', res = .ok out' ∧ out'.first = out.first) ∧
        t' = t.setShard
          ((rows.map fun row => ((phase, row.ref), row)).foldl (visit cutoff) t.shard) ∧
        Between ns cutoff t₀ t') t := by
  induction rows generalizing t out with
  | nil => exact ⟨⟨out, rfl, rfl⟩, rfl, ht⟩
  | cons row rows ih =>
    rw [List.foldlM_cons, Purging.spec_bind]
    refine Purging.spec_mono ?_ _ (purgeRow_spec ht (hns row (by simp)) phase out)
    rintro res t₁ ⟨⟨out₁, rfl, hfirst⟩, rfl, hbetween⟩
    refine Purging.spec_mono ?_ _
      (ih hbetween (fun row' hrow' => hns row' (by simp [hrow'])) out₁)
    rintro res t₂ ⟨⟨out₂, rfl, hfirst₂⟩, rfl, hbetween₂⟩
    exact ⟨⟨out₂, rfl, hfirst₂.trans hfirst⟩, rfl, hbetween₂⟩

/-- A part of a pass that goes over `entries`, with `left` rows left to read. -/
def WalksOver (t₀ : Tenant) (ns : String) (cutoff : Int) (entries : List Entry) (left : Nat)
    (t : Tenant) (out : Outcome) (res : Except String (Cursor × Outcome)) (t' : Tenant) : Prop :=
  (∃ out', res = .ok (if entries.length < left then none else entries.getLast?.map Prod.fst, out') ∧
    out'.first = out.first) ∧
  t' = t.setShard (entries.foldl (visit cutoff) t.shard) ∧ Between ns cutoff t₀ t'

theorem cursor_full {α : Type} {l : List (RunRef × α)} {phase : Phase} {of : RunRef × α → RunRow}
    (href : ∀ p, (of p).ref = p.1) (hleft : 0 < left) (hfull : ¬l.length < left) :
    (((l.map of).getLast?.map RunRow.ref <|> after).map (Prod.mk phase)) =
      (l.map fun p => (((phase, p.1), of p) : Entry)).getLast?.map Prod.fst := by
  cases hlast : l.getLast? with
  | none =>
    rw [List.getLast?_eq_none_iff] at hlast
    rw [hlast] at hfull
    exact absurd hleft hfull
  | some p => simp [List.getLast?_map, hlast, href]

theorem cursor_append {a b : List Entry} (ha : a.length < left) :
    (if b.length < left - a.length then none else b.getLast?.map Prod.fst) =
      if (a ++ b).length < left then none else (a ++ b).getLast?.map Prod.fst := by
  have hiff : b.length < left - a.length ↔ (a ++ b).length < left := by
    rw [List.length_append]
    omega
  by_cases hb : b.length < left - a.length
  · rw [if_pos hb, if_pos (hiff.mp hb)]
  · grind

theorem walk_activities (after : Option RunRef) (ht : Between ns cutoff t₀ t) (hleft : 0 < left)
    (out : Outcome) :
    (walk cutoff ns [.activities] after left out).spec (Between ns cutoff t₀)
      (WalksOver t₀ ns cutoff ((t.acts.page ns after left).map activityEntry) left t out) t := by
  rw [walk, Purging.spec_bind, Purging.spec_page_activities ht]
  dsimp only
  rw [Purging.spec_bind]
  have hns : ∀ row ∈ (t.acts.page ns after left).map RunRow.ofActivity, row.ref.ns = ns := by
    intro row hrow
    obtain ⟨p, hp, rfl⟩ := List.mem_map.mp hrow
    exact (ActivityStore.mem_rows.mp (Listing.mem_of_mem_page hp).1).1
  refine Purging.spec_mono ?_ _ (purgeRows_spec ht hns .activities out)
  rintro res t' ⟨⟨out', rfl, hfirst⟩, rfl, hbetween⟩
  rw [List.map_map] at hbetween ⊢
  dsimp only
  simp only [List.length_map]
  split_ifs with hlen
  · exact ⟨⟨out', by simp [hlen], hfirst⟩, rfl, hbetween⟩
  · refine ⟨⟨out', ?_, hfirst⟩, rfl, hbetween⟩
    rw [cursor_full (fun _ => rfl) hleft hlen]
    simp [hlen]
    rfl

theorem acts_foldl_visit (l : List (RunRef × WorkflowExecution)) (s : Shard) :
    ((l.map workflowEntry).foldl (visit cutoff) s).acts = s.acts := by
  induction l generalizing s with
  | nil => rfl
  | cons p l ih =>
    rw [List.map_cons, List.foldl_cons, ih]
    unfold visit
    split_ifs <;> rfl

theorem walk_both (after : Option RunRef) (ht : Between ns cutoff t₀ t) (hleft : 0 < left)
    (out : Outcome) :
    (walk cutoff ns [.workflows, .activities] after left out).spec (Between ns cutoff t₀)
      (WalksOver t₀ ns cutoff
        (((t.store.rowsAfter ns after).map workflowEntry ++
          (t.acts.rows ns).map activityEntry).take left) left t out) t := by
  rw [walk, Purging.spec_bind, Purging.spec_page_workflows ht]
  dsimp only
  rw [Purging.spec_bind]
  have hns : ∀ row ∈ (t.store.page ns after left).map RunRow.ofWorkflow, row.ref.ns = ns := by
    intro row hrow
    obtain ⟨p, hp, rfl⟩ := List.mem_map.mp hrow
    exact (Store.mem_page hp).1
  refine Purging.spec_mono ?_ _ (purgeRows_spec ht hns .workflows out)
  rintro res t₁ ⟨⟨out₁, rfl, hfirst⟩, ht₁, hbetween⟩
  rw [List.map_map] at ht₁
  change t₁ = t.setShard (((t.store.page ns after left).map workflowEntry).foldl _ _) at ht₁
  have hsplit : ((t.store.rowsAfter ns after).map workflowEntry ++
      (t.acts.rows ns).map activityEntry).take left =
      (t.store.page ns after left).map workflowEntry ++
        ((t.acts.rows ns).take (left - (t.store.rowsAfter ns after).length)).map activityEntry := by
    rw [List.take_append, List.length_map, ← List.map_take, ← List.map_take]
    rfl
  dsimp only
  simp only [List.length_map]
  split_ifs with hlen
  · -- the workflow rows are exhausted
    have hall : t.store.page ns after left = t.store.rowsAfter ns after := by
      refine List.take_of_length_le ?_
      rw [Store.page, List.length_take] at hlen
      omega
    have hacts : t₁.acts = t.acts := by
      rw [ht₁]
      exact acts_foldl_visit _ _
    refine Purging.spec_mono ?_ _
      (walk_activities none hbetween (Nat.sub_pos_of_lt hlen) out₁)
    rintro res t₂ ⟨⟨out₂, rfl, hfirst₂⟩, rfl, hbetween₂⟩
    have hrest : t₁.acts.page ns none (left - (t.store.page ns after left).length) =
        (t.acts.rows ns).take (left - (t.store.rowsAfter ns after).length) := by
      rw [hacts, hall, ActivityStore.page, Listing.page]
      simp [Listing.entriesAfter]
    rw [hsplit, ← hrest]
    refine ⟨⟨out₂, ?_, hfirst₂.trans hfirst⟩, ?_, hbetween₂⟩
    · rw [← cursor_append (by rwa [List.length_map]), List.length_map (f := workflowEntry)]
    · rw [List.foldl_append, ht₁]
      rfl
  · have hnone : left - (t.store.rowsAfter ns after).length = 0 := by
      rw [Store.page, List.length_take] at hlen
      omega
    rw [hsplit, hnone, List.take_zero, List.map_nil, List.append_nil]
    refine ⟨⟨out₁, ?_, hfirst⟩, ht₁, hbetween⟩
    rw [List.length_map, if_neg hlen]
    exact congrArg (fun c => Except.ok (c, out₁)) (cursor_full (fun _ => rfl) hleft hlen)

/-- `purge` does one pass over the listing and stores where it stopped. -/
theorem purge_spec {parse : String → Option Int} {n : Namespace} {now keep : Int}
    (hkeep : retentionOf parse n = some keep) (hcutoff : cutoff = now - keep) (hlimit : 0 < limit)
    (ht : Between ns cutoff t₀ t) :
    (purge parse ns n now limit).spec (Between ns cutoff t₀)
      (fun res t' => (∃ out, res = .ok out ∧ out.first = none) ∧
        t' = (t.setShard (pass ns cutoff limit (t.shard, t.cursors ns)).1).setCursor ns
          (pass ns cutoff limit (t.shard, t.cursors ns)).2 ∧
        Between ns cutoff t₀ t') t := by
  subst hcutoff
  unfold purge
  rw [hkeep]
  dsimp only
  rw [Purging.spec_bind, Purging.spec_getCursor ht]
  dsimp only
  rw [Purging.spec_bind]
  -- the phases left at the cursor are the entries after it
  have hwalk : (walk (now - keep) ns (phasesFrom (t.cursors ns)) ((t.cursors ns).map Prod.snd)
      limit {}).spec (Between ns (now - keep) t₀)
      (WalksOver t₀ ns (now - keep)
        (Listing.page keyCmp (listing ns t.shard) (t.cursors ns) limit) limit t {}) t := by
    rw [Listing.page]
    cases hcursor : t.cursors ns with
    | none =>
      rw [entriesAfter_none]
      have hrows : t.store.rowsAfter ns none = t.store.nsRows ns := by simp [Store.rowsAfter]
      have hboth := walk_both none ht hlimit {}
      rw [hrows] at hboth
      exact hboth
    | some p =>
      obtain ⟨phase, a⟩ := p
      cases phase with
      | workflows =>
        rw [entriesAfter_workflows]
        exact walk_both (some a) ht hlimit {}
      | activities =>
        rw [entriesAfter_activities, ← List.map_take]
        exact walk_activities (some a) ht hlimit {}
  refine Purging.spec_mono ?_ _ hwalk
  rintro res t₁ ⟨⟨out, rfl, hfirst⟩, rfl, hbetween⟩
  change (if (pass ns (now - keep) limit (t.shard, t.cursors ns)).2 = t.cursors ns then pure out
    else (Retention.setCursor ns (pass ns (now - keep) limit (t.shard, t.cursors ns)).2 >>=
      fun _ => pure out : Purging Outcome)).spec _ _ _
  split_ifs with hsame
  · refine ⟨⟨out, rfl, hfirst⟩, ?_, hbetween⟩
    rw [hsame]
    exact (Tenant.setCursor_self _ ns).symm
  · have hset := hbetween.setCursor (pass ns (now - keep) limit (t.shard, t.cursors ns)).2
    rw [Purging.spec_bind, Purging.spec_setCursor hset]
    exact ⟨⟨out, rfl, hfirst⟩, rfl, hset⟩

end Pass

end DurableTasks.Retention
