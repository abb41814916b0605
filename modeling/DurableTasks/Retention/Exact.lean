import DurableTasks.Engine.Footprint
import DurableTasks.Retention.Pass

/-!
The purge is exact. However its passes are cut short, a walk from the start of
the listing removes what belongs to the runs and activities that have expired,
and nothing else.
-/

namespace DurableTasks.Retention

open Std Effects Engine Listing

/-! ## What a pass reads -/

def rowsAnswered : (e : TenantEffect) → e.Answer → Nat
  | .workflow (.list (.rows _ _)), .ok l => l.length
  | .workflow (.list (.page _ _ _)), .ok l => l.length
  | .activity (.rows _), .ok l => l.length
  | .pageActivities _ _ _, .ok l => l.length
  | _, _ => 0

def Purging.rowsRead {α : Type} (x : Purging α) (t : Tenant) : Nat :=
  x.run.tally tenantHandler rowsAnswered t

namespace Purging

variable {α β : Type} {t : Tenant}

theorem rowsRead_bind (x : Purging α) (f : α → Purging β) :
    (x >>= f).rowsRead t = x.rowsRead t +
      match (x.run.run tenantHandler t).1 with
      | .ok a => (f a).rowsRead (x.run.run tenantHandler t).2
      | .error _ => 0 := by
  rw [rowsRead, ExceptT.run_bind, Program.tally_bind]
  refine congrArg (x.rowsRead t + ·) ?_
  cases (x.run.run tenantHandler t).1 <;> rfl

theorem rowsRead_bind_le {x : Purging α} {f : α → Purging β} {m n : Nat} (hx : x.rowsRead t ≤ m)
    (hf : ∀ a t, (f a).rowsRead t ≤ n) : (x >>= f).rowsRead t ≤ m + n := by
  rw [rowsRead_bind]
  refine Nat.add_le_add hx ?_
  cases (x.run.run tenantHandler t).1 with
  | ok a => exact hf a _
  | error e => exact Nat.zero_le n

theorem rowsRead_attempt (x : Purging α) : (attempt x).rowsRead t = x.rowsRead t := by
  rw [rowsRead, attempt, ExceptT.run_lift, map_eq_pure_bind, Program.tally_bind]
  rfl

theorem rowsRead_purgeRun (cutoff : Int) (r : RunRef) (phase : Phase) :
    (purgeRun cutoff r phase).rowsRead t = 0 := by
  cases phase with
  | workflows =>
    have hgiven : OnlyOf (fun e => ∀ a, rowsAnswered (.workflow e) a = 0) Any
        (purgeWorkflowRun r (cutoff / Standalone.second).toNat) := by
      refine givenOf_purgeWorkflowRun (fun _ => rfl) (fun _ => rfl) (fun _ => rfl) ?_
        fun _ _ => rfl
      intro q hrows hpage a
      cases q with
      | rows ns wf => exact absurd rfl (hrows ns wf)
      | page ns after n => exact absurd rfl (hpage ns after n)
      | _ => rfl
    exact Program.tally_embed hgiven t
  | activities =>
    have hgiven : OnlyOf (fun e => ∀ a, rowsAnswered (.activity e) a = 0) Any
        (Standalone.purgeActivityRun r cutoff.toNat) := by
      refine .bind (Q := Any) ⟨fun _ => rfl, fun _ _ _ _ => trivial⟩ fun found _ => ?_
      rcases found with _ | a
      · exact .pure trivial
      · dsimp only
        split_ifs
        · exact .pure trivial
        refine .bind (Q := Any) ⟨fun _ => rfl, fun _ _ _ _ => trivial⟩ fun evs _ =>
          .bind (Q := Any) ⟨fun _ => rfl, fun _ _ _ _ => trivial⟩ fun reqs _ =>
          .bind (.forM fun k _ => ⟨fun _ => rfl, fun _ _ _ _ => trivial⟩) fun _ _ => .pure trivial
    exact Program.tally_embed hgiven t

theorem rowsRead_purgeRow (cutoff : Int) (phase : Phase) (out : Outcome) (row : RunRow) :
    (purgeRow cutoff phase out row).rowsRead t = 0 := by
  unfold purgeRow
  split_ifs
  · rfl
  · refine Nat.le_zero.mp (rowsRead_bind_le (m := 0) (n := 0) ?_ fun res t => ?_)
    · rw [rowsRead_attempt, rowsRead_purgeRun]
    · cases res <;> exact Nat.le_refl 0

theorem rowsRead_purgeRows (cutoff : Int) (phase : Phase) (rows : List RunRow) (out : Outcome) :
    (rows.foldlM (purgeRow cutoff phase) out).rowsRead t = 0 := by
  induction rows generalizing out t with
  | nil => rfl
  | cons row rows ih =>
    rw [List.foldlM_cons]
    exact Nat.le_zero.mp (rowsRead_bind_le (m := 0) (n := 0)
      (Nat.le_of_eq (rowsRead_purgeRow cutoff phase out row)) fun out t => Nat.le_of_eq (ih out))

theorem rowsRead_page (ns : String) (after : Option RunRef) (limit : Nat) (phase : Phase)
    (f : List RunRow → Purging β) :
    ∃ rows, rows.length ≤ limit ∧
      (page ns after limit phase >>= f).rowsRead t = rows.length + (f rows).rowsRead t := by
  cases phase with
  | workflows =>
    refine ⟨(t.store.page ns after limit).map .ofWorkflow, ?_, ?_⟩
    · rw [List.length_map]
      exact List.length_take_le limit _
    · rw [List.length_map]
      rfl
  | activities =>
    refine ⟨(t.acts.page ns after limit).map .ofActivity, ?_, ?_⟩
    · rw [List.length_map]
      exact List.length_take_le limit _
    · rw [List.length_map]
      rfl

theorem rowsRead_walk (cutoff : Int) (ns : String) (phases : List Phase) (after : Option RunRef)
    (left : Nat) (out : Outcome) : (walk cutoff ns phases after left out).rowsRead t ≤ left := by
  induction phases generalizing after left out t with
  | nil => exact Nat.zero_le left
  | cons phase later ih =>
    rw [walk]
    obtain ⟨rows, hlen, hread⟩ := rowsRead_page (t := t) ns after left phase fun rows => do
      let out ← rows.foldlM (purgeRow cutoff phase) out
      if rows.length < left then walk cutoff ns later none (left - rows.length) out
      else return ((rows.getLast?.map RunRow.ref <|> after).map (Prod.mk phase), out)
    rw [hread]
    have hrest := rowsRead_bind_le (n := left - rows.length)
      (Nat.le_of_eq (rowsRead_purgeRows (t := t) cutoff phase rows out))
      (f := fun out =>
        if rows.length < left then walk cutoff ns later none (left - rows.length) out
        else return ((rows.getLast?.map RunRow.ref <|> after).map (Prod.mk phase), out)) ?_
    · omega
    · intro out t
      split_ifs
      · exact ih none _ out
      · exact Nat.zero_le _

/-- A pass reads at most `limit` rows. -/
theorem rowsRead_purge (parse : String → Option Int) (ns : String) (n : Namespace) (now : Int)
    (limit : Nat) : (purge parse ns n now limit).rowsRead t ≤ limit := by
  unfold purge
  cases retentionOf parse n with
  | none => exact Nat.zero_le limit
  | some keep =>
    refine Nat.le_trans (rowsRead_bind_le (m := 0) (n := limit) (Nat.le_refl 0) fun start t => ?_)
      (Nat.le_of_eq (Nat.zero_add limit))
    refine rowsRead_bind_le (n := 0) (rowsRead_walk (now - keep) ns _ _ limit {}) ?_
    rintro ⟨cursor, out⟩ t
    dsimp only
    split_ifs <;> exact Nat.le_refl 0

end Purging

/-! ## What a visit leaves -/

def rowAt (s : Shard) : Phase × RunRef → Option RunRow
  | (.workflows, r) => (s.world.store.get (.wf r)).map fun row => .ofWorkflow (r, row)
  | (.activities, r) => (s.acts.get (.act r)).map fun a => .ofActivity (r, a)

def Stale (ns : String) (cutoff : Int) (s : Shard) (c : Phase × RunRef) : Prop :=
  c.2.ns = ns ∧ ∃ row, rowAt s c = some row ∧ row.terminal = true ∧
    (row.closedAt * Standalone.second : Int) ≤ cutoff

section Visits

variable {ns : String} {cutoff : Int} {s : Shard} {c p : Phase × RunRef} {row : RunRow}

theorem mem_listing : (c, row) ∈ listing ns s ↔ c.2.ns = ns ∧ rowAt s c = some row := by
  obtain ⟨phase, r⟩ := c
  simp only [listing, List.mem_append, List.mem_map, Prod.exists, workflowEntry, activityEntry,
    Prod.mk.injEq, Store.mem_nsRows, ActivityStore.mem_rows]
  cases phase <;> simp [rowAt, and_assoc]

theorem rowAt_removed_of_ne (h : c ≠ p) : rowAt (removed cutoff s p) c = rowAt s c := by
  obtain ⟨phase, r⟩ := p
  obtain ⟨phase', r'⟩ := c
  cases phase with
  | workflows =>
    cases phase' with
    | workflows =>
      have hne : r' ≠ r := fun heq => h (by rw [heq])
      simp only [rowAt, removed, World.row_purged_of_ne hne]
    | activities => rfl
  | activities =>
    cases phase' with
    | workflows => simp only [rowAt, removed, Shard.world_purged]
    | activities =>
      have hne : r' ≠ r := fun heq => h (by rw [heq])
      simp only [rowAt, removed, Shard.row_purged_of_ne hne]

theorem rowAt_removed_self (hcutoff : 0 ≤ cutoff) (hrow : rowAt s p = some row) :
    rowAt (removed cutoff s p) p =
      if row.terminal = false ∨ cutoff < row.closedAt * Standalone.second then some row
      else none := by
  obtain ⟨phase, r⟩ := p
  cases phase with
  | workflows =>
    obtain ⟨wf, hwf, rfl⟩ := Option.map_eq_some_iff.mp hrow
    have hiff : (wf.isOpen ∨ (cutoff / Standalone.second).toNat < closedAt wf) ↔
        (wf.status.isTerminal = false ∨ cutoff < closedAt wf * Standalone.second) := by
      refine or_congr (by simp [WorkflowExecution.isOpen]) ?_
      simp only [Standalone.second]
      omega
    simp only [rowAt, removed, World.row_purged_self hwf, RunRow.ofWorkflow]
    rw [apply_ite (Option.map _), ite_congr (propext hiff) (fun _ => rfl) fun _ => rfl]
    rfl
  | activities =>
    obtain ⟨a, ha, rfl⟩ := Option.map_eq_some_iff.mp hrow
    have hiff :
        (!a.status.isTerminal ∨ cutoff.toNat < Standalone.closedAt a * Standalone.second) ↔
        (a.status.isTerminal = false ∨ cutoff < Standalone.closedAt a * Standalone.second) := by
      refine or_congr (by simp) ?_
      simp only [Standalone.second]
      omega
    simp only [rowAt, removed, Shard.row_purged_self ha, RunRow.ofActivity]
    rw [apply_ite (Option.map _), ite_congr (propext hiff) (fun _ => rfl) fun _ => rfl]
    rfl

theorem rowAt_visit_of_ne {e : Entry} (h : c ≠ e.1) : rowAt (visit cutoff s e) c = rowAt s c := by
  unfold visit
  split_ifs
  · rfl
  · exact rowAt_removed_of_ne h

theorem rowAt_visit_self (hrow : rowAt s c = some row) :
    rowAt (visit cutoff s (c, row)) c =
      if row.terminal = false ∨ cutoff < row.closedAt * Standalone.second then some row
      else none := by
  unfold visit
  dsimp only
  split_ifs with hskip
  · exact hrow
  · have hcutoff : 0 ≤ cutoff :=
      Int.le_trans (by positivity) (Int.not_lt.mp (not_or.mp hskip).2)
    rw [rowAt_removed_self hcutoff hrow, if_neg hskip]

theorem thins_visit : Thins keyCmp (listing ns) (visit cutoff) where
  sorted := fun _ => sorted_listing
  other := by
    rintro s p ⟨c, row⟩ - hne
    rw [mem_listing, mem_listing, rowAt_visit_of_ne hne]

theorem settles_visit :
    Settles (listing ns) (visit cutoff) fun s c => ¬Stale ns cutoff s c where
  settle := by
    rintro s ⟨c, row⟩ hmem ⟨-, row', hrow', hterm, hle⟩
    rw [rowAt_visit_self (mem_listing.mp hmem).2] at hrow'
    split_ifs at hrow' with hskip
    obtain rfl := Option.some.inj hrow'
    rcases hskip with hskip | hskip
    · rw [hskip] at hterm
      cases hterm
    · exact absurd hle (Int.not_le.mpr hskip)
  keep := by
    rintro s ⟨p, row⟩ c hmem hc ⟨hns, row', hrow', hstale⟩
    refine hc ⟨hns, row', ?_, hstale⟩
    by_cases hcp : c = p
    · subst hcp
      rw [rowAt_visit_self (mem_listing.mp hmem).2] at hrow'
      split_ifs at hrow'
      rw [← hrow']
      exact (mem_listing.mp hmem).2
    · rwa [rowAt_visit_of_ne hcp] at hrow'
  unlisted := by
    rintro s c hun ⟨hns, row, hrow, -⟩
    exact hun row (mem_listing.mpr ⟨hns, hrow⟩)

end Visits

/-! ## Runs of the purge -/

structure Plan where
  parse : String → Option Int
  ns : String
  row : Namespace
  now : Int
  limit : Nat

namespace Plan

def purge (p : Plan) : Purging Outcome := Retention.purge p.parse p.ns p.row p.now p.limit

def pass (p : Plan) (t : Tenant) : Tenant := (p.purge.run.run tenantHandler t).2

inductive Reaches (p : Plan) (t : Tenant) : Tenant → Prop
  | start : p.Reaches t t
  | pass {u : Tenant} (h : p.Reaches t u) : p.Reaches t (p.pass u)
  | cut {u : Tenant} (h : p.Reaches t u) (k : Nat) :
      p.Reaches t (p.purge.run.after tenantHandler k u)

end Plan

/-- Every run has an id, and a manual trigger names a run that carries the stamp
of its schedule. -/
structure WellKept (t : Tenant) : Prop where
  stamped : t.store.Stamped
  runs : ∀ r row, t.store.get (.wf r) = some row → r.run ≠ ""
  activities : ∀ r a, t.acts.get (.act r) = some a → r.run ≠ ""

structure Plan.Exact (p : Plan) (cutoff : Int) (t u : Tenant) : Prop where
  rows : p.purge.rowsRead u ≤ p.limit
  ends : ∃ k, 0 < k ∧ (p.pass^[k] u).cursors p.ns = none
  /-- A walk from the start removes all that had expired, and nothing else. -/
  walked : u.cursors p.ns = none → ∀ k, 0 < k → (p.pass^[k] u).cursors p.ns = none →
    Wholly runKeyed t.store.owners (t.store.Expired p.ns cutoff) t.store (p.pass^[k] u).store ∧
    Wholly activityKeyed t.acts.owners (t.acts.Expired p.ns cutoff) t.acts (p.pass^[k] u).acts
  /-- Nothing else is touched before. -/
  between : Between p.ns cutoff t u
  /-- A row outlasts all that belongs to it. -/
  runRow : ∀ r, t.store.Expired p.ns cutoff r → u.store.get (.wf r) = none →
    ∀ k, t.store.Owns r k → u.store.get k = none
  activityRow : ∀ r, t.acts.Expired p.ns cutoff r → u.acts.get (.act r) = none →
    ∀ k, t.acts.Owns r k → u.acts.get k = none
  openRun : ∀ r row, t.store.get (.wf r) = some row → row.isOpen = true →
    ∀ k, t.store.Owns r k → u.store.get k = t.store.get k
  openActivity : ∀ r a, t.acts.get (.act r) = some a → a.status.isTerminal = false →
    ∀ k, t.acts.Owns r k → u.acts.get k = t.acts.get k

section Runs

variable {p : Plan} {keep cutoff : Int} {t u : Tenant} {ns : String}

theorem Between.refl : Between ns cutoff t t :=
  ⟨Store.Thinned.refl, ActivityStore.Thinned.refl, fun _ _ => rfl⟩

/-- Once no row is stale, the removal is complete. -/
theorem Between.wholly (h : Between ns cutoff t u) (hstamped : t.store.Stamped)
    (hstale : ∀ c, ¬Stale ns cutoff u.shard c) :
    Wholly runKeyed t.store.owners (t.store.Expired ns cutoff) t.store u.store ∧
      Wholly activityKeyed t.acts.owners (t.acts.Expired ns cutoff) t.acts u.acts := by
  constructor
  · refine h.workflows.wholly hstamped fun r hr =>
      Option.eq_none_iff_forall_ne_some.mpr fun row hrow => ?_
    obtain ⟨hns, row', hrow', hshut, hclosed⟩ := hr
    obtain rfl := Option.some.inj (hrow'.symm.trans (h.workflows.get hrow))
    refine hstale (.workflows, r) ⟨hns, .ofWorkflow (r, row'), ?_, ?_, hclosed⟩
    · exact congrArg (Option.map fun row => RunRow.ofWorkflow (r, row)) hrow
    · simpa [RunRow.ofWorkflow, WorkflowExecution.isOpen] using hshut
  · refine h.activities.wholly trivial fun r hr =>
      Option.eq_none_iff_forall_ne_some.mpr fun a ha => ?_
    obtain ⟨hns, a', ha', hterm, hclosed⟩ := hr
    obtain rfl := Option.some.inj (ha'.symm.trans (h.activities.get ha))
    refine hstale (.activities, r) ⟨hns, .ofActivity (r, a'), ?_, hterm, hclosed⟩
    exact congrArg (Option.map fun a => RunRow.ofActivity (r, a)) ha

theorem Between.openRun (h : Between ns cutoff t u) {r : RunRef} {row : WorkflowExecution}
    (hrow : t.store.get (.wf r) = some row) (hopen : row.isOpen = true) {k : Key}
    (hk : t.store.Owns r k) : u.store.get k = t.store.get k := by
  refine h.workflows.untouched (r := r) ?_ hk
  rintro ⟨-, row', hrow', hshut, -⟩
  obtain rfl := Option.some.inj (hrow.symm.trans hrow')
  rw [hopen] at hshut
  cases hshut

theorem Between.openActivity (h : Between ns cutoff t u) {r : RunRef} {a : StandaloneActivity}
    (ha : t.acts.get (.act r) = some a) (hopen : a.status.isTerminal = false) {k : ActivityKey}
    (hk : t.acts.Owns r k) : u.acts.get k = t.acts.get k := by
  refine h.activities.untouched (r := r) ?_ hk
  rintro ⟨-, a', ha', hterm, -⟩
  obtain rfl := Option.some.inj (ha.symm.trans ha')
  rw [hopen] at hterm
  cases hterm

/-- A pass of the program is a pass over the listing. -/
theorem pass_eq (hkeep : retentionOf p.parse p.row = some keep) (hlimit : 0 < p.limit)
    (hu : Between p.ns (p.now - keep) t u) :
    p.pass u = (u.setShard (pass p.ns (p.now - keep) p.limit (u.shard, u.cursors p.ns)).1).setCursor
        p.ns (pass p.ns (p.now - keep) p.limit (u.shard, u.cursors p.ns)).2 ∧
      Between p.ns (p.now - keep) t (p.pass u) := by
  have hspec := purge_spec hkeep rfl hlimit hu
  have hrun := Program.wp_of_run _
    (Program.wp_weaken (fun _ _ h => h) (fun _ _ _ => trivial) _ hspec)
  exact hrun.2

theorem iterate_pass (hkeep : retentionOf p.parse p.row = some keep) (hlimit : 0 < p.limit)
    (hu : Between p.ns (p.now - keep) t u) (k : Nat) :
    ((p.pass^[k] u).shard, (p.pass^[k] u).cursors p.ns) =
        (pass p.ns (p.now - keep) p.limit)^[k] (u.shard, u.cursors p.ns) ∧
      Between p.ns (p.now - keep) t (p.pass^[k] u) := by
  induction k with
  | zero => exact ⟨rfl, hu⟩
  | succ k ih =>
    obtain ⟨heq, hbetween⟩ := ih
    obtain ⟨hpass, hnext⟩ := pass_eq hkeep hlimit hbetween
    rw [Function.iterate_succ_apply', Function.iterate_succ_apply']
    refine ⟨?_, hnext⟩
    rw [hpass, ← heq]
    refine Prod.ext rfl ?_
    exact Function.update_self p.ns _ _

theorem between_of_reaches (hkeep : retentionOf p.parse p.row = some keep) (hlimit : 0 < p.limit)
    (hu : p.Reaches t u) : Between p.ns (p.now - keep) t u := by
  induction hu with
  | start => exact .refl
  | pass h ih => exact (pass_eq hkeep hlimit ih).2
  | cut h k ih => exact Program.after_of_wp _ (purge_spec hkeep rfl hlimit ih) ih k

theorem exact_of_between (hkeep : retentionOf p.parse p.row = some keep) (hlimit : 0 < p.limit)
    (hstamped : t.store.Stamped) (hu : Between p.ns (p.now - keep) t u) :
    p.Exact (p.now - keep) t u where
  rows := Purging.rowsRead_purge p.parse p.ns p.row p.now p.limit
  ends := by
    obtain ⟨k, hk, hend⟩ := pass_ends thins_visit hlimit (u.shard, u.cursors p.ns)
    refine ⟨k, hk, ?_⟩
    rw [← (iterate_pass hkeep hlimit hu k).1] at hend
    exact hend
  walked := by
    intro hstart k hk hend
    obtain ⟨heq, hbetween⟩ := iterate_pass hkeep hlimit hu k
    rw [hstart] at heq
    refine hbetween.wholly hstamped fun c => ?_
    have hsettled := settled_of_walked thins_visit settles_visit hlimit hk
      (s := u.shard) (by rw [← heq]; exact hend) c
    rw [← heq] at hsettled
    exact hsettled
  between := hu
  runRow := hu.workflows.last hstamped
  activityRow := hu.activities.last trivial
  openRun := fun _ _ hrow hopen _ hk => hu.openRun hrow hopen hk
  openActivity := fun _ _ ha hopen _ hk => hu.openActivity ha hopen hk

/-- A purge whose retention cannot be read changes nothing. -/
theorem eq_of_reaches (hkeep : retentionOf p.parse p.row = none) (hu : p.Reaches t u) : u = t := by
  obtain ⟨e, he⟩ : ∃ e, p.purge.run = .done (.error e) := by
    rw [Plan.purge, purge, hkeep]
    exact ⟨_, rfl⟩
  induction hu with
  | start => rfl
  | pass h ih => rw [Plan.pass, he, Program.run_done, ih]
  | cut h k ih =>
    rw [he, ih]
    cases k <;> rfl

end Runs

/-- The purge of a namespace. Passes may be cut short between any two accesses. -/
theorem purge_exact (p : Plan) (t : Tenant) (hkept : WellKept t) (hlimit : 0 < p.limit) :
    (∀ keep, p.parse (retentionText p.row) = some keep → 0 < keep →
      ∀ u, p.Reaches t u → p.Exact (p.now - keep) t u) ∧
    ((∀ keep, p.parse (retentionText p.row) = some keep → keep ≤ 0) →
      ∀ u, p.Reaches t u → u = t) := by
  constructor
  · intro keep hparse hpos u hu
    have hkeep : retentionOf p.parse p.row = some keep := by
      simp [retentionOf, hparse, Option.filter, hpos]
    exact exact_of_between hkeep hlimit hkept.stamped
      (between_of_reaches hkeep hlimit hu)
  · intro hnone u hu
    refine eq_of_reaches ?_ hu
    refine Option.filter_eq_none_iff.mpr fun keep hkeep => ?_
    simpa using hnone keep hkeep

def triggered (searchAttrs : List (String × Json)) : Tenant :=
  let r : RunRef := ⟨"default", "report", "1"⟩
  let row : WorkflowExecution :=
    { type := "Report", startTime := 5, closeTime := some 5, status := .completed,
      taskQueue := "default", searchAttrs := searchAttrs }
  let store := (({} : Store).put (.wf r) row).put (.sctrig "default" "nightly" "a") ("report", "1")
  { shard :=
      { world := { store := store, clock := fun _ => 0, ids := fun _ => "", orgs := fun _ => true },
        clock := fun _ => 0 } }

def dayLater : Plan :=
  { parse := fun _ => some (3600 * Standalone.second), ns := "default", row := {},
    now := 86400 * Standalone.second, limit := 2 }

theorem wellKept_triggered : WellKept (triggered [("ScheduleId", .str "nightly")]) := by
  have hrun : ∀ r row, (triggered [("ScheduleId", .str "nightly")]).store.get (.wf r) = some row →
      r = ⟨"default", "report", "1"⟩ := by
    intro r row hrow
    by_contra hne
    have hget : (triggered [("ScheduleId", .str "nightly")]).store.get (.wf r) = none := by
      unfold triggered Tenant.store
      dsimp only
      rw [Store.get_put_of_ne _ _ (by simp), Store.get_put_of_ne _ _ (by simpa using hne)]
      rfl
    rw [hget] at hrow
    cases hrow
  refine ⟨?_, ?_, ?_⟩
  · intro r row sid req hrow htrig
    obtain rfl := hrun r row hrow
    obtain rfl : sid = "nightly" := by
      by_contra hne
      unfold triggered Tenant.store at htrig
      dsimp only at htrig
      rw [Store.get_put_of_ne _ _ (by simp [hne]), Store.get_put_of_ne _ _ (by simp)] at htrig
      cases htrig
    refine ⟨by decide, ?_⟩
    unfold triggered Tenant.store at hrow
    dsimp only at hrow
    rw [Store.get_put_of_ne _ _ (by simp), Store.get_put_self] at hrow
    rw [← Option.some.inj hrow]
    decide +kernel
  · intro r row hrow
    rw [hrun r row hrow]
    decide
  · intro r a ha
    cases ha

/-- With the stamp of the schedule on the run, a walk removes the trigger too. -/
theorem purge_exact_triggered :
    (dayLater.pass (triggered [("ScheduleId", .str "nightly")])).store.get
      (.sctrig "default" "nightly" "a") = none := by
  have hexact := (purge_exact dayLater (triggered [("ScheduleId", .str "nightly")])
    wellKept_triggered (by decide)).1 _ rfl (by decide) _ .start
  refine (hexact.walked rfl 1 Nat.one_pos (by decide +kernel)).1.gone ⟨"default", "report", "1"⟩
    ⟨rfl, _, rfl, by decide +kernel, by decide +kernel⟩ (.sctrig "default" "nightly" "a")
    ⟨rfl, by decide +kernel⟩

/-- Without it, the run goes and the trigger stays. -/
theorem unstamped_trigger_stays :
    (triggered []).cursors "default" = none ∧
      (dayLater.pass (triggered [])).cursors "default" = none ∧
      (triggered []).store.Expired "default" (dayLater.now - 3600 * Standalone.second)
        ⟨"default", "report", "1"⟩ ∧
      (triggered []).store.Owns ⟨"default", "report", "1"⟩ (.sctrig "default" "nightly" "a") ∧
      (dayLater.pass (triggered [])).store.get (.wf ⟨"default", "report", "1"⟩) = none ∧
      (dayLater.pass (triggered [])).store.get (.sctrig "default" "nightly" "a") =
        some ("report", "1") := by
  refine ⟨rfl, by decide +kernel, ⟨rfl, _, rfl, by decide +kernel, by decide +kernel⟩,
    ⟨rfl, by decide +kernel⟩, Option.isNone_iff_eq_none.mp (by decide +kernel), by decide +kernel⟩

end DurableTasks.Retention
