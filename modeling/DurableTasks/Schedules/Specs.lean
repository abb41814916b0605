import DurableTasks.Schedules.Engine

/-!
What the functions over schedules do, run one at a time.
-/

namespace DurableTasks

open Std Effects Engine

variable {Q : Post Unit Host}

namespace Host

variable {h : Host} {r c : ScheduleRef} {s : Schedule}

theorem row_insert_self : ({ h with schedules := h.schedules.insert r s } : Host).row r = some s :=
  TreeMap.getElem?_insert_self

theorem row_insert_of_ne (hc : c ≠ r) :
    ({ h with schedules := h.schedules.insert r s } : Host).row c = h.row c := by
  show (h.schedules.insert r s)[c]? = h.schedules[c]?
  rw [TreeMap.getElem?_insert, if_neg]
  intro heq
  exact hc (LawfulEqCmp.eq_of_compare heq).symm

theorem row_erase_self : ({ h with schedules := h.schedules.erase r } : Host).row r = none :=
  TreeMap.getElem?_erase_self

theorem row_erase_of_ne (hc : c ≠ r) :
    ({ h with schedules := h.schedules.erase r } : Host).row c = h.row c := by
  show (h.schedules.erase r)[c]? = h.schedules[c]?
  rw [TreeMap.getElem?_erase, if_neg]
  intro heq
  exact hc (LawfulEqCmp.eq_of_compare heq).symm

theorem mem_rowsOf {tenant : String} :
    (r, s) ∈ h.rowsOf tenant ↔ r.tenant = tenant ∧ h.row r = some s := by
  rw [rowsOf, List.mem_filter, TreeMap.mem_toList_iff_getElem?_eq_some]
  simp [row, and_comm]

theorem mem_tenants (hs : h.row r = some s) : r.tenant ∈ h.tenants := by
  rw [tenants, List.mem_dedup, List.mem_map]
  exact ⟨(r, s), TreeMap.mem_toList_iff_getElem?_eq_some.mpr hs, rfl⟩

def swept (h : Host) : List (ScheduleRef × Schedule) := h.tenants.flatMap h.rowsOf

theorem mem_swept : (r, s) ∈ h.swept ↔ h.row r = some s := by
  rw [swept, List.mem_flatMap]
  constructor
  · rintro ⟨tenant, -, hmem⟩
    exact (mem_rowsOf.mp hmem).2
  · intro hs
    exact ⟨r.tenant, mem_tenants hs, mem_rowsOf.mpr ⟨rfl, hs⟩⟩

theorem nodup_rowsOf (h : Host) (tenant : String) : ((h.rowsOf tenant).map Prod.fst).Nodup := by
  have hkeys : (h.schedules.toList.map Prod.fst).Nodup :=
    Listing.Sorted.nodup_keys TreeMap.ordered_keys_toList
  exact hkeys.sublist (List.filter_sublist.map Prod.fst)

theorem nodup_swept : (h.swept.map Prod.fst).Nodup := by
  rw [swept, List.map_flatMap, List.nodup_flatMap]
  constructor
  · intro tenant _
    exact h.nodup_rowsOf tenant
  · refine (List.nodup_dedup _).imp fun {a b} hne => ?_
    intro r ha hb
    obtain ⟨⟨c, s⟩, hp, rfl⟩ := List.mem_map.mp ha
    obtain ⟨⟨c', s'⟩, hq, heq⟩ := List.mem_map.mp hb
    rw [← (mem_rowsOf.mp hp).1, ← (mem_rowsOf.mp hq).1] at hne
    exact hne (congrArg ScheduleRef.tenant heq.symm)

end Host

structure Account where
  row : Option Schedule
  fires : List Fire
  failed : Nat

def Host.account (h : Host) (r : ScheduleRef) : Account :=
  { row := h.row r, fires := h.fires.filter (·.schedule = r), failed := h.failed.count r }

namespace Schedules

variable {α β : Type} {h : Host} {r : ScheduleRef} {cal : Calendar} {now : Int}

def Scheduling.spec (x : Scheduling α) (Q : Except String α → Host → Prop) (h : Host) : Prop :=
  specOf hostHandler (fun _ _ => True) (fun _ _ => True) x Q h

namespace Scheduling

theorem spec_bind {Q : Post β Host} (x : Scheduling α) (f : α → Scheduling β) :
    (x >>= f).spec Q h ↔
      x.spec (fun res h' => match res with
        | .ok a => (f a).spec Q h'
        | .error e => Q (.error e) h') h :=
  specOf.bind_iff x f (fun _ _ => Iff.rfl) fun _ _ => Iff.rfl

theorem spec_mono {Q Q' : Post α Host} (hQ : ∀ a h, Q a h → Q' a h)
    (x : Scheduling α) (hx : x.spec Q h) : x.spec Q' h :=
  specOf.mono hQ x hx

theorem spec_attempt {x : Scheduling α} {Q : Post (Except String α) Host} :
    (attempt x).spec Q h ↔ x.spec (fun res h' => Q (.ok res) h') h :=
  specOf.lift_run_iff

theorem access {P : Prop} : (True → True ∧ P) ↔ P :=
  ⟨fun h => (h trivial).2, fun h _ => ⟨trivial, h⟩⟩

theorem spec_tenants {Q : Post (List String) Host} :
    tenants.spec Q h ↔ Q (.ok h.tenants) h := access

theorem spec_rowsOf {tenant : String} {Q : Post (List (ScheduleRef × Schedule)) Host} :
    (rowsOf tenant).spec Q h ↔ Q (.ok (h.rowsOf tenant)) h := access

theorem spec_describeSchedule {Q : Post (Option Schedule) Host} :
    (describeSchedule r).spec Q h ↔ Q (.ok (h.row r)) h := access

theorem spec_putSchedule {s : Schedule} :
    (putSchedule r s).spec Q h ↔
      Q (.ok ()) { h with schedules := h.schedules.insert r s } := access

theorem spec_delSchedule :
    (delSchedule r).spec Q h ↔ Q (.ok ()) { h with schedules := h.schedules.erase r } := access

theorem spec_started {f : Fire} :
    (started f).spec Q h ↔ Q (.ok ()) { h with fires := h.fires ++ [f] } := access

theorem spec_reportFire {failed : Bool} :
    (reportFire r failed).spec Q h ↔
      Q (.ok ()) { h with failed := h.failed ++ if failed then [r] else [] } := access

theorem extends_tenant (tenant : String) :
    Program.Extends (HostEffect.workflow tenant) (fun _ r => r) handler hostHandler
      (fun h => h.worlds tenant) fun h w => h.setWorld tenant w where
  answer := fun _ _ => rfl
  world := fun _ _ => rfl
  part_set := fun _ _ => Function.update_self ..
  set_set := fun _ _ _ => by simp [Host.setWorld]
  set_part := fun _ => by simp [Host.setWorld]

theorem spec_onTenant {tenant : String} {x : Go α} {Q : Post α Host}
    (hQ : ∀ res w, Q res (h.setWorld tenant w)) : (onTenant tenant x).spec Q h := by
  refine (Program.wp_embed (extends_tenant tenant) x.run h).mpr ?_
  have hany := Program.Given.wp (A := fun _ _ => True) (h := handler) (w := h.worlds tenant)
    (I := fun _ => True) (fun _ _ _ => trivial) (fun _ _ _ _ => trivial)
    (Program.Given.any x.run) trivial
  refine Program.wp_weaken (fun _ _ h => h) (fun _ _ _ => trivial) _ (Program.wp_mono ?_ _ hany)
  exact fun res w _ => hQ res w

end Scheduling

open Scheduling

theorem spec_collect {ps : List String} {Q : Post (List (ScheduleRef × Schedule)) Host} :
    (collect ps).spec Q h ↔ Q (.ok (ps.flatMap h.rowsOf)) h := by
  induction ps generalizing Q with
  | nil => rfl
  | cons tenant ps ih =>
    rw [collect, spec_bind, spec_rowsOf]
    dsimp only
    rw [spec_bind, ih]
    rfl

/-- The start of a run for a schedule, as far as schedules go. -/
theorem startRun_spec (r : ScheduleRef) (tick : Option Int) (s : Schedule) :
    (startRun cal r tick s).spec (fun res h' =>
      h'.schedules = h.schedules ∧ h'.failed = h.failed ∧
        ((∃ e, res = .error e) ∧ h'.fires = h.fires ∨
          ∃ p, res = .ok p ∧ h'.fires = h.fires ++ [⟨r, tick, p.1⟩])) h := by
  rw [startRun, spec_bind]
  refine spec_onTenant fun res w => ?_
  cases res with
  | error e => exact ⟨rfl, rfl, .inl ⟨⟨e, rfl⟩, rfl⟩⟩
  | ok p =>
    dsimp only
    rw [spec_bind, spec_started]
    exact ⟨rfl, rfl, .inr ⟨p, rfl, rfl⟩⟩

/-! ## One schedule -/

section Account

variable {s : Schedule} {c : ScheduleRef}

theorem account_insert :
    ({ h with schedules := h.schedules.insert c s } : Host).account r =
      if c = r then { h.account r with row := some s } else h.account r := by
  split_ifs with hc
  · subst hc
    simp only [Host.account, Host.row_insert_self]
  · simp only [Host.account, Host.row_insert_of_ne (Ne.symm hc)]

theorem account_erase :
    ({ h with schedules := h.schedules.erase c } : Host).account r =
      if c = r then { h.account r with row := none } else h.account r := by
  split_ifs with hc
  · subst hc
    simp only [Host.account, Host.row_erase_self]
  · simp only [Host.account, Host.row_erase_of_ne (Ne.symm hc)]

theorem account_map_none (hs : h.row c = none) (f : Schedule → Schedule) :
    (if c = r then { h.account r with row := (h.account r).row.map f } else h.account r) =
      h.account r := by
  split_ifs with hc
  · subst hc
    simp only [Host.account, hs, Option.map_none]
  · rfl

theorem account_map_some (hs : h.row c = some s) (f : Schedule → Schedule) :
    (if c = r then { h.account r with row := some (f s) } else h.account r) =
      if c = r then { h.account r with row := (h.account r).row.map f } else h.account r := by
  split_ifs with hc
  · subst hc
    simp only [Host.account, hs, Option.map_some]
  · rfl

end Account

inductive FireOutcome (cal : Calendar) (now : Int) (d : Due) (a : Account) : Account → Prop
  | failed : FireOutcome cal now d a { a with failed := a.failed + 1 }
  | fired (run : RunRef) :
      FireOutcome cal now d a
        { a with
          row := some (anchored cal now d.row)
          fires := a.fires ++ [⟨d.schedule, some (seconds d.tick), run⟩] }

theorem fire_spec (d : Due) :
    (fire cal now d).spec (fun res h' => res = .ok () ∧
      FireOutcome cal now d (h.account d.schedule) (h'.account d.schedule) ∧
      ∀ r, r ≠ d.schedule → h'.account r = h.account r) h := by
  rw [fire, spec_bind, spec_attempt]
  refine spec_mono ?_ _ (startRun_spec d.schedule (some (seconds d.tick)) d.row)
  rintro res h' ⟨hschedules, hfailed, ⟨⟨e, rfl⟩, hfires⟩ | ⟨p, rfl, hfires⟩⟩
  · dsimp only
    rw [spec_reportFire]
    refine ⟨rfl, ?_, fun r hr => ?_⟩
    · have heq : FireOutcome cal now d (h.account d.schedule) _ := .failed
      simpa [Host.account, Host.row, hschedules, hfailed, hfires] using heq
    · simp [Host.account, Host.row, hschedules, hfailed, hfires, Ne.symm hr]
  · dsimp only
    rw [spec_bind, spec_reportFire]
    dsimp only
    rw [spec_putSchedule]
    refine ⟨rfl, ?_, fun r hr => ?_⟩
    · rw [account_insert, if_pos rfl]
      have heq : FireOutcome cal now d (h.account d.schedule) _ := .fired p.1
      simpa [Host.account, Host.row, hschedules, hfailed, hfires] using heq
    · rw [account_insert, if_neg (Ne.symm hr)]
      simp [Host.account, Host.row, hschedules, hfailed, hfires, Ne.symm hr]

theorem fires_spec {ds : List Due} (hds : (ds.map Due.schedule).Nodup) :
    (ds.forM (fire cal now)).spec (fun res h' => res = .ok () ∧
      (∀ d ∈ ds, FireOutcome cal now d (h.account d.schedule) (h'.account d.schedule)) ∧
      ∀ r, (∀ d ∈ ds, r ≠ d.schedule) → h'.account r = h.account r) h := by
  induction ds generalizing h with
  | nil => exact ⟨rfl, fun d hd => absurd hd (by simp), fun _ _ => rfl⟩
  | cons d ds ih =>
    rw [List.map_cons, List.nodup_cons] at hds
    change (fire cal now d >>= fun _ => ds.forM (fire cal now)).spec _ h
    rw [spec_bind]
    refine spec_mono ?_ _ (fire_spec d)
    rintro res h₁ ⟨rfl, hd, hrest⟩
    refine spec_mono ?_ _ (ih hds.2)
    rintro res h₂ ⟨rfl, hds₂, hrest₂⟩
    refine ⟨rfl, fun d' hd' => ?_, fun r hr => ?_⟩
    · grind
    · rw [hrest₂ r fun d' hd' => hr d' (by simp [hd']), hrest r (hr d (by simp))]

def SweepOutcome (cal : Calendar) (now : Int) (r : ScheduleRef) (a a' : Account) : Prop :=
  match a.row.bind fun s => due cal now (r, s) with
  | none => a' = a
  | some d => FireOutcome cal now d a a'

theorem due_eq {s : Schedule} {d : Due} (hd : due cal now (r, s) = some d) :
    d.schedule = r ∧ d.row = s := by
  simp only [due] at hd
  split_ifs at hd
  cases hnext : nextScheduleFire cal s.spec (anchorTime s now) with
  | none => rw [hnext] at hd; cases hd
  | some tick =>
    rw [hnext] at hd
    dsimp only at hd
    split_ifs at hd
    obtain rfl := Option.some.inj hd
    exact ⟨rfl, rfl⟩

theorem nodup_due {l : List (ScheduleRef × Schedule)} (hl : (l.map Prod.fst).Nodup) :
    ((l.filterMap (due cal now)).map Due.schedule).Nodup := by
  rw [List.Nodup, List.pairwise_map] at hl ⊢
  rw [List.pairwise_filterMap]
  refine hl.imp fun {p q} hne d hd d' hd' => ?_
  rwa [(due_eq hd).1, (due_eq hd').1]

theorem sweepSchedules_spec :
    (sweepSchedules cal now).spec
      (fun _ h' => ∀ r, SweepOutcome cal now r (h.account r) (h'.account r)) h := by
  rw [sweepSchedules, spec_bind, spec_tenants]
  dsimp only
  rw [spec_bind, spec_collect]
  dsimp only
  change ((h.swept.filterMap (due cal now)).forM (fire cal now)).spec _ h
  refine spec_mono ?_ _ (fires_spec (nodup_due h.nodup_swept))
  rintro res h' ⟨rfl, hfired, hrest⟩ r
  unfold SweepOutcome
  cases hdue : (h.account r).row.bind fun s => due cal now (r, s) with
  | none =>
    refine hrest r ?_
    rintro d hd rfl
    obtain ⟨⟨c, s⟩, hmem, hd⟩ := List.mem_filterMap.mp hd
    obtain ⟨rfl, rfl⟩ := due_eq hd
    have hrow : (h.account d.schedule).row = some d.row := Host.mem_swept.mp hmem
    rw [hrow] at hdue
    exact absurd (hd.symm.trans hdue) (by simp)
  | some d =>
    obtain ⟨s, hs, hd⟩ := Option.bind_eq_some_iff.mp hdue
    have hout := hfired d (List.mem_filterMap.mpr ⟨(r, s), Host.mem_swept.mpr hs, hd⟩)
    rwa [(due_eq hd).1] at hout

/-! ## Operations -/

inductive TriggerOutcome (now : Int) (r : ScheduleRef) (a : Account) : Account → Prop
  | idle : TriggerOutcome now r a a
  | fired {s : Schedule} (hs : a.row = some s) (run : RunRef) :
      TriggerOutcome now r a
        { a with row := some (countedRow now s), fires := a.fires ++ [⟨r, none, run⟩] }

/-- What an operation at the time `now` makes of the schedule `r`. -/
def ScheduleOperation.Outcome (cal : Calendar) (now : Int) (r : ScheduleRef) (a a' : Account) :
    ScheduleOperation → Prop
  | create c s =>
    a' = if c = r ∧ c.id ≠ "" ∧ c.ns ≠ "" then { a with row := some (createdRow cal now s) }
      else a
  | delete c => a' = if c = r then { a with row := none } else a
  | pause c paused note =>
    a' = if c = r then { a with row := a.row.map (pausedRow now paused note) } else a
  | update c new => a' = if c = r then { a with row := a.row.map (updatedRow cal now new) } else a
  | trigger c _ => if c = r then TriggerOutcome now r a a' else a' = a
  | sweep => SweepOutcome cal now r a a'

theorem priorTrigger_spec {requestID : String} (c : ScheduleRef) :
    (priorTrigger c requestID).spec
      (fun res h' => (∃ found, res = .ok found) ∧ ∀ r, h'.account r = h.account r) h := by
  unfold priorTrigger
  split_ifs
  · exact ⟨⟨none, rfl⟩, fun _ => rfl⟩
  rw [spec_bind, spec_attempt]
  refine spec_onTenant fun res w => ?_
  rcases res with e | _ | ⟨wf, run⟩
  · exact ⟨⟨none, rfl⟩, fun _ => rfl⟩
  · exact ⟨⟨none, rfl⟩, fun _ => rfl⟩
  · dsimp only
    split_ifs
    · exact ⟨⟨none, rfl⟩, fun _ => rfl⟩
    rw [spec_bind, spec_attempt]
    refine spec_onTenant fun res w => ?_
    cases res with
    | error e => exact ⟨⟨none, rfl⟩, fun _ => rfl⟩
    | ok found => exact ⟨⟨found, rfl⟩, fun _ => rfl⟩

theorem triggerSchedule_spec {requestID : String} (c : ScheduleRef) :
    (triggerSchedule cal now c requestID).spec
      (fun _ h' => ∀ r, (ScheduleOperation.trigger c requestID).Outcome cal now r (h.account r)
        (h'.account r)) h := by
  have hidle : ∀ r, (ScheduleOperation.trigger c requestID).Outcome cal now r (h.account r)
      (h.account r) := by
    intro r
    simp only [ScheduleOperation.Outcome]
    split_ifs
    exact .idle
  rw [triggerSchedule, spec_bind, spec_describeSchedule]
  cases hs : h.row c with
  | none => exact hidle
  | some s =>
    dsimp only
    rw [spec_bind]
    refine spec_mono ?_ _ (priorTrigger_spec c)
    rintro res h₁ ⟨⟨found, rfl⟩, hsame⟩
    cases found with
    | some p =>
      intro r
      rw [hsame r]
      exact hidle r
    | none =>
      dsimp only
      rw [spec_bind]
      refine spec_mono ?_ _ (startRun_spec c none s)
      rintro res h₂ ⟨hschedules, hfailed, ⟨⟨e, rfl⟩, hfires⟩ | ⟨p, rfl, hfires⟩⟩
      · intro r
        have hacc : h₂.account r = h.account r := by
          rw [← hsame r]
          simp only [Host.account, Host.row, hschedules, hfailed, hfires]
        rw [hacc]
        exact hidle r
      · dsimp only
        rw [spec_bind, spec_putSchedule]
        -- the trigger entry is written to the store of the tenant
        have hfinal : ∀ r, (ScheduleOperation.trigger c requestID).Outcome cal now r
            (h.account r) (Host.account
              { h₂ with schedules := h₂.schedules.insert c (countedRow now s) } r) := by
          intro r
          simp only [ScheduleOperation.Outcome]
          split_ifs with hc
          · subst hc
            have hacc : h₂.account c = { h.account c with
                fires := (h.account c).fires ++ [⟨c, none, p.1⟩] } := by
              rw [← hsame c]
              simp [Host.account, Host.row, hschedules, hfailed, hfires]
            rw [account_insert, if_pos rfl, hacc]
            exact .fired hs p.1
          · rw [account_insert, if_neg hc, ← hsame r]
            simp [Host.account, Host.row, hschedules, hfailed, hfires, hc]
        dsimp only
        split_ifs
        · exact hfinal
        · rw [spec_bind, spec_attempt]
          refine spec_onTenant fun res w => ?_
          exact hfinal

theorem run_drop {x : Scheduling α} {Q : Host → Prop} (hx : x.spec (fun _ => Q) h) :
    Q ((drop x).run hostHandler h).2 := by
  rw [drop, Program.run_bind]
  exact Program.wp_of_run x.run hx

/-- Every operation does to every schedule what its outcome says. -/
theorem operation_outcome (cal : Calendar) (now : Int) (op : ScheduleOperation) (h : Host)
    (r : ScheduleRef) :
    op.Outcome cal now r (h.account r)
      (((op.program cal now).run hostHandler h).2.account r) := by
  cases op with
  | create c s =>
    refine run_drop (Q := fun h' => (ScheduleOperation.create c s).Outcome cal now r (h.account r)
      (h'.account r)) ?_
    simp only [ScheduleOperation.Outcome, createSchedule]
    by_cases hid : c.id = ""
    · rw [if_pos hid, if_neg fun hc => hc.2.1 hid]
      rfl
    by_cases hns : c.ns = ""
    · rw [if_neg hid, if_pos hns, if_neg fun hc => hc.2.2 hns]
      rfl
    rw [if_neg hid, if_neg hns, spec_putSchedule, account_insert]
    simp only [hid, hns, ne_eq, not_false_eq_true, and_true]
  | delete c =>
    refine run_drop (Q := fun h' => (ScheduleOperation.delete c).Outcome cal now r (h.account r)
      (h'.account r)) ?_
    rw [deleteSchedule, spec_delSchedule]
    exact account_erase
  | pause c paused note =>
    refine run_drop (Q := fun h' => (ScheduleOperation.pause c paused note).Outcome cal now r
      (h.account r) (h'.account r)) ?_
    rw [pauseSchedule, spec_bind, spec_attempt, spec_describeSchedule]
    cases hs : h.row c with
    | none => exact (account_map_none hs _).symm
    | some s =>
      dsimp only
      rw [spec_putSchedule]
      exact account_insert.trans (account_map_some hs _)
  | update c new =>
    refine run_drop (Q := fun h' => (ScheduleOperation.update c new).Outcome cal now r
      (h.account r) (h'.account r)) ?_
    rw [updateSchedule, spec_bind, spec_describeSchedule]
    cases hs : h.row c with
    | none => exact (account_map_none hs _).symm
    | some s =>
      dsimp only
      rw [spec_bind, spec_putSchedule]
      exact account_insert.trans (account_map_some hs _)
  | trigger c requestID =>
    exact run_drop (Q := fun h' => (ScheduleOperation.trigger c requestID).Outcome cal now r
      (h.account r) (h'.account r)) (spec_mono (fun _ h' hr => hr r) _ (triggerSchedule_spec c))
  | sweep =>
    exact run_drop (Q := fun h' => SweepOutcome cal now r (h.account r) (h'.account r))
      (spec_mono (fun _ h' hr => hr r) _ sweepSchedules_spec)

end Schedules

end DurableTasks
