import DurableTasks.Engine.DurableMoves

/-!
Histories without gaps: the events stored for a run are those its row counts,
one for each id, and the first says how the run started.
-/

namespace DurableTasks

open Effects Engine

def EventAttrs.IsStart : EventAttrs → Prop
  | .workflowStarted _ _ _ => True
  | _ => False

/-- The events of a run are exactly those its row counts, and there is at least
the one that starts it. -/
structure RunView.Dense (v : RunView) : Prop where
  ids : ∀ id, (v.event id).isSome ↔ ∃ row, v.row = some row ∧ 1 ≤ id ∧ id ≤ row.historyLen
  first : ∀ row, v.row = some row → ∃ ev, v.event 1 = some ev ∧ ev.attrs.IsStart

namespace RunView.Dense

variable {v : RunView} {row row' : WorkflowExecution} {t : Nat} {attrs : EventAttrs}

theorem event_none (hv : v.Dense) (hrow : v.row = none) (id : Nat) : v.event id = none := by
  have hid := hv.ids id
  simpa [hrow] using hid

theorem pos (hv : v.Dense) (hrow : v.row = some row) : 1 ≤ row.historyLen := by
  obtain ⟨ev, hev, -⟩ := hv.first row hrow
  obtain ⟨row₁, hrow₁, hle⟩ := (hv.ids 1).mp (by simp [hev])
  obtain rfl : row = row₁ := Option.some.inj (hrow.symm.trans hrow₁)
  exact hle.2

theorem revise (hv : v.Dense) (hrow : v.row = some row)
    (hlen : row'.historyLen = row.historyLen) : RunView.Dense { v with row := some row' } := by
  refine ⟨fun id => ?_, fun _ _ => hv.first row hrow⟩
  rw [hv.ids id]
  simp [hrow, hlen]

theorem append (hv : v.Dense) (hrow : v.row = some row)
    (hlen : row'.historyLen = row.historyLen) : (v.append row' t attrs).Dense := by
  have hpos := hv.pos hrow
  refine ⟨fun id => ?_, fun _ _ => ?_⟩
  · by_cases hid : id = row'.historyLen + 1
    · simp [RunView.append, hid]
    · have hold := hv.ids id
      simp only [hrow, Option.some.injEq, exists_eq_left'] at hold
      simp only [RunView.append, Function.update_of_ne hid, hold, Option.some.injEq,
        exists_eq_left']
      omega
  · obtain ⟨ev₁, hev₁, hstart⟩ := hv.first row hrow
    refine ⟨ev₁, ?_, hstart⟩
    have hne : 1 ≠ row'.historyLen + 1 := by omega
    exact (Function.update_of_ne hne _ _).trans hev₁

theorem setAct (hv : v.Dense) (seq : Int) (a : WorkflowActivity) : (v.setAct seq a).Dense :=
  ⟨hv.ids, hv.first⟩

end RunView.Dense

/-- The event that starts a run is read back as one. -/
theorem EventAttrs.IsStart.throughAny {ev ev' : HistoryEvent} (h : ev.attrs.IsStart)
    (hev : ev.throughAny = some ev') : ev'.attrs.IsStart := by
  obtain ⟨id, t, attrs⟩ := ev
  cases attrs <;> try exact h.elim
  obtain ⟨attrs', hattrs, rfl⟩ := Option.map_eq_some_iff.mp hev
  obtain ⟨j, -, rfl⟩ := Option.map_eq_some_iff.mp hattrs
  trivial

/-- Every step of a run whose id is not given to another while it is stored
leaves no gap, if none was left in the histories before. -/
theorem RunStep.dense {S : Scope} {L : Ledger} {r : RunRef} {v : RunView}
    (hr : S.fresh r ≠ .any) (hL : ∀ c, (L.view c).Dense) (h : RunStep S L r v) : v.Dense := by
  cases h with
  | same => exact hL r
  | revise hrow hlen hstatus => exact (hL r).revise hrow hlen
  | note hrow hpass => exact (hL r).append hrow rfl
  | request hrow hopen hfirst => exact (hL r).append hrow rfl
  | close hrow hterm hfits hasked => exact (hL r).append hrow rfl
  | @create row type queue input t hfresh hopen hlen =>
    have hnone := (hL r).event_none (hfresh.row hr)
    refine ⟨fun id => ?_, fun _ _ =>
      ⟨nextEvent row t (.workflowStarted type queue input), ?_, trivial⟩⟩
    · by_cases hid : id = 1
      · simp [RunView.append, hlen, hid]
      · simp only [RunView.append, hlen, Nat.zero_add, Function.update_of_ne hid, hnone,
          Option.some.injEq, exists_eq_left']
        simp only [Option.isSome_none, Bool.false_eq_true, false_iff]
        omega
    · simp [RunView.append, hlen]
  | @fork src row new n t evs dec reason identity hrow hn hle hlist hdec hfresh hopen hlen
      hcopies =>
    have hnone := (hL r).event_none (hfresh.row hr)
    have hcopied : ∀ id, (dec.lookup id).isSome ↔ 1 ≤ id ∧ id ≤ row.historyLen := by
      intro id
      rw [isSome_lookup_decodeEvents hdec, hlist.lookup]
      have hids := (hL src).ids id
      simpa only [Ledger.view_row, Ledger.view_event, hrow, Option.some.injEq,
        exists_eq_left'] using hids
    refine ⟨fun id => ?_, fun _ _ => ?_⟩
    · by_cases hid : id = new.historyLen + 1
      · simp [RunView.append, hid]
      · simp only [RunView.append, Function.update_of_ne hid, Option.some.injEq,
          exists_eq_left']
        rw [show L.event r id = none from hnone id, Option.or_none]
        split_ifs with hcut
        · rw [hcopied]
          omega
        · simp only [Option.isSome_none, Bool.false_eq_true, false_iff]
          omega
    · obtain ⟨ev, hev, hstart⟩ := (hL src).first row hrow
      have hdec₁ : dec.lookup 1 = ev.throughAny := by
        rw [lookup_decodeEvents hdec, hlist.lookup, show L.event src 1 = some ev from hev]
        rfl
      obtain ⟨ev', hev'⟩ := Option.isSome_iff_exists.mp ((hcopied 1).mpr ⟨le_rfl, hn.trans hle⟩)
      refine ⟨ev', ?_, hstart.throughAny (hdec₁.symm.trans hev')⟩
      have hne : 1 ≠ new.historyLen + 1 := by omega
      refine (Function.update_of_ne hne _ _).trans ?_
      simp [hn, hev']
  | @schedule row seq a type id input queue rp t t' n hrow hnone ha =>
    exact (((hL r).setAct seq a).append hrow rfl).append rfl rfl
  | rewrite hact ha hb => exact (hL r).setAct _ _
  | refire hrow hact ha hb => exact ((hL r).setAct _ _).append hrow rfl
  | outcome hrow hact ha hb => exact ((hL r).setAct _ _).append hrow rfl
  | purge => exact ⟨by simp, by simp⟩
  | stray hrow => exact ⟨(hL r).ids, (hL r).first⟩

theorem Moves.dense {S : Scope} {L L' : Ledger} (hS : ∀ r, S.fresh r ≠ .any)
    (hL : ∀ r, (L.view r).Dense) (h : Moves S L L') (r : RunRef) : (L'.view r).Dense := by
  induction h generalizing r with
  | refl => exact hL r
  | tail _ hmove ih => exact (hmove.runStep (hS r)).dense (hS r) ih

end DurableTasks
