import DurableTasks.Concurrency.DurableConduct

/-!
Run ids under interleaving: an id that was given to an operation or drawn by
one, and not used yet, belongs to that operation alone and has no row, as long
as `newRunId` never draws an id twice or one that is in use.
-/

namespace DurableTasks

open Effects Engine

variable {I : Type} [DecidableEq I]

def Operation.givenRun : Operation → Option String
  | .start a | .signalWithStart a _ _ => a.runId
  | _ => none

theorem Operation.view_fresh (o : Operation) : o.view.fresh = o.givenRun.toList := by
  cases o <;> rfl

theorem Operation.view_row (o : Operation) : o.view.row = fun _ => none := by
  cases o <;> rfl

def takeIds (taken : String → Prop) (w : World) : Effect → String → Prop
  | .newRunId => fun id => id = w.nextId ∨ taken id
  | _ => taken

/-- `newRunId` draws an id that is neither taken nor in use. -/
def DrawsNew (taken : String → Prop) (w : World) : Effect → Prop
  | .newRunId => ¬taken w.nextId ∧ ∀ ns wf, w.store.get (.wf ⟨ns, wf, w.nextId⟩) = none
  | _ => True

structure RunIds (taken : String → Prop) (s : Store) (know : I → View) : Prop where
  stored : ∀ i r row, (know i).row r = some (some row) → ∃ row', s.get (.wf r) = some row'
  taken : ∀ i, ∀ id ∈ (know i).fresh, taken id
  unused : ∀ i, ∀ id ∈ (know i).fresh, ∀ ns wf, s.get (.wf ⟨ns, wf, id⟩) = none
  single : ∀ i j, ∀ id ∈ (know i).fresh, id ∈ (know j).fresh → i = j
  nodup : ∀ i, (know i).fresh.Nodup

namespace RunIds

variable {taken : String → Prop} {s s' : Store} {know : I → View} {i : I} {k : View}

omit [DecidableEq I] in
/-- The operations begin with the ids they are given, each with its own and
none in use. -/
theorem init {ops : I → Operation}
    (hgiven : ∀ i run, (ops i).givenRun = some run →
      (∀ ns wf, s.get (.wf ⟨ns, wf, run⟩) = none) ∧
        ∀ j, (ops j).givenRun = some run → i = j) :
    RunIds (fun id => ∃ i, (ops i).givenRun = some id) s fun i => (ops i).view := by
  refine ⟨fun i r row hr => ?_, fun i id hid => ⟨i, ?_⟩, fun i id hid => ?_,
    fun i j id hid hid' => ?_, fun i => ?_⟩
  · simp [Operation.view_row] at hr
  · simpa [Operation.view_fresh] using hid
  · exact (hgiven i id (by simpa [Operation.view_fresh] using hid)).1
  · exact (hgiven i id (by simpa [Operation.view_fresh] using hid)).2 j
      (by simpa [Operation.view_fresh] using hid')
  · rw [Operation.view_fresh]
    cases (ops i).givenRun <;> simp

omit [DecidableEq I] in
/-- A run with a row is under no unused id. -/
theorem ne_of_stored (h : RunIds taken s know) {r : RunRef} {row : WorkflowExecution}
    (hrow : s.get (.wf r) = some row) {j : I} {id : String} (hid : id ∈ (know j).fresh)
    (ns wf : String) : (⟨ns, wf, id⟩ : RunRef) ≠ r := by
  rintro rfl
  rw [h.unused j id hid ns wf] at hrow
  cases hrow

/-- An access that removes no row, adds none under an unused id, and uses up
none or some of the thread's ids. -/
theorem step (h : RunIds taken s know)
    (hkeep : ∀ r row, s.get (.wf r) = some row → ∃ row', s'.get (.wf r) = some row')
    (hk : ∀ r row, k.row r = some (some row) → ∃ row', s'.get (.wf r) = some row')
    (hfresh : k.fresh.Sublist (know i).fresh)
    (hunused : ∀ j id, id ∈ (Function.update know i k j).fresh → ∀ ns wf,
      s'.get (.wf ⟨ns, wf, id⟩) = none) :
    RunIds taken s' (Function.update know i k) := by
  have hsub : ∀ j id, id ∈ (Function.update know i k j).fresh → id ∈ (know j).fresh := by
    intro j id hid
    rcases update_cases (fun k : View => id ∈ k.fresh) hid with ⟨rfl, hnew⟩ | ⟨-, hold⟩
    · exact hfresh.subset hnew
    · exact hold
  refine ⟨?_, fun j id hid => h.taken j id (hsub j id hid), hunused,
    fun j j' id hid hid' => h.single j j' id (hsub j id hid) (hsub j' id hid'), ?_⟩
  · grind [h.stored]
  · refine Function.forall_update_iff know (fun _ k' => k'.fresh.Nodup) |>.mpr
      ⟨(h.nodup i).sublist hfresh, fun j _ => h.nodup j⟩

theorem frame (h : RunIds taken s know) (hrow : ∀ r, s'.get (.wf r) = s.get (.wf r))
    (hk : ∀ r row, k.row r = some (some row) →
      (know i).row r = some (some row) ∨ s.get (.wf r) = some row)
    (hfresh : k.fresh = (know i).fresh) : RunIds taken s' (Function.update know i k) := by
  refine h.step (fun r row hr => ⟨row, (hrow r).trans hr⟩) (fun r row hr => ?_)
    (by rw [hfresh]) fun j id hid ns wf => ?_
  · rw [hrow]
    exact (hk r row hr).elim (h.stored i r row) fun hr => ⟨row, hr⟩
  · grind [h.unused]

/-- A row is written: one of a run that has one, or the first one of a run under
an unused id of the thread, which it uses up. -/
theorem put_row (h : RunIds taken s know) {r : RunRef} (row : WorkflowExecution)
    (hr : (∃ old, s.get (.wf r) = some old) ∨ (know i).entered = some r ∧ r.run ∈ (know i).fresh) :
    RunIds taken (s.put (.wf r) row)
      (Function.update know i ((know i).wrote (.put (.wf r) row))) := by
  have hother : ∀ r', r' ≠ r → (s.put (.wf r) row).get (.wf r') = s.get (.wf r') :=
    fun r' hne => Store.get_put_of_ne _ _ (by simpa using hne)
  have hsub : ((know i).wrote (.put (.wf r) row)).fresh.Sublist (know i).fresh := by
    simp only [View.wrote]
    split_ifs
    · exact List.erase_sublist
    · exact List.Sublist.refl _
  refine h.step (fun r' old hold => ?_) (fun r' row' hrow' => ?_) hsub fun j id hid ns wf => ?_
  · by_cases hne : r' = r
    · exact ⟨row, by rw [hne, Store.get_put_self]⟩
    · exact ⟨old, (hother r' hne).trans hold⟩
  · by_cases hne : r' = r
    · exact ⟨row, by rw [hne, Store.get_put_self]⟩
    · rw [hother r' hne]
      exact h.stored i r' row' (by simpa [View.wrote, hne] using hrow')
  · have hid' : id ∈ (know j).fresh := by
      rcases update_cases (fun k : View => id ∈ k.fresh) hid with ⟨rfl, hnew⟩ | ⟨-, hold⟩
      · exact hsub.subset hnew
      · exact hold
    have hne : (⟨ns, wf, id⟩ : RunRef) ≠ r := by
      rcases hr with ⟨old, hold⟩ | ⟨hentered, hmine⟩
      · exact h.ne_of_stored hold hid' ns wf
      · -- the id is used up, and it was in no other thread's hands
        rintro rfl
        obtain rfl := h.single i j id hmine hid'
        simp only [Function.update_self, View.wrote, hentered, if_true] at hid
        exact ((h.nodup i).mem_erase_iff.mp hid).1 rfl
    rw [hother _ hne]
    exact h.unused j id hid' ns wf

/-- Every access keeps the ownership of run ids. -/
theorem keep {w : World} (h : RunIds taken w.store know) {e : Effect}
    (hguard : (know i).guard True e) (hnew : DrawsNew taken w e) :
    RunIds (takeIds taken w e) (handler e w).2.store
      (Function.update know i ((know i).learn e (handler e w).1)) := by
  -- an access that has nothing to do with rows
  have haside : e.aside = true → (∀ r, (handler e w).2.store.get (.wf r) = w.store.get (.wf r)) →
      RunIds taken (handler e w).2.store
        (Function.update know i ((know i).learn e (handler e w).1)) := by
    intro he hrow
    have hsame := (know i).learn_aside he (handler e w).1
    exact h.frame hrow (fun r row hr => .inl (by rwa [hsame.row] at hr)) hsame.fresh
  cases e with
  | get key =>
    cases key with
    | wf r =>
      exact h.frame (fun _ => rfl)
        (fun r' _ => View.known_of_read ((know i).row_learn_get w r r')) rfl
    | _ => exact haside rfl fun _ => rfl
  | list q =>
    cases q with
    | rows ns wf =>
      exact h.frame (fun _ => rfl)
        (fun r _ => View.known_of_read ((know i).row_learn_list w ns wf r)) rfl
    | _ => exact haside rfl fun _ => rfl
  | write x =>
    cases hguard with
    | @count r row hrow | @revise r row _ hrow =>
      exact h.put_row _ (.inl (h.stored i r row hrow))
    | create hstarts hmid hentered hfresh hopen hlen =>
      exact h.put_row _ (.inr ⟨hentered, hfresh⟩)
    | append | enlist =>
      exact h.frame (fun _ => handler_write_get (by simp) w) (fun _ _ hr => .inl hr) rfl
    | unlist | activity | registry | indexed | request =>
      exact haside rfl fun _ => handler_write_get (by simp) w
    | note => exact haside rfl fun _ => rfl
  | newRunId =>
    obtain ⟨hnot, hnone⟩ := hnew
    have hmem : ∀ j id, id ∈ (Function.update know i
        { know i with fresh := w.nextId :: (know i).fresh } j).fresh →
        id ∈ (know j).fresh ∨ j = i ∧ id = w.nextId := by
      intro j id hid
      rcases update_cases (fun k : View => id ∈ k.fresh) hid with ⟨rfl, hnew⟩ | ⟨-, hold⟩
      · exact (List.mem_cons.mp hnew).symm.imp_right fun h => ⟨rfl, h⟩
      · exact .inl hold
    refine ⟨?_, fun j id hid => ?_, fun j id hid ns wf => ?_, fun j j' id hid hid' => ?_, ?_⟩
    · intro j r row hr
      rw [update_view know i _ View.row (by rfl)] at hr
      exact h.stored j r row hr
    · rcases hmem j id hid with hid | ⟨-, rfl⟩
      · exact .inr (h.taken j id hid)
      · exact .inl rfl
    · rcases hmem j id hid with hid | ⟨-, rfl⟩
      · exact h.unused j id hid ns wf
      · exact hnone ns wf
    · rcases hmem j id hid with hid | ⟨hj, heq⟩ <;> rcases hmem j' id hid' with hid' | ⟨hj', heq'⟩
      · exact h.single j j' id hid hid'
      · exact absurd (heq' ▸ h.taken j id hid) hnot
      · exact absurd (heq ▸ h.taken j' id hid') hnot
      · exact hj.trans hj'.symm
    · refine Function.forall_update_iff know (fun _ k' => k'.fresh.Nodup) |>.mpr
        ⟨List.nodup_cons.mpr ⟨fun hin => hnot (h.taken i _ hin), h.nodup i⟩, fun j _ => h.nodup j⟩
  | _ => exact haside rfl fun _ => rfl

end RunIds

end DurableTasks
