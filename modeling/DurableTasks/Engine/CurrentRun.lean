import DurableTasks.Engine.Operations
import Mathlib.Data.List.MinMax
import Mathlib.Data.Prod.Lex
import Mathlib.Data.String.Basic

/-!
The current run of a workflow id. `moreCurrentRun` compares ranks, which are
linearly ordered and differ where run ids do, so the loop of `DescribeWorkflow`
finds the same run in whatever order the rows are listed.
-/

namespace DurableTasks

open Effects

namespace Engine

variable {rows rows' : List (RunRef × WorkflowExecution)} {p q : RunRef × WorkflowExecution}

/-- What `moreCurrentRun` compares: whether the run is open, whether it was not
continued as new, when it started, and its id. -/
def rank (p : RunRef × WorkflowExecution) : Bool ×ₗ Bool ×ₗ Nat ×ₗ String :=
  toLex (p.2.isOpen, toLex (decide (p.2.status ≠ .continuedAsNew),
    toLex (p.2.startTime, p.1.run)))

theorem moreCurrentRun_iff : moreCurrentRun p q ↔ rank q < rank p := by
  simp only [moreCurrentRun, rank, Prod.Lex.toLex_lt_toLex, WorkflowExecution.isOpen]
  -- equal times leave the decision to the run ids
  have hlast : (if p.2.startTime ≠ q.2.startTime then decide (q.2.startTime < p.2.startTime)
      else decide (q.1.run < p.1.run)) = true ↔
      q.2.startTime < p.2.startTime ∨ q.2.startTime = p.2.startTime ∧ q.1.run < p.1.run := by
    by_cases hs : q.2.startTime = p.2.startTime
    · simp [hs]
    · simp [hs, Ne.symm hs]
  cases p.2.status.isTerminal <;> cases q.2.status.isTerminal <;>
    by_cases hp : p.2.status = .continuedAsNew <;> by_cases hq : q.2.status = .continuedAsNew <;>
    simp [hp, hq] <;> simpa using hlast

theorem currentRun_eq_argmax : currentRun rows = rows.argmax rank := by
  cases rows with
  | nil => rfl
  | cons first rest =>
    change _ = rest.foldl _ (some first)
    simp only [currentRun]
    induction rest generalizing first with
    | nil => rfl
    | cons c rest ih =>
      rw [List.foldl_cons, List.foldl_cons, ih]
      congr 1
      simp only [List.argAux, moreCurrentRun_iff, apply_ite some]

theorem currentRun_mem (h : currentRun rows = some p) : p ∈ rows :=
  List.argmax_mem (currentRun_eq_argmax ▸ h)

theorem rank_le_currentRun (hp : currentRun rows = some p) (hq : q ∈ rows) : rank q ≤ rank p :=
  List.le_of_mem_argmax hq (currentRun_eq_argmax ▸ hp)

theorem exists_currentRun (h : rows ≠ []) : ∃ p, currentRun rows = some p := by
  rw [currentRun_eq_argmax]
  exact Option.ne_none_iff_exists'.mp (mt List.argmax_eq_none.mp h)

theorem run_eq_of_rank_eq (h : rank p = rank q) : p.1.run = q.1.run :=
  congrArg (fun x => (ofLex (ofLex (ofLex x).2).2).2) h

theorem isOpen_of_rank_le (h : rank p ≤ rank q) (hp : p.2.isOpen = true) : q.2.isOpen = true := by
  rcases Prod.Lex.toLex_le_toLex.mp h with hlt | ⟨heq, -⟩
  · exact hp ▸ (Bool.lt_iff.mp hlt).2
  · exact (show p.2.isOpen = q.2.isOpen from heq) ▸ hp

theorem continued_of_rank_le (h : rank p ≤ rank q) (hq : q.2.status = .continuedAsNew) :
    p.2.status = .continuedAsNew := by
  have hclosed : q.2.isOpen = false := by
    simp [WorkflowExecution.isOpen, hq, WorkflowStatus.isTerminal]
  rcases Prod.Lex.toLex_le_toLex.mp h with hlt | ⟨-, hle⟩
  · simp [hclosed, Bool.lt_iff] at hlt
  · rcases Prod.Lex.toLex_le_toLex.mp hle with hlt | ⟨heq, -⟩
    · simp [hq, Bool.lt_iff] at hlt
    · simpa [hq] using heq

theorem currentRun_open (hp : p ∈ rows) (hopen : p.2.isOpen = true)
    (hq : currentRun rows = some q) : q.2.isOpen = true :=
  isOpen_of_rank_le (rank_le_currentRun hq hp) hopen

structure WellDefined (ns wf : String) (rows : List (RunRef × WorkflowExecution)) : Prop where
  irrefl : ∀ p, moreCurrentRun p p = false
  trans : ∀ p q c, moreCurrentRun p q → moreCurrentRun q c → moreCurrentRun p c
  total : ∀ p ∈ rows, ∀ q ∈ rows, p ≠ q → moreCurrentRun p q ∨ moreCurrentRun q p
  /-- `DescribeWorkflow` returns it from every store that lists the rows, in whatever
  order. -/
  current : ∃ p ∈ rows, (∀ q ∈ rows, q ≠ p → moreCurrentRun p q) ∧
    (∀ (store : Handler Effect Effect.Answer World) (w : World) (rows' : List _),
      (store (.list (.rows ns wf)) w).1 = .ok rows' → rows'.Perm rows →
        ((describeWorkflow ⟨ns, wf, none⟩).run.run store w).1 = .ok (some p)) ∧
    ((∃ q ∈ rows, q.2.isOpen = true) → p.2.isOpen = true) ∧
    (p.2.status = .continuedAsNew → ∀ q ∈ rows, q.2.status = .continuedAsNew)

theorem current_run_well_defined (ns wf : String) (rows : List (RunRef × WorkflowExecution))
    (hrows : rows ≠ []) (hnodup : (rows.map fun p => p.1.run).Nodup) : WellDefined ns wf rows := by
  have hinj : ∀ p ∈ rows, ∀ q ∈ rows, rank p = rank q → p = q := fun p hp q hq h =>
    List.inj_on_of_nodup_map hnodup hp hq (run_eq_of_rank_eq h)
  refine ⟨fun p => ?_, fun p q c => ?_, fun p hp q hq hne => ?_, ?_⟩
  · rw [← Bool.not_eq_true, moreCurrentRun_iff]
    exact lt_irrefl _
  · simp only [moreCurrentRun_iff]
    exact fun h h' => h'.trans h
  · simp only [moreCurrentRun_iff]
    exact (lt_or_gt_of_ne fun h => hne (hinj p hp q hq h)).symm
  · obtain ⟨p, hp⟩ := exists_currentRun hrows
    refine ⟨p, currentRun_mem hp, fun q hq hne => ?_, fun store w rows' hlist hperm => ?_, ?_, ?_⟩
    · rw [moreCurrentRun_iff]
      exact (rank_le_currentRun hp hq).lt_of_ne fun h => hne (hinj q hq p (currentRun_mem hp) h)
    · have hne : rows' ≠ [] := by
        rintro rfl
        exact hrows hperm.nil_eq.symm
      obtain ⟨p', hp'⟩ := exists_currentRun hne
      have hmem := hperm.mem_iff.mp (currentRun_mem hp')
      have hle := rank_le_currentRun hp' (hperm.mem_iff.mpr (currentRun_mem hp))
      obtain rfl : p' = p :=
        hinj p' hmem p (currentRun_mem hp) (le_antisymm (rank_le_currentRun hp hmem) hle)
      change (Program.run store (Program.step (.list (.rows ns wf)) _) w).1 = _
      rw [Program.run_step, hlist]
      exact congrArg Except.ok hp'
    · rintro ⟨q, hq, hopen⟩
      exact currentRun_open hq hopen hp
    · exact fun hcan q hq => continued_of_rank_le (rank_le_currentRun hp hq) hcan

/-- A run that was continued as new, the run that followed it in the same second
and was completed, and an older run that is open. -/
def threeRuns : List (RunRef × WorkflowExecution) :=
  [(⟨"n", "wf", "a"⟩, { type := "T", taskQueue := "q", startTime := 5, status := .continuedAsNew }),
   (⟨"n", "wf", "b"⟩, { type := "T", taskQueue := "q", startTime := 5, status := .completed }),
   (⟨"n", "wf", "c"⟩, { type := "T", taskQueue := "q", startTime := 4 })]

theorem current_run_of_three :
    (currentRun threeRuns).map (fun p => p.1.run) = some "c" ∧ WellDefined "n" "wf" threeRuns :=
  ⟨by decide +kernel, current_run_well_defined "n" "wf" threeRuns (by simp [threeRuns]) (by decide)⟩

end Engine

end DurableTasks
