import DurableTasks.Model.Types
import Mathlib.Order.Basic
import Mathlib.Tactic.SplitIfs

/-!
Schedules, and the time of their next fire. Times are in nanoseconds, and whole
seconds where they are stored as RFC 3339 texts.
-/

namespace DurableTasks

/-- What schedules use of the libraries: the crontab parser with the `Next` of
what it parses, where `none` is the zero time, `time.ParseDuration`, and the text
of a time in seconds. -/
structure Calendar where
  parseCron : String → Option (Int → Option Int)
  parseDuration : String → Option Int
  format : Int → String

structure ScheduleSpec where
  cronString : List String := []
  interval : List String := []

variable {cal : Calendar} {spec : ScheduleSpec}

structure ScheduleAction where
  workflowType : String
  taskQueue : String := ""
  input : Json := .null

structure ScheduleState where
  paused : Bool := false
  note : String := ""

/-- `ScheduleInfo`. A time is `none` where its text is not one. -/
structure ScheduleInfo where
  createTime : Option Int := none
  updateTime : Option Int := none
  actionCount : Int := 0
  nextActionTime : Option Int := none

/-- A schedule's row, without its namespace and id, which are its key. -/
structure Schedule where
  spec : ScheduleSpec := {}
  action : ScheduleAction
  state : ScheduleState := {}
  info : ScheduleInfo := {}

namespace Schedules

def second : Int := 1000000000

/-- A time as an RFC 3339 text keeps it. -/
def seconds (t : Int) : Int := t / second

/-- `anchorTime`: the last update if there was one, or else the creation. -/
def anchorTime (s : Schedule) (fallback : Int) : Int :=
  match s.info.updateTime <|> s.info.createTime with
  | some t => t * second
  | none => fallback

/-- One turn of the loops of `nextScheduleFire`. The zero time is before every
other, and is replaced by any. -/
def earlier : Option Int → Option Int → Option Int
  | none, t => t
  | some _, none => none
  | some e, some t => if t < e then some t else some e

/-- The fires the loops of `nextScheduleFire` go over. -/
def candidates (cal : Calendar) (spec : ScheduleSpec) (after : Int) : List (Option Int) :=
  (spec.cronString.filterMap fun cs => (cal.parseCron cs).map fun next => next after) ++
    spec.interval.filterMap fun iv =>
      (cal.parseDuration iv).bind fun d => if d ≤ 0 then none else some (some (after + d))

def nextScheduleFire (cal : Calendar) (spec : ScheduleSpec) (after : Int) : Option Int :=
  (candidates cal spec after).foldl earlier none

/-! ## The earliest fire -/

section Earliest

variable {l : List (Option Int)} {acc : Option Int} {t u : Int}

theorem foldl_earlier_mem (h : l.foldl earlier acc = some u) : acc = some u ∨ some u ∈ l := by
  induction l generalizing acc with
  | nil => exact .inl h
  | cons c l ih =>
    rw [List.foldl_cons] at h
    rcases ih h with hacc | hmem
    · cases acc with
      | none => exact .inr (by rw [← hacc]; exact List.mem_cons_self)
      | some e =>
        cases c with
        | none => cases hacc
        | some t => grind [earlier]
    · exact .inr (List.mem_cons_of_mem c hmem)

/-- Where no candidate is the zero time, the loops find the least one. -/
theorem foldl_earlier_le (hl : ∀ c ∈ l, c ≠ none) (h : acc = some t ∨ some t ∈ l) :
    ∃ u, l.foldl earlier acc = some u ∧ u ≤ t := by
  induction l generalizing acc t with
  | nil => exact ⟨t, h.resolve_right (by simp), Int.le_refl t⟩
  | cons c l ih =>
    obtain ⟨v, rfl⟩ := Option.ne_none_iff_exists'.mp (hl c List.mem_cons_self)
    have hrest : ∀ c ∈ l, c ≠ none := fun c hc => hl c (List.mem_cons_of_mem _ hc)
    have hstep : ∃ u, earlier acc (some v) = some u ∧ u ≤ v ∧ ∀ e, acc = some e → u ≤ e := by
      cases acc with
      | none => exact ⟨v, rfl, Int.le_refl v, fun e he => by cases he⟩
      | some e => grind [earlier]
    obtain ⟨w, hw, hwv, hwe⟩ := hstep
    rw [List.foldl_cons]
    rcases h with hacc | hmem
    · obtain ⟨u, hu, hle⟩ := ih (t := w) hrest (.inl hw)
      exact ⟨u, hu, Int.le_trans hle (hwe t hacc)⟩
    · rcases List.mem_cons.mp hmem with heq | hmem
      · obtain rfl := Option.some.inj heq
        obtain ⟨u, hu, hle⟩ := ih (t := w) hrest (.inl hw)
        exact ⟨u, hu, Int.le_trans hle hwv⟩
      · exact ih hrest (.inr hmem)

/-- `r` is the earliest of the fires, where the zero time is none. -/
def Least (l : List (Option Int)) : Option Int → Prop
  | some u => some u ∈ l ∧ ∀ t, some t ∈ l → u ≤ t
  | none => ∀ t, some t ∉ l

/-- After every zero time comes a fire that is no later than those before it. -/
def Settled (l : List (Option Int)) : Prop :=
  ∀ l₁ l₂, l = l₁ ++ none :: l₂ → ∀ t, some t ∈ l₁ → ∃ u ≤ t, some u ∈ l₂

theorem earlier_none (acc : Option Int) : earlier acc none = none := by
  cases acc <;> rfl

theorem least_foldl (hl : none ∉ l) : Least l (l.foldl earlier none) := by
  have hsome : ∀ c ∈ l, c ≠ none := fun c hc hnone => hl (hnone ▸ hc)
  cases hr : l.foldl earlier none with
  | some u =>
    refine ⟨(foldl_earlier_mem hr).resolve_left (by simp), fun t ht => ?_⟩
    obtain ⟨v, hv, hle⟩ := foldl_earlier_le hsome (.inr ht)
    obtain rfl := Option.some.inj (hr.symm.trans hv)
    exact hle
  | none =>
    intro t ht
    obtain ⟨v, hv, -⟩ := foldl_earlier_le hsome (.inr ht)
    rw [hr] at hv
    cases hv

/-- The loops forget what they found when they meet a zero time: they are right if
what follows the last one makes up for it. -/
theorem least_foldl_iff : Least l (l.foldl earlier none) ↔ Settled l := by
  by_cases hnone : none ∈ l
  · obtain ⟨m₂, m₁, hm, hlast⟩ := List.eq_append_cons_of_mem (List.mem_reverse.mpr hnone)
    obtain ⟨l₁, l₂, rfl, hlast⟩ : ∃ l₁ l₂, l = l₁ ++ none :: l₂ ∧ none ∉ l₂ := by
      refine ⟨m₁.reverse, m₂.reverse, ?_, by rwa [List.mem_reverse]⟩
      simpa using congrArg List.reverse hm
    have hleast := least_foldl hlast
    rw [List.foldl_append, List.foldl_cons, earlier_none]
    generalize l₂.foldl earlier none = r at hleast
    constructor
    · intro h m₁ m₂ hm t ht
      have htl : some t ∈ l₁ ++ none :: l₂ := by
        rw [hm]
        exact List.mem_append_left _ ht
      cases r with
      | none => exact absurd htl (h t)
      | some u =>
        refine ⟨u, h.2 t htl, ?_⟩
        -- what follows the last zero time follows this one
        have hsub : l₂ <:+ none :: m₂ := by
          have hl₂ : l₂ <:+ l₁ ++ none :: l₂ :=
            (List.suffix_cons none l₂).trans (List.suffix_append l₁ _)
          have hm₂ : none :: m₂ <:+ l₁ ++ none :: l₂ := hm ▸ List.suffix_append m₁ _
          refine (List.suffix_or_suffix_of_suffix hl₂ hm₂).resolve_right fun hsub => ?_
          exact hlast (hsub.subset List.mem_cons_self)
        exact (List.mem_cons.mp (hsub.subset hleast.1)).resolve_left (by simp)
    · intro hsettled
      have hmem : ∀ t, some t ∈ l₁ ++ none :: l₂ → ∃ u ≤ t, some u ∈ l₂ := by
        intro t ht
        rcases List.mem_append.mp ht with ht | ht
        · exact hsettled l₁ l₂ rfl t ht
        · exact ⟨t, Int.le_refl t, (List.mem_cons.mp ht).resolve_left (by simp)⟩
      cases r with
      | none =>
        intro t ht
        obtain ⟨u, -, hu⟩ := hmem t ht
        exact hleast u hu
      | some u =>
        refine ⟨List.mem_append_right _ (List.mem_cons_of_mem _ hleast.1), fun t ht => ?_⟩
        obtain ⟨v, hle, hv⟩ := hmem t ht
        exact Int.le_trans (hleast.2 v hv) hle
  · refine iff_of_true (least_foldl hnone) fun l₁ l₂ hl => ?_
    exact absurd (by rw [hl]; simp) hnone

end Earliest

/-! ## What is asked of the libraries and of specs -/

/-- `Next` of a time is a whole second after it. -/
def WholeSeconds (cal : Calendar) : Prop :=
  ∀ cs next, cal.parseCron cs = some next → ∀ t, ∃ u, next t = some u ∧ t < u ∧ second ∣ u

/-- The intervals of a spec are at least a second long. -/
def Unhurried (cal : Calendar) (spec : ScheduleSpec) : Prop :=
  ∀ iv ∈ spec.interval, ∀ d, cal.parseDuration iv = some d → 0 < d → second ≤ d

/-- For the crontabs of a spec, `Next` of a time, if it is not the zero time, is
the first tick after it, and ticks are whole seconds. The ticks of an `@every`
descriptor are counted from the time it is given, so it is not of this kind. -/
def FirstAfter (cal : Calendar) (spec : ScheduleSpec) : Prop :=
  ∀ cs ∈ spec.cronString, ∀ next, cal.parseCron cs = some next → ∀ t u, next t = some u →
    t < u ∧ second ∣ u ∧ ∀ t' T, next t' = some T → t < T → u ≤ T

/-- The crontabs of a spec never run out of ticks. -/
def Endless (cal : Calendar) (spec : ScheduleSpec) : Prop :=
  ∀ cs ∈ spec.cronString, ∀ next, cal.parseCron cs = some next → ∀ t, next t ≠ none

def Tick (cal : Calendar) (spec : ScheduleSpec) (T : Int) : Prop :=
  ∃ cs ∈ spec.cronString, ∃ next, cal.parseCron cs = some next ∧ ∃ t, next t = some T

theorem next_of_mem {after u : Int} (h : nextScheduleFire cal spec after = some u) :
    some u ∈ candidates cal spec after :=
  (foldl_earlier_mem h).resolve_left (by simp)

theorem mem_candidates {after : Int} {c : Option Int} :
    c ∈ candidates cal spec after ↔
      (∃ cs ∈ spec.cronString, ∃ next, cal.parseCron cs = some next ∧ c = next after) ∨
      ∃ iv ∈ spec.interval, ∃ d, cal.parseDuration iv = some d ∧ 0 < d ∧ c = some (after + d) := by
  simp only [candidates, List.mem_append, List.mem_filterMap, Option.map_eq_some_iff,
    Option.bind_eq_some_iff]
  refine or_congr ?_ ?_
  · simp only [eq_comm]
  · grind

/-- A fire comes a second after a whole second at the earliest. -/
theorem second_le_next (hcal : WholeSeconds cal) (hspec : Unhurried cal spec) {k u : Int}
    (h : nextScheduleFire cal spec (k * second) = some u) : (k + 1) * second ≤ u := by
  rcases mem_candidates.mp (next_of_mem h) with
    ⟨cs, -, next, hnext, hu⟩ | ⟨iv, hiv, d, hd, hpos, hu⟩
  · obtain ⟨v, hv, hlt, m, rfl⟩ := hcal cs next hnext (k * second)
    obtain rfl := Option.some.inj (hu.trans hv)
    simp only [second] at hlt ⊢
    omega
  · obtain rfl := Option.some.inj hu
    have hle := hspec iv hiv d hd hpos
    simp only [second] at hle ⊢
    omega

/-- The next fire is no later than a tick that is still to come. -/
theorem next_le_tick (hcal : FirstAfter cal spec) (hspec : Endless cal spec) {after T : Int}
    (hT : Tick cal spec T) (hafter : after < T) :
    ∃ u, nextScheduleFire cal spec after = some u ∧ u ≤ T := by
  obtain ⟨cs, hcs, next, hnext, t, ht⟩ := hT
  obtain ⟨v, hv⟩ := Option.ne_none_iff_exists'.mp (hspec cs hcs next hnext after)
  have hle : v ≤ T := (hcal cs hcs next hnext after v hv).2.2 t T ht hafter
  have hmem : some v ∈ candidates cal spec after :=
    mem_candidates.mpr (.inl ⟨cs, hcs, next, hnext, hv.symm⟩)
  have hnone : ∀ c ∈ candidates cal spec after, c ≠ none := by
    intro c hc
    rcases mem_candidates.mp hc with ⟨cs', hcs', next', hnext', rfl⟩ | ⟨iv, -, d, -, -, rfl⟩
    · exact hspec cs' hcs' next' hnext' after
    · simp
  obtain ⟨u, hu, huv⟩ := foldl_earlier_le hnone (.inr hmem)
  exact ⟨u, hu, Int.le_trans huv hle⟩

end Schedules

end DurableTasks
