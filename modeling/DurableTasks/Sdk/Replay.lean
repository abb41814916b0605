import DurableTasks.Sdk.Decider
import Mathlib.Data.List.Forall2

/-!
Two episodes of one workflow function, the second on a history that extends the
first. The calls that return are the same in both as far as the first one gets,
unless a call looks at what is not in the history: whether an outcome is there yet,
or what the function of a side effect returns this time.
-/

namespace DurableTasks.Sdk

open Effects Temporal

variable {e e' : Env} {vals vals' : Nat → Except String Raw}

/-- The two episodes bind the same activity to each number, and side effects and
versions return the same at each call. -/
structure Stable (t t' : List Seen) : Prop where
  activities : ∀ (seq : Nat) (c c' : ActivityCall),
    (activities t)[seq]? = some c → (activities t')[seq]? = some c' →
      c.type = c'.type ∧ c.input = c'.input
  sideEffects : ∀ (i : Nat) (v v' : Except String Raw),
    t[i]? = some ⟨.sideEffect, v⟩ → t'[i]? = some ⟨.sideEffect, v'⟩ → v = v'
  versions : ∀ (i : Nat) (changeID : String) (minSupported maxSupported v v' : Int),
    t[i]? = some ⟨.getVersion changeID minSupported maxSupported, v⟩ →
      t'[i]? = some ⟨.getVersion changeID minSupported maxSupported, v'⟩ → v = v'

theorem getElem?_eq_of_isPrefix {α : Type} {t t' : List α} (h : t <+: t') {i : Nat} {x y : α}
    (hx : t[i]? = some x) (hy : t'[i]? = some y) : x = y := by
  obtain ⟨rest, rfl⟩ := h
  have hi : i < t.length := (List.getElem?_eq_some_iff.mp hx).1
  rw [List.getElem?_append_left hi, hx] at hy
  exact Option.some.inj hy

theorem Stable.of_isPrefix {t t' : List Seen} (h : t <+: t') : Stable t t' where
  activities := by
    intro seq c c' hc hc'
    have hcalls : Sdk.activities t <+: Sdk.activities t' := by
      obtain ⟨rest, rfl⟩ := h
      exact ⟨Sdk.activities rest, by simp [Sdk.activities]⟩
    rw [getElem?_eq_of_isPrefix hcalls hc hc']
    exact ⟨rfl, rfl⟩
  sideEffects := by
    intro i v v' hv hv'
    have hsame := getElem?_eq_of_isPrefix h hv hv'
    cases hsame
    rfl
  versions := by
    intro i changeID minSupported maxSupported v v' hv hv'
    have hsame := getElem?_eq_of_isPrefix h hv hv'
    cases hsame
    rfl

/-! ## The environment of the longer history -/

inductive Future.Later : Future → Future → Prop
  | settled (value : Except Error Json) : Later (.settled value) (.settled value)
  | blocked (f : Future) : Later .blocked f

structure Env.Later (e e' : Env) : Prop where
  nextSeq : e'.nextSeq = e.nextSeq
  futures : List.Forall₂ Future.Later e.futures e'.futures
  versions : e'.versions = e.versions
  sideEffects : e'.sideEffects = e.sideEffects
  sideEffectIdx : e'.sideEffectIdx = e.sideEffectIdx

theorem Env.Later.future (h : e.Later e') (f : Nat) :
    (e.futures[f]? = none ∧ e'.futures[f]? = none) ∨
      ∃ x x', e.futures[f]? = some x ∧ e'.futures[f]? = some x' ∧ x.Later x' := by
  have hlen := h.futures.length_eq
  by_cases hf : f < e.futures.length
  · have hf' : f < e'.futures.length := hlen ▸ hf
    right
    refine ⟨e.futures.get ⟨f, hf⟩, e'.futures.get ⟨f, hf'⟩, ?_, ?_, h.futures.get hf hf'⟩
    · simp
    · simp
  · left
    have hf' : ¬ f < e'.futures.length := hlen ▸ hf
    simp only [List.getElem?_eq_none_iff]
    omega

/-- An activity that can be asked for: its type has a name and its arguments are
written. -/
def ActivityCall.Askable (c : ActivityCall) : Prop :=
  c.type ≠ "" ∧ ∃ input, c.input = .ok input

/-- A call returns the same in both episodes as far as the history decides it: an
outcome stands once it is recorded, and only an activity that could be asked for
gets one; what is looked at without waiting is equally far in both; the function of
a side effect returns the same. -/
def Api.Steady (vals vals' : Nat → Except String Raw) (e e' : Env) : Api → Prop
  | .executeActivity c =>
    (∀ outcome, e.activityResults e.nextSeq = some outcome →
      e'.activityResults e.nextSeq = some outcome) ∧
    (e.activityResults e.nextSeq = none →
      e'.activityResults e.nextSeq ≠ none → c.Askable)
  | .get _ => True
  | .isReady f => e.ready f = e'.ready f
  | .select cases _ => e.readyIndex cases = e'.readyIndex cases
  | .sideEffect => vals e.sideEffectIdx = vals' e.sideEffectIdx
  | .getVersion _ _ _ => True

def Steady (vals vals' : Nat → Except String Raw) : Workflow → Env → Env → Prop
  | .done _, _, _ => True
  | .step a next, e, e' =>
    a.Steady vals vals' e e' ∧
      match e.call vals a, e'.call vals' a with
      | .answered r f, .answered _ f' => Steady vals vals' (next r) f f'
      | _, _ => True

theorem Env.Later.hand (h : e.Later e') {x x' : Future} (hx : x.Later x') :
    (e.hand x).1 = (e'.hand x').1 ∧ (e.hand x).2.Later (e'.hand x').2 := by
  refine ⟨h.nextSeq.symm, ?_, ?_, h.versions, h.sideEffects, h.sideEffectIdx⟩
  · simp [Env.hand, h.nextSeq]
  · exact List.rel_append h.futures (.cons hx .nil)

/-- A request changes none of what the two environments share. -/
theorem Env.request_shared (e : Env) (c : ActivityCall) (input : Raw) :
    (e.request c input).nextSeq = e.nextSeq ∧ (e.request c input).futures = e.futures ∧
      (e.request c input).versions = e.versions ∧
      (e.request c input).sideEffects = e.sideEffects ∧
      (e.request c input).sideEffectIdx = e.sideEffectIdx := by
  unfold Env.request
  split <;> exact ⟨rfl, rfl, rfl, rfl, rfl⟩

theorem Env.Later.request_left (h : e.Later e') (c : ActivityCall) (input : Raw) :
    (e.request c input).Later e' := by
  obtain ⟨hseq, hfutures, hversions, heffects, hidx⟩ := e.request_shared c input
  exact ⟨hseq ▸ h.nextSeq, hfutures ▸ h.futures, hversions ▸ h.versions,
    heffects ▸ h.sideEffects, hidx ▸ h.sideEffectIdx⟩

theorem Env.Later.request_right (h : e.Later e') (c : ActivityCall) (input : Raw) :
    e.Later (e'.request c input) := by
  obtain ⟨hseq, hfutures, hversions, heffects, hidx⟩ := e'.request_shared c input
  exact ⟨hseq.trans h.nextSeq, hfutures ▸ h.futures, hversions.trans h.versions,
    heffects.trans h.sideEffects, hidx.trans h.sideEffectIdx⟩

theorem Env.Later.executeActivity (h : e.Later e') {c : ActivityCall}
    (hsteady : (Api.executeActivity c).Steady vals vals' e e') :
    (e.executeActivity c).1 = (e'.executeActivity c).1 ∧
      (e.executeActivity c).2.Later (e'.executeActivity c).2 := by
  obtain ⟨hkept, hnew⟩ := hsteady
  simp only [Env.executeActivity, h.nextSeq]
  cases hresult : e.activityResults e.nextSeq with
  | some outcome =>
    rw [hkept outcome hresult]
    exact h.hand (.settled _)
  | none =>
    cases hresult' : e'.activityResults e.nextSeq with
    | some outcome =>
      -- The outcome came in between: the first episode asks, the second has it.
      obtain ⟨htype, input, hinput⟩ := hnew hresult (by simp [hresult'])
      simp only [htype, if_false, hinput]
      have hhand := (h.request_left c input).hand (.blocked (.settled outcome.value))
      exact hhand
    | none =>
      by_cases htype : c.type = ""
      · simp only [htype, if_true]
        exact h.hand (.settled _)
      · simp only [htype, if_false]
        cases c.input with
        | error err => exact h.hand (.settled _)
        | ok input => exact ((h.request_left c input).request_right c input).hand (.blocked _)

theorem Env.Later.sideEffect (h : e.Later e') (val : Except String Raw) :
    (e.sideEffect val).1 = (e'.sideEffect val).1 ∧
      (e.sideEffect val).2.Later (e'.sideEffect val).2 := by
  simp only [Env.sideEffect, h.sideEffects, h.sideEffectIdx]
  cases e.sideEffects[e.sideEffectIdx]? with
  | none => exact ⟨rfl, h.nextSeq, h.futures, h.versions, rfl, rfl⟩
  | some record => exact ⟨rfl, h.nextSeq, h.futures, h.versions, rfl, rfl⟩

theorem Env.Later.getVersion (h : e.Later e') (changeID : String)
    (minSupported maxSupported : Int) :
    (e.getVersion changeID minSupported maxSupported).1 =
        (e'.getVersion changeID minSupported maxSupported).1 ∧
      (e.getVersion changeID minSupported maxSupported).2.Later
        (e'.getVersion changeID minSupported maxSupported).2 := by
  simp only [Env.getVersion, h.versions]
  cases e.versions changeID with
  | none => exact ⟨rfl, h.nextSeq, h.futures, rfl, h.sideEffects, h.sideEffectIdx⟩
  | some v => exact ⟨rfl, h⟩

/-- A steady call that returns in the first episode returns the same in the second. -/
theorem Env.Later.call {f : Env} (h : e.Later e') {a : Api} (hsteady : a.Steady vals vals' e e')
    {r : a.Answer} (hcall : e.call vals a = .answered r f) :
    ∃ f', e'.call vals' a = .answered r f' ∧ f.Later f' := by
  cases a with
  | executeActivity c => grind [h.executeActivity, Env.call, Outcome.answered.injEq]
  | get n =>
    simp only [Env.call] at hcall ⊢
    rcases h.future n with ⟨hnone, -⟩ | ⟨x, x', hx, hx', hlater⟩
    · simp [hnone] at hcall
    · rw [hx] at hcall
      rw [hx']
      cases hlater with
      | blocked x' => cases hcall
      | settled value =>
        cases hcall
        exact ⟨e', rfl, h⟩
  | isReady n => grind [h.future, Api.Steady, Env.ready, Env.call]
  | select cases hasDefault =>
    simp only [Api.Steady] at hsteady
    simp only [Env.call, ← hsteady] at hcall ⊢
    cases hready : e.readyIndex cases with
    | some i =>
      rw [hready] at hcall
      cases hcall
      exact ⟨e', rfl, h⟩
    | none => grind
  | sideEffect =>
    grind [h.sideEffectIdx, h.sideEffect, Api.Steady, Env.call, Outcome.answered.injEq]
  | getVersion changeID minSupported maxSupported =>
    grind [h.getVersion, Env.call, Outcome.answered.injEq]

/-- What returned in the first episode returns again, in the same order, as long as
the calls are steady. -/
theorem trace_isPrefix (p : Workflow) (h : e.Later e') (hsteady : Steady vals vals' p e e') :
    trace vals p e <+: trace vals' p e' := by
  induction p generalizing e e' with
  | done res => exact List.prefix_rfl
  | step a next ih => grind [h.call, Steady, trace]

theorem ofHistory_later (taskQueue : String) (events events' : List HistoryEvent) :
    (Env.ofHistory taskQueue events).Later (.ofHistory taskQueue events') := by
  obtain ⟨hseq, -, hfutures, heffects, hidx, hversions⟩ := ofHistory_fresh taskQueue events
  obtain ⟨hseq', -, hfutures', heffects', hidx', hversions'⟩ := ofHistory_fresh taskQueue events'
  constructor
  · rw [hseq, hseq']
  · rw [hfutures, hfutures']
    exact .nil
  · rw [hversions, hversions']
  · rw [heffects, heffects']
  · rw [hidx, hidx']

/-- Replay on a longer history is stable if every call is steady. -/
theorem replay_stable (vals vals' : Nat → Except String Raw) (taskQueue : String)
    (p : Workflow) (events more : List HistoryEvent)
    (hsteady : Steady vals vals' p (.ofHistory taskQueue events)
      (.ofHistory taskQueue (events ++ more))) :
    Stable (trace vals p (.ofHistory taskQueue events))
      (trace vals' p (.ofHistory taskQueue (events ++ more))) :=
  .of_isPrefix (trace_isPrefix p (ofHistory_later taskQueue events (events ++ more)) hsteady)

def asked : List HistoryEvent :=
  [⟨1, 0, .workflowStarted "W" "q" .null⟩, ⟨2, 1, .activityScheduled 0 "r/0" "A" .null "q" none 1⟩]

def answered : List HistoryEvent :=
  [⟨3, 2, .activityStarted 0 "r/0" 1⟩, ⟨4, 3, .activityCompleted 0 "r/0" .null⟩]

def plain (type : String) : ActivityCall := { type, input := .ok (.ofJson "null" .null) }

def inTurn : Workflow := do
  let f ← Program.perform (.executeActivity (plain "A"))
  let _ ← Program.perform (.get f)
  let g ← Program.perform (.executeActivity (plain "B"))
  let _ ← Program.perform (.get g)
  pure (.ok .empty)

theorem replay_stable_inTurn :
    Steady (fun _ => .ok .empty) (fun _ => .ok .empty) inTurn (.ofHistory "q" asked)
        (.ofHistory "q" (asked ++ answered)) ∧
      Stable (trace (fun _ => .ok .empty) inTurn (.ofHistory "q" asked))
        (trace (fun _ => .ok .empty) inTurn (.ofHistory "q" (asked ++ answered))) := by
  have hsteady : Steady (fun _ => .ok .empty) (fun _ => .ok .empty) inTurn (.ofHistory "q" asked)
      (.ofHistory "q" (asked ++ answered)) := by
    refine ⟨⟨fun outcome h => ?_, fun _ _ => ⟨by decide, _, rfl⟩⟩, trivial, trivial⟩
    cases h
  exact ⟨hsteady, replay_stable _ _ "q" inTurn asked answered hsteady⟩

/-- Ask for an activity, look whether it is done, and go on by that. -/
def peek : Workflow := do
  let f ← Program.perform (.executeActivity (plain "A"))
  let done ← Program.perform (.isReady f)
  let _ ← Program.perform (.executeActivity (plain (if done then "B" else "C")))
  pure (.ok .empty)

def poll : Workflow := do
  let f ← Program.perform (.executeActivity (plain "A"))
  let fired ← Program.perform (.select [f] true)
  let _ ← Program.perform (.executeActivity (plain (if fired.isSome then "B" else "C")))
  pure (.ok .empty)

def roll : Workflow := do
  let _ ← Program.perform .sideEffect
  pure (.ok .empty)

/-- The next number goes to another activity once the first one is done, and a side
effect is made again by every episode. -/
theorem replay_not_stable :
    ¬ Stable (trace (fun _ => .ok .empty) peek (.ofHistory "q" asked))
        (trace (fun _ => .ok .empty) peek (.ofHistory "q" (asked ++ answered))) ∧
      ¬ Stable (trace (fun _ => .ok .empty) poll (.ofHistory "q" asked))
        (trace (fun _ => .ok .empty) poll (.ofHistory "q" (asked ++ answered))) ∧
      ¬ Stable (trace (fun _ => .ok (.ofJson "1" (.num 1))) roll (.ofHistory "q" asked))
        (trace (fun _ => .ok (.ofJson "2" (.num 2))) roll
          (.ofHistory "q" (asked ++ answered))) := by
  refine ⟨fun h => ?_, fun h => ?_, fun h => ?_⟩
  · have hsame := (h.activities 1 (plain "C") (plain "B") rfl rfl).1
    exact absurd hsame (by decide)
  · have hsame := (h.activities 1 (plain "C") (plain "B") rfl rfl).1
    exact absurd hsame (by decide)
  · have hsame := h.sideEffects 0 (.ok (.ofJson "1" (.num 1))) (.ok (.ofJson "2" (.num 2))) rfl rfl
    simp [Raw.ofJson] at hsame

end DurableTasks.Sdk
