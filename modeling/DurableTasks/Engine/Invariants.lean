import DurableTasks.Engine.Recovery

/-!
How an invariant of the engine is proved: check it against the writes the
discipline allows, against the start of an operation and against a crash. The
invariant rule for processes then gives it between any two accesses of any run.
-/

namespace DurableTasks

open Effects Engine

variable {L : Licence} {A : World → Prop}

/-- The part of the world an invariant of the store is about. -/
def World.SameDurable (w w' : World) : Prop :=
  w'.store = w.store ∧ w'.window = w.window ∧ w'.closings = w.closings

structure World.Fresh (w : World) : Prop where
  store : w.store = {}
  window : w.window = .settled
  closings : w.closings = []

/-- An access that is not a write changes nothing durable. -/
theorem handler_sameDurable {e : Effect} (w : World) (he : ∀ x, e ≠ .write x) :
    w.SameDurable (handler e w).2 := by
  cases e with
  | write x => exact absurd rfl (he x)
  | _ => exact ⟨rfl, rfl, rfl⟩

/-- Events are stored under their ids whatever is written. -/
theorem Store.Keyed.write {s : Store} {win : Window} {x : Write} (h : s.Keyed)
    (hx : Allowed L s win x) : (s.apply x).Keyed := by
  intro r id ev hev
  rcases Store.get_apply_some hev with hev | rfl
  · exact h r id ev hev
  · cases hx with
    | append stored admits numbered => exact ⟨numbered, Nat.le_add_left 1 _⟩
    | copy stored running beyond recordless following numbered copied =>
      exact ⟨numbered, Nat.one_le_of_lt beyond⟩

/-- `Inv` survives whatever a run under `P` can do, given the discipline `L`. -/
structure Inductive (L : Licence) (P : Policy Effect World Operation) (Inv : World → Prop) :
    Prop where
  frame : ∀ w w', w.SameDurable w' → Inv w → Inv w'
  write : ∀ w x, Inv w → L.guard w x → P.effect w (.write x) → Inv (w.write x)
  begin : ∀ w, Inv w → w.AtRest → Inv w.begin
  crash : ∀ w, Inv w → P.crash w → Inv w.crash.begin

/-- A policy under which the discipline `L` is kept: calls are admitted, they
close runs with events of `L`, and the ids drawn are as fresh as `L` asks. -/
structure Conforms (L : Licence) (P : Policy Effect World Operation) : Prop where
  op : ∀ w o, P.op w o → o.Admitted L w.store
  closes : ∀ w o, P.op w o → ∀ r attrs, o.Closes w r attrs → L.closes r attrs
  draws : L.Draws fun w => P.effect w .newRunId

/-- The runs the discipline `L` covers, with crashes where `crash` allows
them. -/
def Licence.policy (L : Licence) (crash : World → Prop) : Policy Effect World Operation where
  op w o := o.Admitted L w.store
  effect := onDraw fun w => ∀ ns wf, w.store.get (.wf ⟨ns, wf, w.nextId⟩) = none ∧
    L.fresh.Holds w.store ⟨ns, wf, w.nextId⟩
  crash := crash

/-- Anything the engine's own callers may do: a start over a stored run id and a
reset of a closed run included. -/
def Licence.lenient : Licence := { fresh := .any, reclose := True }

theorem Licence.conforms (L : Licence) (crash : World → Prop) (hL : ∀ r attrs, L.closes r attrs) :
    Conforms L (L.policy crash) :=
  ⟨fun _ _ h => h, fun _ _ _ r attrs _ => hL r attrs, fun _ h => h⟩

theorem Operation.admitted_of_any {o : Operation} (hfresh : L.fresh = .any) (hreclose : L.reclose)
    (s : Store) : o.Admitted L s := by
  cases o with
  | start a | signalWithStart a _ _ =>
    intro run _ wf _
    rw [hfresh]
    trivial
  | reset t eventID reason identity => exact .inl hreclose
  | _ => trivial

/-- The invariant together with what every invariant rests on. -/
def Rooted (Inv : World → Prop) (w : World) : Prop := w.store.Keyed ∧ Inv w

theorem Inductive.proof {P : Policy Effect World Operation} {Inv : World → Prop}
    (h : Inductive L P Inv) (hP : Conforms L P) (fuel : Nat) :
    (system fuel).Proof P (onWrite L.guard) World.AtRest (Rooted Inv) where
  program w o hinv _ ho := by
    refine Program.wp_weaken ?_ (fun _ _ hg => hg) _
      (program_conduct hP.draws fuel hinv.1 (hP.op w o ho) (hP.closes w o ho))
    intro w e he
    cases e with
    | newRunId => exact he
    | _ => trivial
  recover w _ _ := by
    refine Program.wp_weaken ?_ (fun _ _ hg => hg) _
      (recover_conduct (A := fun _ => True) fuel w.crash)
    intro w e _
    cases e <;> trivial
  begin w hinv hset := ⟨hinv.1, h.begin w hinv.2 hset⟩
  crash w hinv hc := ⟨hinv.1, h.crash w hinv.2 hc⟩
  effect w e hinv hg he := by
    by_cases hw : ∃ x, e = .write x
    · obtain ⟨x, rfl⟩ := hw
      exact ⟨hinv.1.write hg, h.write w x hinv.2 hg he⟩
    · have hsame := handler_sameDurable (e := e) w fun x hx => hw ⟨x, hx⟩
      refine ⟨?_, h.frame w _ hsame hinv.2⟩
      rw [Store.Keyed, show ((system fuel).handler e w).2.store = w.store from hsame.1]
      exact hinv.1

theorem World.Fresh.keyed {w : World} (h : w.Fresh) : w.store.Keyed := by
  intro r id ev hev
  rw [h.store, Store.get_empty] at hev
  cases hev

section Run

variable {P : Policy Effect World Operation} {Inv : World → Prop} {fuel : Nat} {w : World}
  {c c' : Config Effect Effect.Answer World}

theorem Inductive.reachable (h : Inductive L P Inv) (hP : Conforms L P) (hkeyed : w.store.Keyed)
    (hinv : Inv w) (hrest : w.AtRest) (hr : (system fuel).Reachable P w c) : Inv c.world :=
  ((h.proof hP fuel).invariant ⟨hkeyed, hinv⟩ hrest hr).2

theorem Inductive.idle {w' : World} (h : Inductive L P Inv) (hP : Conforms L P)
    (hkeyed : w.store.Keyed) (hinv : Inv w) (hrest : w.AtRest)
    (hr : (system fuel).Reachable P w ⟨w', .done ()⟩) : Inv w' ∧ w'.AtRest :=
  ⟨h.reachable hP hkeyed hinv hrest hr, (h.proof hP fuel).settled ⟨hkeyed, hinv⟩ hrest hr⟩

/-- A step of a run changes the store by a write the discipline allows, or not
at all. -/
theorem Inductive.step (h : Inductive L P Inv) (hP : Conforms L P)
    (hkeyed : w.store.Keyed) (hinv : Inv w) (hrest : w.AtRest)
    (hr : (system fuel).Reachable P w c) (hs : (system fuel).Step P c c') :
    Inv c.world ∧ (c'.world.store = c.world.store ∨
      ∃ x, L.guard c.world x ∧ P.effect c.world (.write x) ∧
        c'.world.store = c.world.store.apply x) := by
  obtain ⟨hc, hstep⟩ := (h.proof hP fuel).step_cases ⟨hkeyed, hinv⟩ hrest hr hs
  refine ⟨hc.2, ?_⟩
  rcases hstep with heq | heq | ⟨e, he, hg, heq⟩
  · exact .inl (by rw [heq]; rfl)
  · exact .inl (by rw [heq]; rfl)
  · by_cases hw : ∃ x, e = .write x
    · obtain ⟨x, rfl⟩ := hw
      exact .inr ⟨x, hg, he, by rw [heq]; rfl⟩
    · refine .inl ?_
      rw [heq]
      exact (handler_sameDurable (e := e) c.world fun x hx => hw ⟨x, hx⟩).1

end Run

theorem emptyShard_fresh : emptyShard.Fresh := ⟨rfl, rfl, rfl⟩

/-- Whether no run has the id that is drawn next. -/
def World.nextUnused (w : World) : Bool := w.store.runs.toList.all fun p => p.1.run ≠ w.nextId

theorem World.get_nextId {w : World} (h : w.nextUnused = true) (ns wf : String) :
    w.store.get (.wf ⟨ns, wf, w.nextId⟩) = none := by
  simp only [nextUnused, List.all_eq_true, decide_eq_true_eq] at h
  cases hd : w.store.runs[(⟨ns, wf, w.nextId⟩ : RunRef)]? with
  | none => simp [Store.get, Store.run, Std.TreeMap.getD_eq_getD_getElem?, hd]
  | some d => exact absurd rfl (h (_, d) (Std.TreeMap.mem_toList_iff_getElem?_eq_some.mpr hd))

theorem policy_notDraw (L : Licence) (crash : World → Prop) (w : World) (e : Effect)
    (he : notDraw e = true) : (L.policy crash).effect w e := by
  cases e <;> trivial

end DurableTasks
