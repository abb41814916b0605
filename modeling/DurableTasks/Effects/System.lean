import DurableTasks.Effects.Program

/-!
A process that runs operations one at a time over a world and may crash
between any two effects. A crash drops the running program, lets the world
forget what does not survive, and starts the recovery program. A policy says
which operations, effects and crash points a run is restricted to.
-/

namespace DurableTasks.Effects

variable {E : Type} {R : E → Type} {W O : Type}

/-- Operations, what they run, and what a crash does. `begin` is applied to the
world whenever a program starts. -/
structure System (E : Type) (R : E → Type) (W O : Type) where
  handler : Handler E R W
  program : O → Program E R Unit
  recover : Program E R Unit
  begin : W → W
  crash : W → W

structure Policy (E W O : Type) where
  op : W → O → Prop := fun _ _ => True
  effect : W → E → Prop := fun _ _ => True
  crash : W → Prop := fun _ => True

structure Config (E : Type) (R : E → Type) (W : Type) where
  world : W
  code : Program E R Unit

namespace System

inductive Step (S : System E R W O) (P : Policy E W O) :
    Config E R W → Config E R W → Prop
  | start {w} (o : O) : P.op w o → Step S P ⟨w, .done ()⟩ ⟨S.begin w, S.program o⟩
  | effect {w} (e : E) (next : R e → Program E R Unit) : P.effect w e →
      Step S P ⟨w, .step e next⟩ ⟨(S.handler e w).2, next (S.handler e w).1⟩
  | crash {w} (code : Program E R Unit) : P.crash w →
      Step S P ⟨w, code⟩ ⟨S.begin (S.crash w), S.recover⟩

abbrev Reaches (S : System E R W O) (P : Policy E W O) :
    Config E R W → Config E R W → Prop :=
  Relation.ReflTransGen (S.Step P)

/-- `Reachable P w c`: a process that starts idle on `w` can be in `c`. -/
def Reachable (S : System E R W O) (P : Policy E W O) (w : W) (c : Config E R W) : Prop :=
  S.Reaches P ⟨w, .done ()⟩ c

/-- What has to be shown for `Inv` to hold between any two effects of any run:
every program keeps to the guarantee `G` and ends settled, and `Inv` survives
whatever `G` allows. -/
structure Proof (S : System E R W O) (P : Policy E W O) (G : W → E → Prop)
  (Settled Inv : W → Prop) : Prop where
  program : ∀ w o, Inv w → Settled w → P.op w o →
    (S.program o).wp S.handler P.effect G (fun _ => Settled) (S.begin w)
  recover : ∀ w, Inv w → P.crash w →
    S.recover.wp S.handler P.effect G (fun _ => Settled) (S.begin (S.crash w))
  begin : ∀ w, Inv w → Settled w → Inv (S.begin w)
  crash : ∀ w, Inv w → P.crash w → Inv (S.begin (S.crash w))
  effect : ∀ w e, Inv w → G w e → P.effect w e → Inv (S.handler e w).2

variable {S : System E R W O} {P : Policy E W O} {G : W → E → Prop} {Settled Inv : W → Prop}

/-- The state carried along a run: the invariant, and what is left to run still
keeps to the guarantee. -/
def Proof.Holds (_ : Proof S P G Settled Inv) (c : Config E R W) : Prop :=
  Inv c.world ∧ c.code.wp S.handler P.effect G (fun _ => Settled) c.world

theorem Proof.holds_step (hp : Proof S P G Settled Inv) {c c' : Config E R W}
    (hc : hp.Holds c) (hs : S.Step P c c') : hp.Holds c' := by
  obtain ⟨hinv, hwp⟩ := hc
  cases hs with
  | start o ho => exact ⟨hp.begin _ hinv hwp, hp.program _ o hinv hwp ho⟩
  | effect e next he => exact ⟨hp.effect _ e hinv (hwp he).1 he, (hwp he).2⟩
  | crash code hcrash => exact ⟨hp.crash _ hinv hcrash, hp.recover _ hinv hcrash⟩

theorem Proof.holds_reaches (hp : Proof S P G Settled Inv) {c c' : Config E R W}
    (hc : hp.Holds c) (hr : S.Reaches P c c') : hp.Holds c' := by
  induction hr with
  | refl => exact hc
  | tail _ hs ih => exact hp.holds_step ih hs

/-- The invariant rule. -/
theorem Proof.invariant (hp : Proof S P G Settled Inv) {w : W} {c : Config E R W}
    (hinv : Inv w) (hset : Settled w) (hr : S.Reachable P w c) : Inv c.world := by
  have hidle : hp.Holds ⟨w, .done ()⟩ := ⟨hinv, hset⟩
  exact (hp.holds_reaches hidle hr).1

theorem Proof.settled (hp : Proof S P G Settled Inv) {w w' : W} (hinv : Inv w) (hset : Settled w)
    (hr : S.Reachable P w ⟨w', .done ()⟩) : Settled w' := by
  have hidle : hp.Holds ⟨w, .done ()⟩ := ⟨hinv, hset⟩
  exact (hp.holds_reaches hidle hr).2

/-- Where a step of a run goes: a program starts, an effect that meets the
guarantee is performed, or a crash falls. The invariant holds before it. -/
theorem Proof.step_cases (hp : Proof S P G Settled Inv) {w : W} {c c' : Config E R W}
    (hinv : Inv w) (hset : Settled w) (hr : S.Reachable P w c) (hs : S.Step P c c') :
    Inv c.world ∧ (c'.world = S.begin c.world ∨ c'.world = S.begin (S.crash c.world) ∨
      ∃ e, P.effect c.world e ∧ G c.world e ∧ c'.world = (S.handler e c.world).2) := by
  have hidle : hp.Holds ⟨w, .done ()⟩ := ⟨hinv, hset⟩
  obtain ⟨hc, hwp⟩ := hp.holds_reaches hidle hr
  refine ⟨hc, ?_⟩
  cases hs with
  | start o ho => exact .inl rfl
  | effect e next he => exact .inr (.inr ⟨e, he, (hwp he).1, rfl⟩)
  | crash code hcrash => exact .inr (.inl rfl)

/-- Running a program to its end is a sequence of transitions, when the policy
allows all its effects. -/
theorem reaches_run (S : System E R W O) (P : Policy E W O) {ok : E → Bool}
    (hok : ∀ w e, ok e = true → P.effect w e) (p : Program E R Unit) (w : W)
    (hp : p.performs S.handler ok w = true) :
    S.Reaches P ⟨w, p⟩ ⟨(p.run S.handler w).2, .done ()⟩ := by
  induction p generalizing w with
  | done a => exact .refl
  | step e next ih =>
    obtain ⟨he, hnext⟩ := Bool.and_eq_true_iff.mp hp
    exact .head (.effect e next (hok w e he)) (ih _ _ hnext)

/-- An operation whose effects the policy allows, run to its end. -/
theorem reaches_whole (S : System E R W O) (P : Policy E W O) {o : O} {w : W} (ho : P.op w o)
    (hp : (S.program o).Meets S.handler P.effect (S.begin w)) :
    S.Reaches P ⟨w, .done ()⟩ ⟨((S.program o).run S.handler (S.begin w)).2, .done ()⟩ := by
  refine .head (.start o ho) ?_
  generalize S.begin w = w at hp
  generalize S.program o = p at hp
  induction p generalizing w with
  | done a => exact .refl
  | step e next ih => exact .head (.effect e next hp.1) (ih _ _ hp.2)

/-- The first effects of a program are a sequence of transitions. -/
theorem reaches_after (S : System E R W O) (P : Policy E W O) {ok : E → Bool}
    (hok : ∀ w e, ok e = true → P.effect w e) (n : Nat) (p : Program E R Unit) (w : W)
    (hp : p.performs S.handler ok w = true) :
    ∃ rest, S.Reaches P ⟨w, p⟩ ⟨p.after S.handler n w, rest⟩ := by
  induction n generalizing p w with
  | zero => exact ⟨p, .refl⟩
  | succ n ih =>
    cases p with
    | done a => exact ⟨.done a, .refl⟩
    | step e next =>
      obtain ⟨he, hnext⟩ := Bool.and_eq_true_iff.mp hp
      obtain ⟨rest, hrest⟩ := ih _ _ hnext
      exact ⟨rest, .head (.effect e next (hok w e he)) hrest⟩

/-- An operation run to its end, or cut by a crash after its first effects, with
the recovery that follows run to its end. -/
inductive Turn (O : Type) where
  | whole (o : O)
  | cut (o : O) (n : Nat)

def turn (S : System E R W O) : Turn O → W → W
  | .whole o, w => ((S.program o).run S.handler (S.begin w)).2
  | .cut o n, w =>
    (S.recover.run S.handler
      (S.begin (S.crash ((S.program o).after S.handler n (S.begin w))))).2

def turns (S : System E R W O) : List (Turn O) → W → W
  | [], w => w
  | t :: ts, w => S.turns ts (S.turn t w)

/-- A turn a policy permits, with effects that pass `ok`. -/
def Permits (S : System E R W O) (P : Policy E W O) (ok : E → Bool) (w : W) : Turn O → Prop
  | .whole o => P.op w o ∧ (S.program o).performs S.handler ok (S.begin w) = true
  | .cut o n =>
    let w' := (S.program o).after S.handler n (S.begin w)
    P.op w o ∧ (S.program o).performs S.handler ok (S.begin w) = true ∧ P.crash w' ∧
      S.recover.performs S.handler ok (S.begin (S.crash w')) = true

def PermitsAll (S : System E R W O) (P : Policy E W O) (ok : E → Bool) : List (Turn O) → W → Prop
  | [], _ => True
  | t :: ts, w => S.Permits P ok w t ∧ S.PermitsAll P ok ts (S.turn t w)

/-- Turns that are permitted make a run of the process. -/
theorem reachable_turns (S : System E R W O) (P : Policy E W O) {ok : E → Bool}
    (hok : ∀ w e, ok e = true → P.effect w e) (ts : List (Turn O)) (w : W)
    (hts : S.PermitsAll P ok ts w) : S.Reachable P w ⟨S.turns ts w, .done ()⟩ := by
  have hturn : ∀ t w, S.Permits P ok w t → S.Reaches P ⟨w, .done ()⟩ ⟨S.turn t w, .done ()⟩ := by
    intro t w ht
    cases t with
    | whole o => exact .head (.start o ht.1) (S.reaches_run P hok _ _ ht.2)
    | cut o n =>
      obtain ⟨ho, hrun, hcrash, hrec⟩ := ht
      obtain ⟨rest, hrest⟩ := S.reaches_after P hok n _ _ hrun
      refine .head (.start o ho) (hrest.trans (.head (.crash rest hcrash) ?_))
      exact S.reaches_run P hok _ _ hrec
  induction ts generalizing w with
  | nil => exact .refl
  | cons t ts ih => exact (hturn t w hts.1).trans (ih _ hts.2)

end System

end DurableTasks.Effects
