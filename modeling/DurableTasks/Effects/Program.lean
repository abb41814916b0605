import Mathlib.Logic.Relation

/-!
Programs as trees of effects. A program either returns or performs one effect
and continues with its answer, so the points between two effects are visible:
a crash can cut a program there and another program can run there. A handler
gives every effect its meaning on a world.
-/

namespace DurableTasks.Effects

/-- A program over effects `E`, where effect `e` is answered in `R e`. -/
inductive Program (E : Type) (R : E → Type) (α : Type) : Type
  | done (a : α)
  | step (e : E) (next : R e → Program E R α)

/-- What an effect answers and does to the world. -/
abbrev Handler (E : Type) (R : E → Type) (W : Type) := (e : E) → W → R e × W

namespace Program

variable {E : Type} {R : E → Type} {W α β γ : Type}

def perform (e : E) : Program E R (R e) :=
  .step e .done

def bind : Program E R α → (α → Program E R β) → Program E R β
  | .done a, f => f a
  | .step e next, f => .step e fun r => (next r).bind f

instance : Monad (Program E R) where
  pure := .done
  bind := bind

@[simp] theorem pure_eq (a : α) : (pure a : Program E R α) = .done a := rfl

@[simp] theorem done_bind (a : α) (f : α → Program E R β) : (done a >>= f) = f a := rfl

@[simp] theorem step_bind (e : E) (next : R e → Program E R α) (f : α → Program E R β) :
    (step e next >>= f) = step e fun r => next r >>= f := rfl

theorem bind_done (p : Program E R α) : (p >>= done) = p := by
  induction p with
  | done a => rfl
  | step e next ih =>
    rw [step_bind]
    exact congrArg (step e) (funext ih)

theorem bind_assoc (p : Program E R α) (f : α → Program E R β) (g : β → Program E R γ) :
    (p >>= f >>= g) = (p >>= fun a => f a >>= g) := by
  induction p with
  | done a => rfl
  | step e next ih =>
    simp only [step_bind]
    exact congrArg (step e) (funext ih)

instance : LawfulMonad (Program E R) :=
  LawfulMonad.mk' (Program E R) bind_done (fun _ _ => rfl) bind_assoc

def run (h : Handler E R W) : Program E R α → W → α × W
  | .done a, w => (a, w)
  | .step e next, w => (next (h e w).1).run h (h e w).2

@[simp] theorem run_done (h : Handler E R W) (a : α) (w : W) : (done a).run h w = (a, w) := rfl

@[simp] theorem run_step (h : Handler E R W) (e : E) (next : R e → Program E R α) (w : W) :
    (step e next).run h w = (next (h e w).1).run h (h e w).2 := rfl

theorem run_bind (h : Handler E R W) (p : Program E R α) (f : α → Program E R β) (w : W) :
    (p >>= f).run h w = (f (p.run h w).1).run h (p.run h w).2 := by
  induction p generalizing w with
  | done a => rfl
  | step e next ih => exact ih _ _

/-- A handler with a second world that only watches the effects go by. -/
def watched {V : Type} (h : Handler E R W) (watch : E → V → V) : Handler E R (W × V) :=
  fun e x => ((h e x.1).1, (h e x.1).2, watch e x.2)

theorem run_watched {V : Type} (h : Handler E R W) (watch : E → V → V) (p : Program E R α)
    (x : W × V) : (p.run (watched h watch) x).2.1 = (p.run h x.1).2 := by
  induction p generalizing x with
  | done a => rfl
  | step e next ih => exact ih _ _

def performs (h : Handler E R W) (ok : E → Bool) : Program E R α → W → Bool
  | .done _, _ => true
  | .step e next, w => ok e && (next (h e w).1).performs h ok (h e w).2

def Meets (h : Handler E R W) (A : W → E → Prop) : Program E R α → W → Prop
  | .done _, _ => True
  | .step e next, w => A w e ∧ (next (h e w).1).Meets h A (h e w).2

/-- Whether every effect of a run passes a check of the world it is performed
in. -/
def checks (h : Handler E R W) (ok : W → E → Bool) : Program E R α → W → Bool
  | .done _, _ => true
  | .step e next, w => ok w e && (next (h e w).1).checks h ok (h e w).2

theorem meets_of_checks {h : Handler E R W} {A : W → E → Prop} {ok : W → E → Bool}
    (hok : ∀ w e, ok w e = true → A w e) (p : Program E R α) (w : W)
    (hp : p.checks h ok w = true) : p.Meets h A w := by
  induction p generalizing w with
  | done a => trivial
  | step e next ih =>
    obtain ⟨he, hnext⟩ := Bool.and_eq_true_iff.mp hp
    exact ⟨hok w e he, ih _ _ hnext⟩

/-- As long as every effect is answered in `S`, every effect a program comes to
is in `P` and every value it returns in `Q`. -/
def Given (S : (e : E) → R e → Prop) (P : E → Prop) (Q : α → Prop) : Program E R α → Prop
  | .done a => Q a
  | .step e next => P e ∧ ∀ r, S e r → (next r).Given S P Q

theorem Given.bind {S : (e : E) → R e → Prop} {P : E → Prop} {Q : α → Prop} {Q' : β → Prop}
    {p : Program E R α} {f : α → Program E R β} (hp : p.Given S P Q)
    (hf : ∀ a, Q a → (f a).Given S P Q') : (p >>= f).Given S P Q' := by
  induction p with
  | done a => exact hf a hp
  | step e next ih => exact ⟨hp.1, fun r hr => ih r (hp.2 r hr)⟩

theorem Given.any (p : Program E R α) :
    p.Given (fun _ _ => True) (fun _ => True) fun _ => True := by
  induction p with
  | done a => trivial
  | step e next ih => exact ⟨trivial, fun r _ => ih r⟩

def after (h : Handler E R W) : Nat → Program E R α → W → W
  | 0, _, w => w
  | _ + 1, .done _, w => w
  | n + 1, .step e next, w => (next (h e w).1).after h n (h e w).2

/-- `wp h A G p Q w`: run from `w`, as long as every effect performed meets the
assumption `A`, every effect performed meets the guarantee `G`, and a run that
ends does so in `Q`. -/
def wp (h : Handler E R W) (A G : W → E → Prop) :
    Program E R α → (α → W → Prop) → W → Prop
  | .done a, Q, w => Q a w
  | .step e next, Q, w => A w e → G w e ∧ (next (h e w).1).wp h A G Q (h e w).2

section Rules

variable {h : Handler E R W} {A G : W → E → Prop} {w : W}

@[simp] theorem wp_done {Q : α → W → Prop} (a : α) :
    (done a : Program E R α).wp h A G Q w ↔ Q a w := Iff.rfl

@[simp] theorem wp_step {Q : α → W → Prop} (e : E) (next : R e → Program E R α) :
    (step e next).wp h A G Q w ↔
      (A w e → G w e ∧ (next (h e w).1).wp h A G Q (h e w).2) := Iff.rfl

@[simp] theorem wp_bind {Q : β → W → Prop} (p : Program E R α) (f : α → Program E R β) :
    (p >>= f).wp h A G Q w ↔ p.wp h A G (fun a w' => (f a).wp h A G Q w') w := by
  induction p generalizing w with
  | done a => rfl
  | step e next ih => simp only [step_bind, wp_step, ih]

theorem wp_mono {Q Q' : α → W → Prop} (hQ : ∀ a w, Q a w → Q' a w) (p : Program E R α)
    (hp : p.wp h A G Q w) : p.wp h A G Q' w := by
  induction p generalizing w with
  | done a => exact hQ a w hp
  | step e next ih => exact fun hA => ⟨(hp hA).1, ih _ (hp hA).2⟩

theorem wp_weaken {A' G' : W → E → Prop} (hA : ∀ w e, A' w e → A w e) (hG : ∀ w e, G w e → G' w e)
    {Q : α → W → Prop} (p : Program E R α) (hp : p.wp h A G Q w) : p.wp h A' G' Q w := by
  induction p generalizing w with
  | done a => exact hp
  | step e next ih =>
    intro hA'
    obtain ⟨hg, hnext⟩ := hp (hA w e hA')
    exact ⟨hG w e hg, ih _ hnext⟩

theorem wp_of_run {Q : α → W → Prop} (p : Program E R α)
    (hp : p.wp h (fun _ _ => True) (fun _ _ => True) Q w) : Q (p.run h w).1 (p.run h w).2 := by
  induction p generalizing w with
  | done a => exact hp
  | step e next ih => exact ih _ (hp trivial).2

/-- What answers in `S` and is kept by the effects of `P` holds at the end of a
program of such effects. -/
theorem Given.wp {S : (e : E) → R e → Prop} {P : E → Prop} {Q : α → Prop} {I : W → Prop}
    (hS : ∀ e w, I w → S e (h e w).1) (hI : ∀ e w, P e → I w → I (h e w).2)
    {p : Program E R α} (hp : p.Given S P Q) (hw : I w) :
    p.wp h A (fun _ e => P e) (fun a w' => Q a ∧ I w') w := by
  induction p generalizing w with
  | done a => exact ⟨hp, hw⟩
  | step e next ih =>
    exact fun _ => ⟨hp.1, ih _ (hp.2 _ (hS e w hw)) (hI e w hp.1 hw)⟩

theorem Given.run {S : (e : E) → R e → Prop} {P : E → Prop} {Q : α → Prop} {I : W → Prop}
    (hS : ∀ e w, I w → S e (h e w).1) (hI : ∀ e w, P e → I w → I (h e w).2)
    {p : Program E R α} (hp : p.Given S P Q) (hw : I w) : I (p.run h w).2 := by
  have hwp := Given.wp (A := fun _ _ => True) hS hI hp hw
  exact (wp_of_run p (wp_weaken (fun _ _ h => h) (fun _ _ _ => trivial) p hwp)).2

theorem Given.meets {S : (e : E) → R e → Prop} {P : E → Prop} {Q : α → Prop}
    (hS : ∀ e w, S e (h e w).1) (hA : ∀ w e, P e → A w e) {p : Program E R α}
    (hp : p.Given S P Q) (w : W) : p.Meets h A w := by
  induction p generalizing w with
  | done a => trivial
  | step e next ih => exact ⟨hA w e hp.1, ih _ (hp.2 _ (hS e w)) _⟩

theorem wp_and {G' : W → E → Prop} {Q Q' : α → W → Prop} (p : Program E R α)
    (hp : p.wp h A G Q w) (hp' : p.wp h A G' Q' w) :
    p.wp h A (fun w e => G w e ∧ G' w e) (fun a w' => Q a w' ∧ Q' a w') w := by
  induction p generalizing w with
  | done a => exact ⟨hp, hp'⟩
  | step e next ih =>
    intro hA
    obtain ⟨hg, hnext⟩ := hp hA
    obtain ⟨hg', hnext'⟩ := hp' hA
    exact ⟨⟨hg, hg'⟩, ih _ hnext hnext'⟩

/-- What every effect that meets `G` keeps holds all along the run. -/
theorem wp_invariant {B : W → E → Prop} {I : W → Prop} {Q : α → W → Prop}
    (hA : ∀ w e, B w e → A w e) (hI : ∀ w e, B w e → G w e → I w → I (h e w).2)
    (p : Program E R α) (hp : p.wp h A G Q w) (hw : I w) :
    p.wp h B (fun w e => I (h e w).2) (fun a w' => Q a w' ∧ I w') w := by
  induction p generalizing w with
  | done a => exact ⟨hp, hw⟩
  | step e next ih =>
    intro hB
    obtain ⟨hg, hnext⟩ := hp (hA w e hB)
    have hnow : I (h e w).2 := hI w e hB hg hw
    exact ⟨hnow, ih _ hnext hnow⟩

/-- What every effect keeps may be assumed in the world of each. -/
theorem wp_assume {B : W → E → Prop} {I : W → Prop} {Q : α → W → Prop}
    (hB : ∀ w e, I w → A w e → B w e) (hI : ∀ w e, I w → I (h e w).2) (p : Program E R α)
    (hp : p.wp h B G Q w) (hw : I w) : p.wp h A G Q w := by
  induction p generalizing w with
  | done a => exact hp
  | step e next ih =>
    intro hA
    obtain ⟨hg, hnext⟩ := hp (hB w e hw hA)
    exact ⟨hg, ih _ hnext (hI w e hw)⟩

theorem wp_of_meets {Q : α → W → Prop} (p : Program E R α) (hp : p.wp h A G Q w)
    (hA : p.Meets h A w) : Q (p.run h w).1 (p.run h w).2 := by
  induction p generalizing w with
  | done a => exact hp
  | step e next ih => exact ih _ (hp hA.1).2 hA.2

end Rules

end Program

end DurableTasks.Effects
