import DurableTasks.Effects.Program

/-!
Programs that return a value or an error, and what holds of both when they end.
-/

namespace DurableTasks.Effects

variable {E : Type} {R : E → Type} {W ε α β : Type}

/-- The weakest precondition of a program that may fail: `Q` holds of the value
or error it returns. -/
def specOf (h : Handler E R W) (A G : W → E → Prop) (x : ExceptT ε (Program E R) α)
    (Q : Except ε α → W → Prop) (w : W) : Prop :=
  x.run.wp h A G Q w

abbrev Post (α W : Type) : Type := Except String α → W → Prop

namespace specOf

variable {h : Handler E R W} {A G : W → E → Prop} {w : W}

/-- Sequencing, with `K` what the rest of the program asks of a value or error. -/
theorem bind_iff {Q : Except ε β → W → Prop} {K : Except ε α → W → Prop}
    (x : ExceptT ε (Program E R) α) (f : α → ExceptT ε (Program E R) β)
    (hok : ∀ a w', K (.ok a) w' ↔ specOf h A G (f a) Q w')
    (herror : ∀ e w', K (.error e) w' ↔ Q (.error e) w') :
    specOf h A G (x >>= f) Q w ↔ specOf h A G x K w := by
  simp only [specOf, ExceptT.run_bind, Program.wp_bind]
  constructor <;> refine Program.wp_mono ?_ _
  · rintro (e | a) w' h
    · exact (herror e w').mpr h
    · exact (hok a w').mpr h
  · rintro (e | a) w' h
    · exact (herror e w').mp h
    · exact (hok a w').mp h

theorem mono {Q Q' : Except ε α → W → Prop} (hQ : ∀ a w, Q a w → Q' a w)
    (x : ExceptT ε (Program E R) α) (hx : specOf h A G x Q w) : specOf h A G x Q' w :=
  Program.wp_mono hQ _ hx

/-- The error is handed over as a value. -/
theorem lift_run_iff {x : ExceptT ε (Program E R) α} {Q : Except ε (Except ε α) → W → Prop} :
    specOf h A G (ExceptT.lift x.run) Q w ↔ specOf h A G x (fun res w' => Q (.ok res) w') w := by
  simp only [specOf, ExceptT.run_lift]
  rw [map_eq_pure_bind]
  simp only [Program.wp_bind, Program.pure_eq, Program.wp_done]

end specOf

/-- From a world with `I` the program meets the guarantee and ends in `I`,
whatever it returns. -/
def KeepsOf (h : Handler E R W) (A G : W → E → Prop) (I : W → Prop)
    (x : ExceptT ε (Program E R) α) : Prop :=
  ∀ w, I w → specOf h A G x (fun _ => I) w

namespace KeepsOf

variable {h : Handler E R W} {A G : W → E → Prop} {I : W → Prop}

theorem pure (a : α) : KeepsOf h A G I (pure a : ExceptT ε (Program E R) α) := fun _ hw => hw

theorem throw (e : ε) : KeepsOf h A G I (throw e : ExceptT ε (Program E R) α) := fun _ hw => hw

theorem bind {x : ExceptT ε (Program E R) α} {f : α → ExceptT ε (Program E R) β}
    (hx : KeepsOf h A G I x) (hf : ∀ a, KeepsOf h A G I (f a)) : KeepsOf h A G I (x >>= f) := by
  intro w hw
  rw [specOf, ExceptT.run_bind, Program.wp_bind]
  refine Program.wp_mono ?_ _ (hx w hw)
  rintro (e | a) w' hw'
  · exact hw'
  · exact hf a w' hw'

theorem lift_run {x : ExceptT ε (Program E R) α} (hx : KeepsOf h A G I x) :
    KeepsOf h A G I (ExceptT.lift x.run : ExceptT ε (Program E R) (Except ε α)) :=
  fun w hw => specOf.lift_run_iff.mpr (hx w hw)

theorem forM {l : List β} {f : β → ExceptT ε (Program E R) PUnit}
    (hf : ∀ b ∈ l, KeepsOf h A G I (f b)) : KeepsOf h A G I (l.forM f) := by
  induction l with
  | nil => exact .pure _
  | cons b l ih =>
    change KeepsOf h A G I (f b >>= fun _ => l.forM f)
    exact .bind (hf b (by simp)) fun _ => ih fun b' hb' => hf b' (by simp [hb'])

end KeepsOf

/-- The effects of a program that may fail, and the values it can return, as long
as every effect is answered in `S`. -/
def GivenOf (S : (e : E) → R e → Prop) (P : E → Prop) (Q : α → Prop)
    (x : ExceptT ε (Program E R) α) : Prop :=
  x.run.Given S P fun res => ∀ a, res = .ok a → Q a

/-- The effects of a program that may fail, and the values it can return,
whatever it is answered. -/
abbrev OnlyOf (P : E → Prop) (Q : α → Prop) (x : ExceptT ε (Program E R) α) : Prop :=
  GivenOf (fun _ _ => True) P Q x

namespace GivenOf

variable {S : (e : E) → R e → Prop} {P : E → Prop} {Q : α → Prop} {Q' : β → Prop}

theorem pure {a : α} (h : Q a) : GivenOf S P Q (pure a : ExceptT ε (Program E R) α) := by
  rintro b hb
  obtain rfl := Except.ok.inj hb
  exact h

theorem throw (e : ε) : GivenOf S P Q (throw e : ExceptT ε (Program E R) α) := by
  rintro b hb
  cases hb

theorem bind {x : ExceptT ε (Program E R) α} {f : α → ExceptT ε (Program E R) β}
    (hx : GivenOf S P Q x) (hf : ∀ a, Q a → GivenOf S P Q' (f a)) : GivenOf S P Q' (x >>= f) := by
  rw [GivenOf, ExceptT.run_bind]
  refine Program.Given.bind hx fun res hres => ?_
  cases res with
  | ok a => exact hf a (hres a rfl)
  | error e =>
    rintro b hb
    cases hb

theorem mono {Q₀ : α → Prop} {x : ExceptT ε (Program E R) α} (hx : GivenOf S P Q x)
    (hQ : ∀ a, Q a → Q₀ a) : GivenOf S P Q₀ x := by
  have h : GivenOf S P Q₀ (x >>= Pure.pure) := hx.bind fun a ha => .pure (hQ a ha)
  rwa [bind_pure] at h

theorem lift {K : Except ε α → Prop} {x : ExceptT ε (Program E R) α} (hx : x.run.Given S P K) :
    GivenOf S P K (ExceptT.lift x.run : ExceptT ε (Program E R) (Except ε α)) := by
  rw [GivenOf, ExceptT.run_lift, map_eq_pure_bind]
  refine Program.Given.bind hx fun res hres => ?_
  rintro b hb
  obtain rfl := Except.ok.inj hb
  exact hres

theorem lift_run {x : ExceptT ε (Program E R) α} (hx : GivenOf S P Q x) :
    GivenOf S P (fun res => ∀ a, res = .ok a → Q a)
      (ExceptT.lift x.run : ExceptT ε (Program E R) (Except ε α)) :=
  lift hx

theorem forM {l : List β} {f : β → ExceptT ε (Program E R) PUnit}
    (hf : ∀ b ∈ l, GivenOf S P (fun _ => True) (f b)) :
    GivenOf S P (fun _ => True) (l.forM f) := by
  induction l with
  | nil => exact .pure trivial
  | cons b l ih =>
    change GivenOf S P _ (f b >>= fun _ => l.forM f)
    exact .bind (hf b (by simp)) fun _ _ => ih fun b' hb' => hf b' (by simp [hb'])

end GivenOf

end DurableTasks.Effects
