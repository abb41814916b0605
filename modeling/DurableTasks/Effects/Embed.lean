import DurableTasks.Effects.Fallible

/-!
Programs over part of a larger world: the same effects, under other names, next
to effects on the rest.
-/

namespace DurableTasks.Effects

variable {E E' : Type} {R : E → Type} {R' : E' → Type} {W W' α β : Type}

namespace Program

/-- A program whose effects are renamed by `f`, and answered by way of
`answer`. -/
def embed (f : E → E') (answer : (e : E) → R' (f e) → R e) :
    Program E R α → Program E' R' α
  | .done a => .done a
  | .step e next => .step (f e) fun r => (next (answer e r)).embed f answer

/-- `h'` handles the renamed effects as `h` does, on the part of its world that
`part` reads and `set` replaces. -/
structure Extends (f : E → E') (answer : (e : E) → R' (f e) → R e) (h : Handler E R W)
  (h' : Handler E' R' W') (part : W' → W) (set : W' → W → W') : Prop where
  answer : ∀ e w, answer e (h' (f e) w).1 = (h e (part w)).1
  world : ∀ e w, (h' (f e) w).2 = set w (h e (part w)).2
  part_set : ∀ w v, part (set w v) = v
  set_set : ∀ w v v', set (set w v) v' = set w v'
  set_part : ∀ w, set w (part w) = w

variable {f : E → E'} {answer : (e : E) → R' (f e) → R e} {h : Handler E R W}
  {h' : Handler E' R' W'} {part : W' → W} {set : W' → W → W'}

theorem wp_embed (hext : Extends f answer h h' part set) {A G : W' → E' → Prop}
    {Q : α → W' → Prop} (p : Program E R α) (w : W') :
    (p.embed f answer).wp h' A G Q w ↔
      p.wp h (fun v e => A (set w v) (f e)) (fun v e => G (set w v) (f e))
        (fun a v => Q a (set w v)) (part w) := by
  induction p generalizing w with
  | done a =>
    show Q a w ↔ Q a (set w (part w))
    rw [hext.set_part]
  | step e next ih =>
    show (A w (f e) → G w (f e) ∧ _) ↔ (A (set w (part w)) (f e) → G (set w (part w)) (f e) ∧ _)
    rw [hext.set_part, ih, hext.answer, hext.world, hext.part_set]
    simp only [hext.set_set]

/-- What every effect leaves behind holds however far a run gets. -/
theorem after_of_wp {I : W → Prop} {Q : α → W → Prop} (p : Program E R α) {w : W}
    (hp : p.wp h (fun _ _ => True) (fun w e => I (h e w).2) Q w) (hw : I w) (n : Nat) :
    I (p.after h n w) := by
  induction n generalizing p w with
  | zero => exact hw
  | succ n ih =>
    cases p with
    | done a => exact hw
    | step e next => exact ih _ (hp trivial).2 (hp trivial).1

/-! ## Counting -/

/-- How much a run reads, where an effect and its answer count as `count`. -/
def tally (h : Handler E R W) (count : (e : E) → R e → Nat) : Program E R α → W → Nat
  | .done _, _ => 0
  | .step e next, w => count e (h e w).1 + (next (h e w).1).tally h count (h e w).2

theorem tally_bind (count : (e : E) → R e → Nat) (p : Program E R α) (k : α → Program E R β)
    (w : W) : (p >>= k).tally h count w =
      p.tally h count w + (k (p.run h w).1).tally h count (p.run h w).2 := by
  induction p generalizing w with
  | done a => exact (Nat.zero_add _).symm
  | step e next ih =>
    show _ + ((next _) >>= k).tally h count _ = _
    rw [ih]
    exact (Nat.add_assoc _ _ _).symm

theorem tally_embed {count : (e : E') → R' e → Nat} {Q : α → Prop} {p : Program E R α}
    (hp : p.Given (fun _ _ => True) (fun e => ∀ r, count (f e) r = 0) Q) (w : W') :
    (p.embed f answer).tally h' count w = 0 := by
  induction p generalizing w with
  | done a => rfl
  | step e next ih =>
    show count (f e) _ + ((next _).embed f answer).tally h' count _ = 0
    rw [hp.1, ih _ (hp.2 _ trivial)]

end Program

end DurableTasks.Effects
