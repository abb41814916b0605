import DurableTasks.Engine.Operations

/-!
A store that refuses some of its writes.
-/

namespace DurableTasks

open Effects

/-- A write of the store, the `n`-th of them, which fails with the error
`fails n` if there is one and then changes nothing. -/
def tryWrite (fails : Nat → Option String) (z : Write) (x : World × Nat) :
    Except String Unit × World × Nat :=
  match fails x.2 with
  | some err => (.error err, x.1, x.2 + 1)
  | none => (.ok (), x.1.write z, x.2 + 1)

/-- The engine over a store whose writes may fail. The ghost write of a close is
not a write of the store. -/
def faulty (fails : Nat → Option String) : Handler Effect Effect.Answer (World × Nat)
  | .write (.close r c), x => (.ok (), x.1.write (.close r c), x.2)
  | .write z, x => tryWrite fails z x
  | e, x => ((handler e x.1).1, (handler e x.1).2, x.2)

theorem tryWrite_keeps {fails : Nat → Option String} {I : World → Prop} {z : Write}
    {x : World × Nat} (hx : I x.1) (hz : I (x.1.write z)) : I (tryWrite fails z x).2.1 := by
  unfold tryWrite
  cases fails x.2 with
  | none => exact hz
  | some err => exact hx

theorem faulty_keeps {fails : Nat → Option String} {I : World → Prop}
    (hI : ∀ e w, I w → I (handler e w).2) (e : Effect) (x : World × Nat) (hx : I x.1) :
    I (faulty fails e x).2.1 := by
  cases e with
  | write z =>
    have hz : I (x.1.write z) := hI (.write z) x.1 hx
    cases z with
    | close r c => exact hz
    | put k v => exact tryWrite_keeps hx hz
    | del k => exact tryWrite_keeps hx hz
  | _ => exact hI _ x.1 hx

end DurableTasks
