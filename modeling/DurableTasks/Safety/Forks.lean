import DurableTasks.Engine.Footprint
import DurableTasks.Safety.Records

/-!
What a reset hands on. The new run gets the events of the old one up to the
chosen id and nothing else, so an activity that is in flight at that point has
no record there, and no worker is asked for it again.
-/

namespace DurableTasks

open Effects Engine

structure Store.InFlight (s : Store) (r : RunRef) (n : Nat) (seq : Int) : Prop where
  scheduled : ∃ id ev, id ≤ n ∧ s.get (.wfh r id) = some ev ∧ ev.attrs.Schedules seq
  unanswered : ∀ id ev, id ≤ n → s.get (.wfh r id) = some ev →
    ¬ev.attrs.Completes seq ∧ ¬ev.attrs.Fails seq

theorem Store.inFlight_iff {s : Store} {r : RunRef} {n : Nat} {seq : Int} :
    s.InFlight r n seq ↔ (∃ p ∈ s.events r, p.1 ≤ n ∧ p.2.attrs.Schedules seq) ∧
      ∀ p ∈ s.events r, p.1 ≤ n → ¬p.2.attrs.Completes seq ∧ ¬p.2.attrs.Fails seq := by
  constructor
  · rintro ⟨⟨id, ev, hid, hev, hsched⟩, hun⟩
    exact ⟨⟨(id, ev), mem_events.mpr hev, hid, hsched⟩,
      fun p hp hid => hun p.1 p.2 hid (mem_events.mp hp)⟩
  · rintro ⟨⟨p, hp, hid, hsched⟩, hun⟩
    exact ⟨⟨p.1, p.2, hid, mem_events.mp hp, hsched⟩,
      fun id ev hid hev => hun (id, ev) (mem_events.mpr hev) hid⟩

instance (s : Store) (r : RunRef) (n : Nat) (seq : Int) : Decidable (s.InFlight r n seq) :=
  decidable_of_iff _ Store.inFlight_iff.symm

/-- An outcome of `seq` can still come: its record is not terminal, and a token
is out for it or a retry armed. -/
structure World.Awaits (w : World) (r : RunRef) (seq : Int) : Prop where
  record : ∃ a, w.store.get (.wfact r seq) = some a ∧ a.isTerminal = false
  dispatched : (∃ p ∈ w.disp.actByToken, p.2.ref = r ∧ p.2.seq = seq) ∨ (r, seq) ∈ w.timers

/-- The accesses that leave every activity record as it is. -/
def Effect.SparesRecords : Effect → Prop
  | .write x => ∀ r seq, x.key ≠ some (.wfact r seq)
  | _ => True

theorem Effect.SparesRecords.get {e : Effect} (he : e.SparesRecords) (w : World) (r : RunRef)
    (seq : Int) : (handler e w).2.store.get (.wfact r seq) = w.store.get (.wfact r seq) := by
  cases e with
  | write x => exact w.store.get_apply_of_ne (he r seq)
  | _ => rfl

section Footprint

variable {src r : RunRef}

end Footprint

def World.SameRecords (w w' : World) : Prop :=
  ∀ r seq, w'.store.get (.wfact r seq) = w.store.get (.wfact r seq)

theorem World.SameRecords.effect {w w' : World} (h : w.SameRecords w') {e : Effect}
    (he : e.SparesRecords) : w.SameRecords (handler e w').2 :=
  fun r seq => (he.get w' r seq).trans (h r seq)

end DurableTasks
