import Mathlib.Data.List.Basic
import Mathlib.Logic.Function.Basic

/-!
Fan-out to subscribers over bounded queues: a publisher never waits, and a queue
that is full gives up its oldest value for the new one.
-/

namespace DurableTasks.Events

variable {α : Type} {capacity : Nat}

def offer (capacity : Nat) (x : α) (q : List α) : List α :=
  if q.length < capacity then q ++ [x]
  else if q.tail.length < capacity then q.tail ++ [x]
  else q.tail

structure Fanout (α : Type) (capacity : Nat) where
  nextID : Nat := 0
  subs : Nat → Option (List α) := fun _ => none

namespace Fanout

def fresh (b : Fanout α capacity) : Nat := b.nextID + 1

def subscribe (b : Fanout α capacity) : Fanout α capacity :=
  { nextID := b.fresh, subs := Function.update b.subs b.fresh (some []) }

def unsubscribe (b : Fanout α capacity) (id : Nat) : Fanout α capacity :=
  { b with subs := Function.update b.subs id none }

def publish (b : Fanout α capacity) (x : α) : Fanout α capacity :=
  { b with subs := fun id => (b.subs id).map (offer capacity x) }

def receive (b : Fanout α capacity) (id : Nat) : Option (α × Fanout α capacity) :=
  match b.subs id with
  | some (x :: q) => some (x, { b with subs := Function.update b.subs id (some q) })
  | _ => none

variable {b b' : Fanout α capacity} {id : Nat} {x : α} {q : List α}

theorem receive_eq_some (h : b.receive id = some (x, b')) :
    ∃ q, b.subs id = some (x :: q) ∧
      b' = { b with subs := Function.update b.subs id (some q) } := by
  unfold receive at h
  split at h
  · cases h
    exact ⟨_, by assumption, rfl⟩
  · cases h

theorem receive_cons (h : b.subs id = some (x :: q)) :
    b.receive id = some (x, { b with subs := Function.update b.subs id (some q) }) := by
  simp [receive, h]

theorem receive_nil (h : b.subs id = some []) : b.receive id = none := by
  simp [receive, h]

end Fanout

section Offer

variable {q : List α} {x : α} (p : α → Bool)

theorem offer_of_lt (h : q.length < capacity) : offer capacity x q = q ++ [x] :=
  if_pos h

theorem offer_of_full (h : q.length = capacity) (hpos : 0 < capacity) :
    offer capacity x q = q.tail ++ [x] := by
  have hfull : ¬ q.length < capacity := by omega
  have htail : q.tail.length < capacity := by
    rw [List.length_tail]
    omega
  rw [offer, if_neg hfull, if_pos htail]

theorem length_offer_le (h : q.length ≤ capacity) (hpos : 0 < capacity) :
    (offer capacity x q).length ≤ capacity := by
  rcases Nat.lt_or_eq_of_le h with hlt | hfull
  · rw [offer_of_lt hlt, List.length_append, List.length_singleton]
    exact hlt
  · rw [offer_of_full hfull hpos, List.length_append, List.length_tail, List.length_singleton]
    omega

/-- A queue that can take a value without losing one that `p` selects. -/
def Room (capacity : Nat) (q : List α) : Prop :=
  q.length < capacity ∨ ∀ x ∈ q.head?, p x = false

instance : Decidable (Room p capacity q) := inferInstanceAs (Decidable (_ ∨ _))

theorem filter_offer_of_room (hlen : q.length ≤ capacity) (hpos : 0 < capacity)
    (h : Room p capacity q) : (offer capacity x q).filter p = q.filter p ++ [x].filter p := by
  rcases Nat.lt_or_eq_of_le hlen with hlt | hfull
  · rw [offer_of_lt hlt, List.filter_append]
  · rw [offer_of_full hfull hpos, List.filter_append]
    cases q with
    | nil => rfl
    | cons y q =>
      have hy : p y = false := (h.resolve_left (by omega)) y rfl
      have hq : (y :: q).filter p = q.filter p := List.filter_cons_of_neg (by simp [hy])
      rw [List.tail_cons, hq]

/-- Without room, the oldest value that is selected goes. -/
theorem filter_offer_of_not_room (hlen : q.length ≤ capacity) (hpos : 0 < capacity)
    (h : ¬ Room p capacity q) :
    ∃ y rest, q.filter p = y :: rest ∧
      (offer capacity x q).filter p = rest ++ [x].filter p := by
  obtain ⟨hge, hhead⟩ := not_or.mp h
  have hfull : q.length = capacity := by omega
  rw [offer_of_full hfull hpos, List.filter_append]
  cases q with
  | nil => exact absurd (by simp) hhead
  | cons y q =>
    have hy : p y = true := by simpa using hhead
    exact ⟨y, q.filter p, List.filter_cons_of_pos hy, rfl⟩

end Offer

end DurableTasks.Events
