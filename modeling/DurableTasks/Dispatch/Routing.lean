import Mathlib.Data.List.Sort
import Mathlib.Data.Prod.Lex
import Mathlib.Data.String.Basic

/-!
Rendezvous routing: the validator that leads a key is the one of the smallest
score, and of the smallest id among those. The loop over the sorted list finds
it, so what a router answers is a matter of the set of its validators.
-/

namespace DurableTasks.Routing

abbrev NodeID := String

structure Key where
  org : String
  ns : String
  taskQueue : String

/-- `hashRouter`, with `scoreOf` under its seed as a function. -/
structure HashRouter where
  score : Key → NodeID → Fin (2 ^ 64)
  self : NodeID := ""
  validators : List NodeID := []

def HashRouter.setMembership (r : HashRouter) (self : NodeID) (validators : List NodeID) :
    HashRouter :=
  { r with self, validators := validators.mergeSort }

def HashRouter.leaderFor (r : HashRouter) (k : Key) : Option NodeID :=
  match r.validators with
  | [] => none
  | first :: rest =>
    some (rest.foldl (fun best v => if r.score k v < r.score k best then v else best) first)

def HashRouter.isLeader (r : HashRouter) (k : Key) : Bool :=
  match r.leaderFor k with
  | none => false
  | some leader => leader = r.self

variable {r : HashRouter} {k : Key} {self x v : NodeID} {l : List NodeID}

/-- What the loop minimises: the score, and the id among equal scores. -/
def rank (r : HashRouter) (k : Key) (v : NodeID) : Fin (2 ^ 64) ×ₗ NodeID := toLex (r.score k v, v)

theorem rank_le_iff : rank r k x ≤ rank r k v ↔
    r.score k x < r.score k v ∨ r.score k x = r.score k v ∧ x ≤ v :=
  Prod.Lex.toLex_le_toLex

def Least (r : HashRouter) (k : Key) (l : List NodeID) (x : NodeID) : Prop :=
  x ∈ l ∧ ∀ v ∈ l, rank r k x ≤ rank r k v

/-- The loop, with the best node so far in front of what is still to come. -/
theorem least_foldl {first : NodeID} {rest : List NodeID}
    (h : (first :: rest).Pairwise (· ≤ ·)) : Least r k (first :: rest)
      (rest.foldl (fun best v => if r.score k v < r.score k best then v else best) first) := by
  induction rest generalizing first with
  | nil => exact ⟨by simp, by simp⟩
  | cons v rest ih =>
    obtain ⟨hfirst, hrest⟩ := List.pairwise_cons.mp h
    rw [List.foldl_cons]
    split_ifs with hlt
    · obtain ⟨hmem, hleast⟩ := ih hrest
      refine ⟨List.mem_cons_of_mem _ hmem, List.forall_mem_cons.mpr ⟨?_, hleast⟩⟩
      exact (hleast v (by simp)).trans (rank_le_iff.mpr (.inl hlt))
    · obtain ⟨hmem, hleast⟩ := ih (h.sublist ((List.sublist_cons_self v rest).cons_cons first))
      have hv : rank r k first ≤ rank r k v :=
        rank_le_iff.mpr ((not_lt.mp hlt).lt_or_eq.imp_right fun heq => ⟨heq, hfirst v (by simp)⟩)
      obtain ⟨hbest, hothers⟩ := List.forall_mem_cons.mp hleast
      refine ⟨?_, List.forall_mem_cons.mpr ⟨hbest, List.forall_mem_cons.mpr ⟨hbest.trans hv, ?_⟩⟩⟩
      · exact ((List.sublist_cons_self v rest).cons_cons first).subset hmem
      · exact hothers

theorem Least.unique {y : NodeID} (hx : Least r k l x) (hy : Least r k l y) : x = y :=
  congrArg (fun p => (ofLex p).2) (le_antisymm (hx.2 y hy.1) (hy.2 x hx.1))

theorem leaderFor_spec (r : HashRouter) (k : Key) (self : NodeID) (l : List NodeID) :
    l = [] ∧ (r.setMembership self l).leaderFor k = none ∨
      ∃ x, (r.setMembership self l).leaderFor k = some x ∧ Least r k l x := by
  have hsorted : l.mergeSort.Pairwise (· ≤ ·) := List.pairwise_mergeSort' _ l
  have hperm : l.mergeSort.Perm l := List.mergeSort_perm l _
  simp only [HashRouter.leaderFor, HashRouter.setMembership]
  cases hv : l.mergeSort with
  | nil =>
    rw [hv] at hperm
    exact .inl ⟨hperm.nil_eq.symm, rfl⟩
  | cons first rest =>
    refine .inr ⟨_, rfl, ?_⟩
    obtain ⟨hmem, hleast⟩ := least_foldl (r := r) (k := k) (hv ▸ hsorted)
    rw [hv] at hperm
    exact ⟨hperm.subset hmem, fun v hv => hleast v (hperm.symm.subset hv)⟩

theorem leaderFor_eq_some : (r.setMembership self l).leaderFor k = some x ↔ Least r k l x := by
  rcases leaderFor_spec r k self l with ⟨rfl, hnone⟩ | ⟨y, hsome, hy⟩
  · simp [hnone, Least]
  · rw [hsome, Option.some.injEq]
    exact ⟨fun h => h ▸ hy, hy.unique⟩

structure Stable (r : HashRouter) (k : Key) (l : List NodeID) : Prop where
  /-- The order of the list and repetitions in it do not matter. -/
  same : ∀ l' self self', (∀ v, v ∈ l ↔ v ∈ l') →
    (r.setMembership self l).leaderFor k = (r.setMembership self' l').leaderFor k
  added : ∀ v self, (r.setMembership self (v :: l)).leaderFor k =
      (r.setMembership self l).leaderFor k ∨
    (r.setMembership self (v :: l)).leaderFor k = some v
  removed : ∀ v self, (r.setMembership self l).leaderFor k ≠ some v →
    (r.setMembership self (l.filter (· ≠ v))).leaderFor k = (r.setMembership self l).leaderFor k
  /-- Each node asks its own router. -/
  unique : l ≠ [] → ∃! v, v ∈ l ∧ (r.setMembership v l).isLeader k = true

theorem routing_stable (r : HashRouter) (k : Key) (l : List NodeID) : Stable r k l where
  same l' self self' h := by
    refine Option.ext fun x => ?_
    simp only [leaderFor_eq_some, Least, h]
  added v self := by
    rcases leaderFor_spec r k self (v :: l) with ⟨hnil, -⟩ | ⟨y, hy, hmem, hleast⟩
    · cases hnil
    · rcases List.mem_cons.mp hmem with rfl | hmem
      · exact .inr hy
      · refine .inl (hy.trans (leaderFor_eq_some.mpr ⟨hmem, fun u hu => ?_⟩).symm)
        exact hleast u (List.mem_cons_of_mem v hu)
  removed v self h := by
    rcases leaderFor_spec r k self l with ⟨rfl, -⟩ | ⟨y, hy, hmem, hleast⟩
    · rfl
    · rw [hy] at h ⊢
      refine leaderFor_eq_some.mpr ⟨?_, fun u hu => hleast u (List.mem_of_mem_filter hu)⟩
      exact List.mem_filter.mpr ⟨hmem, by simpa using h⟩
  unique h := by
    rcases leaderFor_spec r k "" l with ⟨hnil, -⟩ | ⟨x, -, hx⟩
    · exact absurd hnil h
    · have hlead : ∀ v, (r.setMembership v l).isLeader k = true ↔ x = v := by
        intro v
        rw [HashRouter.isLeader, leaderFor_eq_some.mpr hx]
        exact decide_eq_true_iff
      exact ⟨x, ⟨hx.1, (hlead x).mpr rfl⟩, fun v hv => ((hlead v).mp hv.2).symm⟩

end DurableTasks.Routing
