import Mathlib.Tactic.ByContra

/-!
Stores whose keys have owners. Every owner has one key of its own, its row; an
owner is removed by deleting its keys one at a time, the row last, so that an
interrupted removal can be taken up again from the row.
-/

namespace DurableTasks.Listing

structure Keyed (S K : Type) (V : K → Type) where
  get : S → (k : K) → Option (V k)
  del : S → K → S
  get_del_self : ∀ s k, get (del s k) k = none
  get_del_of_ne : ∀ s {k k'}, k' ≠ k → get (del s k) k' = get s k'

structure Owners (R K : Type) where
  row : R → K
  owns : R → K → Prop
  owns_row : ∀ r, owns r (row r)
  unique : ∀ {r c k}, owns r k → owns c k → r = c

variable {S R K : Type} {V : K → Type} {D : Keyed S K V} {O : Owners R K} {E : R → Prop}
  {L : Prop} {s s' : S} {r : R} {k : K}

/-- `s'` is `s` after some keys of the owners in `E` were deleted. Under `L`, the
row of each of them went after its other keys. -/
structure Partly (D : Keyed S K V) (O : Owners R K) (E : R → Prop) (L : Prop) (s s' : S) :
    Prop where
  key : ∀ k, D.get s' k = D.get s k ∨ (D.get s' k = none ∧ ∃ r, E r ∧ O.owns r k)
  last : L → ∀ r, E r → D.get s' (O.row r) = none → ∀ k, O.owns r k → D.get s' k = none

structure Wholly (D : Keyed S K V) (O : Owners R K) (E : R → Prop) (s s' : S) : Prop where
  gone : ∀ r, E r → ∀ k, O.owns r k → D.get s' k = none
  kept : ∀ k, (∀ r, E r → ¬O.owns r k) → D.get s' k = D.get s k

namespace Partly

theorem refl (hE : ∀ r, E r → D.get s (O.row r) ≠ none) : Partly D O E L s s :=
  ⟨fun _ => .inl rfl, fun _ r hr hnone => absurd hnone (hE r hr)⟩

theorem get_some (h : Partly D O E L s s') {v : V k} (hv : D.get s' k = some v) :
    D.get s k = some v := by
  rcases h.key k with heq | ⟨hnone, -⟩
  · exact heq ▸ hv
  · rw [hnone] at hv
    cases hv

/-- An owner that is not to go is not touched. -/
theorem untouched (h : Partly D O E L s s') (hr : ¬E r) (hk : O.owns r k) :
    D.get s' k = D.get s k := by
  refine (h.key k).resolve_right ?_
  rintro ⟨-, c, hc, hck⟩
  exact hr (O.unique hck hk ▸ hc)

theorem wholly (h : Partly D O E L s s') (hL : L) (hrows : ∀ r, E r → D.get s' (O.row r) = none) :
    Wholly D O E s s' := by
  refine ⟨fun r hr k hk => h.last hL r hr (hrows r hr) k hk, fun k hk => ?_⟩
  refine (h.key k).resolve_right ?_
  rintro ⟨-, r, hr, hrk⟩
  exact hk r hr hrk

theorem del (h : Partly D O E L s s') (hr : E r) (hk : O.owns r k)
    (hlast : L → k = O.row r → ∀ k', O.owns r k' → k' ≠ k → D.get s' k' = none) :
    Partly D O E L s (D.del s' k) := by
  constructor
  · intro k'
    by_cases heq : k' = k
    · subst heq
      exact .inr ⟨D.get_del_self s' k', r, hr, hk⟩
    · rw [D.get_del_of_ne s' heq]
      exact h.key k'
  · intro hL c hc hrow k' hk'
    by_cases heq : k' = k
    · subst heq
      exact D.get_del_self s' k'
    rw [D.get_del_of_ne s' heq]
    by_cases hck : O.row c = k
    · obtain rfl : c = r := O.unique (hck ▸ O.owns_row c) hk
      exact hlast hL hck.symm k' hk' heq
    · rw [D.get_del_of_ne s' hck] at hrow
      exact h.last hL c hc hrow k' hk'

theorem foldl (h : Partly D O E L s s') (hr : E r) {ks : List K}
    (hks : ∀ k ∈ ks, O.owns r k ∧ k ≠ O.row r) : Partly D O E L s (ks.foldl D.del s') := by
  induction ks generalizing s' with
  | nil => exact h
  | cons k ks ih =>
    obtain ⟨hk, hne⟩ := hks k (by simp)
    refine ih (h.del hr hk fun _ heq => absurd heq hne) fun k' hk' => hks k' (by simp [hk'])

end Partly

variable [DecidableEq K]

/-- What is left once the keys of a list are deleted. -/
theorem get_foldl_del (ks : List K) (s : S) (k : K) :
    D.get (ks.foldl D.del s) k = if k ∈ ks then none else D.get s k := by
  induction ks generalizing s with
  | nil => rfl
  | cons k' ks ih =>
    rw [List.foldl_cons, ih]
    by_cases hk : k = k'
    · subst hk
      simp [D.get_del_self]
    · simp [hk, D.get_del_of_ne s hk]

/-- An owner is removed up to some point: some of its keys, then its row. -/
theorem Partly.remove (h : Partly D O E L s s') (hr : E r) {ks : List K}
    (hks : ∀ k ∈ ks, O.owns r k ∧ k ≠ O.row r)
    (hall : L → ∀ k, O.owns r k → k ≠ O.row r → D.get s' k ≠ none → k ∈ ks) (n : Nat) :
    Partly D O E L s (((ks ++ [O.row r]).take n).foldl D.del s') := by
  by_cases hn : n ≤ ks.length
  · rw [List.take_append_of_le_length hn]
    exact h.foldl hr fun k hk => hks k (List.mem_of_mem_take hk)
  rw [List.take_of_length_le (by simp; omega), List.foldl_append]
  refine (h.foldl hr hks).del hr (O.owns_row r) fun hL _ k hk hne => ?_
  rw [get_foldl_del]
  by_cases hmem : k ∈ ks
  · exact if_pos hmem
  · rw [if_neg hmem]
    by_contra hsome
    exact hmem (hall hL k hk hne hsome)

end DurableTasks.Listing
