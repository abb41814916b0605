import DurableTasks.Listing.Pages
import Mathlib.Logic.Function.Iterate

/-!
A walk over a listing that the walk itself thins out. Each pass reads a page
after the cursor, visits its entries and moves the cursor to the last of them;
the pass that comes to the end of the listing clears the cursor, and the next
one starts over.
-/

namespace DurableTasks.Listing

open Std

variable {S κ α : Type}

def pass (cmp : κ → κ → Ordering) (listing : S → List (κ × α)) (visit : S → κ × α → S)
    (limit : Nat) (st : S × Option κ) : S × Option κ :=
  let entries := page cmp (listing st.1) st.2 limit
  (entries.foldl visit st.1,
    if entries.length < limit then none else entries.getLast?.map Prod.fst)

structure Thins (cmp : κ → κ → Ordering) (listing : S → List (κ × α))
  (visit : S → κ × α → S) : Prop where
  sorted : ∀ s, Sorted cmp (listing s)
  other : ∀ {s p q}, p ∈ listing s → q.1 ≠ p.1 → (q ∈ listing (visit s p) ↔ q ∈ listing s)

/-- `Settled s c` says that the state `s` needs no visit of `c`: a visit of `c`
sees to it, other visits keep it, and so it is where `c` is not listed. -/
structure Settles (listing : S → List (κ × α)) (visit : S → κ × α → S)
  (Settled : S → κ → Prop) : Prop where
  settle : ∀ {s p}, p ∈ listing s → Settled (visit s p) p.1
  keep : ∀ {s p c}, p ∈ listing s → Settled s c → Settled (visit s p) c
  unlisted : ∀ {s c}, (∀ a, (c, a) ∉ listing s) → Settled s c

section Fold

variable {cmp : κ → κ → Ordering} {listing : S → List (κ × α)} {visit : S → κ × α → S}
  {Settled : S → κ → Prop} {s : S} {l : List (κ × α)}

/-- The entries of a page, visited one after the other. Each one is still listed
when its turn comes. -/
theorem Thins.foldl_induction (h : Thins cmp listing visit) {P : S → Prop}
    (hvisit : ∀ s p, p ∈ l → p ∈ listing s → P s → P (visit s p))
    (hl : Sorted cmp l) [TransCmp cmp] (hlisted : ∀ p ∈ l, p ∈ listing s) (hs : P s) :
    P (l.foldl visit s) := by
  induction l generalizing s with
  | nil => exact hs
  | cons p l ih =>
    obtain ⟨hp, hl⟩ := List.pairwise_cons.mp hl
    have hmem : p ∈ listing s := hlisted p (by simp)
    refine ih (fun s q hq => hvisit s q (by simp [hq])) hl (fun q hq => ?_)
      (hvisit s p (by simp) hmem hs)
    refine (h.other hmem fun heq => ?_).mpr (hlisted q (by simp [hq]))
    have hlt := hp q hq
    rw [heq] at hlt
    exact not_lt_self p.1 hlt

variable [TransCmp cmp]

/-- Visits of a page leave the entries outside it alone. -/
theorem Thins.mem_foldl (h : Thins cmp listing visit) (hl : Sorted cmp l)
    (hlisted : ∀ p ∈ l, p ∈ listing s) {q : κ × α} (hq : ∀ p ∈ l, q.1 ≠ p.1) :
    q ∈ listing (l.foldl visit s) ↔ q ∈ listing s :=
  h.foldl_induction (P := fun s' => q ∈ listing s' ↔ q ∈ listing s)
    (fun _ p hp hmem hs => (h.other hmem (hq p hp)).trans hs) hl hlisted Iff.rfl

theorem Settles.foldl_keep (hset : Settles listing visit Settled) (h : Thins cmp listing visit)
    (hl : Sorted cmp l) (hlisted : ∀ p ∈ l, p ∈ listing s) {c : κ} (hc : Settled s c) :
    Settled (l.foldl visit s) c :=
  h.foldl_induction (P := fun s' => Settled s' c) (fun _ _ _ hmem hs => hset.keep hmem hs)
    hl hlisted hc

theorem Settles.foldl_visit (hset : Settles listing visit Settled)
    (h : Thins cmp listing visit) (hl : Sorted cmp l) (hlisted : ∀ p ∈ l, p ∈ listing s)
    {p : κ × α} (hp : p ∈ l) : Settled (l.foldl visit s) p.1 := by
  induction l generalizing s with
  | nil => cases hp
  | cons q l ih =>
    obtain ⟨hq, hl'⟩ := List.pairwise_cons.mp hl
    have hmem : q ∈ listing s := hlisted q (by simp)
    have hrest : ∀ p ∈ l, p ∈ listing (visit s q) := by
      intro p hp
      refine (h.other hmem fun heq => ?_).mpr (hlisted p (by simp [hp]))
      have hlt := hq p hp
      rw [heq] at hlt
      exact not_lt_self q.1 hlt
    rcases List.mem_cons.mp hp with rfl | hp
    · exact hset.foldl_keep h hl' hrest (hset.settle hmem)
    · exact ih hl' hrest hp

end Fold

section Pass

variable {cmp : κ → κ → Ordering} [TransCmp cmp] {listing : S → List (κ × α)}
  {visit : S → κ × α → S} {Settled : S → κ → Prop} {limit : Nat} {st : S × Option κ}

/-- Everything up to the cursor needs no visit. -/
def Covered (cmp : κ → κ → Ordering) (Settled : S → κ → Prop) (st : S × Option κ) : Prop :=
  ∀ c, ¬After cmp st.2 c → Settled st.1 c

omit [TransCmp cmp] in
theorem covered_start (s : S) : Covered cmp Settled (s, none) :=
  fun _ hc => absurd (fun _ h => by cases h) hc

/-- A pass covers what it walks over, and everything where it comes to the
end. -/
theorem covered_pass (h : Thins cmp listing visit) (hset : Settles listing visit Settled)
    (hst : Covered cmp Settled st) :
    Covered cmp Settled (pass cmp listing visit limit st) ∧
      ((pass cmp listing visit limit st).2 = none → 0 < limit →
        ∀ c, Settled (pass cmp listing visit limit st).1 c) := by
  have hsorted := h.sorted st.1
  have hpage : Sorted cmp (page cmp (listing st.1) st.2 limit) := hsorted.page
  have hlisted : ∀ p ∈ page cmp (listing st.1) st.2 limit, p ∈ listing st.1 :=
    fun p hp => (mem_of_mem_page hp).1
  -- a key is settled unless the page is full and the key comes after all of it
  have hkey : ∀ c, (¬After cmp st.2 c ∨ (page cmp (listing st.1) st.2 limit).length < limit ∨
      ∃ p ∈ page cmp (listing st.1) st.2 limit, cmp p.1 c ≠ .lt) →
      Settled (pass cmp listing visit limit st).1 c := by
    intro c hc
    show Settled ((page cmp (listing st.1) st.2 limit).foldl visit st.1) c
    by_cases hafter : After cmp st.2 c
    · by_cases hin : ∃ a, (c, a) ∈ listing st.1
      · obtain ⟨a, ha⟩ := hin
        have hentry := mem_entriesAfter.mpr ⟨ha, hafter⟩
        rcases mem_page_or hsorted hentry with hmem | hfull
        · exact hset.foldl_visit h hpage hlisted hmem
        · grind
      · exact hset.foldl_keep h hpage hlisted (hset.unlisted fun a ha => hin ⟨a, ha⟩)
    · exact hset.foldl_keep h hpage hlisted (hst c hafter)
  constructor
  · intro c hc
    refine hkey c ?_
    simp only [pass] at hc
    split_ifs at hc with hlen
    · exact .inr (.inl hlen)
    · cases hlast : (page cmp (listing st.1) st.2 limit).getLast? with
      | none =>
        rw [hlast] at hc
        exact absurd (fun _ h => by cases h) hc
      | some last =>
        rw [hlast] at hc
        refine .inr (.inr ⟨last, List.mem_of_getLast? hlast, fun hlt => hc ?_⟩)
        rintro a ha
        obtain rfl := Option.some.inj ha
        exact hlt
  · grind [pass, Option.map_eq_none_iff]

/-- A pass that does not come to the end leaves fewer entries to walk over. -/
theorem entriesAfter_pass (h : Thins cmp listing visit) (hpos : 0 < limit) {a : κ}
    (hcursor : (pass cmp listing visit limit st).2 = some a) :
    (entriesAfter cmp (listing (pass cmp listing visit limit st).1) (some a)).length <
      (entriesAfter cmp (listing st.1) st.2).length := by
  have hsorted := h.sorted st.1
  have hpage : Sorted cmp (page cmp (listing st.1) st.2 limit) := hsorted.page
  have hlisted : ∀ p ∈ page cmp (listing st.1) st.2 limit, p ∈ listing st.1 :=
    fun p hp => (mem_of_mem_page hp).1
  have hfull : ¬(page cmp (listing st.1) st.2 limit).length < limit := by
    intro hlen
    simp [pass, hlen] at hcursor
  obtain ⟨last, hlast, rfl⟩ : ∃ last, (page cmp (listing st.1) st.2 limit).getLast? = some last ∧
      last.1 = a := by
    simpa [pass, hfull] using hcursor
  have hleft := length_entriesAfter_page hsorted hlast
  have hsub : ∀ q ∈ entriesAfter cmp (listing (pass cmp listing visit limit st).1) (some last.1),
      q ∈ entriesAfter cmp (listing st.1) (some last.1) := by
    intro q hq
    obtain ⟨hmem, hafter⟩ := mem_entriesAfter.mp hq
    refine mem_entriesAfter.mpr ⟨(h.mem_foldl hpage hlisted fun p hp heq => ?_).mp hmem, hafter⟩
    refine le_last hsorted hlast hp ?_
    rw [← heq]
    exact hafter last.1 rfl
  have hnodup :
      (entriesAfter cmp (listing (pass cmp listing visit limit st).1) (some last.1)).Nodup :=
    (h.sorted _).entriesAfter.nodup
  have hle := (List.subperm_of_subset hnodup hsub).length_le
  omega

/-- Every walk comes to its end. -/
theorem pass_ends (h : Thins cmp listing visit) (hpos : 0 < limit) (st : S × Option κ) :
    ∃ k, 0 < k ∧ ((pass cmp listing visit limit)^[k] st).2 = none := by
  generalize hn : (entriesAfter cmp (listing st.1) st.2).length = n
  induction n using Nat.strongRecOn generalizing st with
  | _ n ih =>
    cases hcursor : (pass cmp listing visit limit st).2 with
    | none => exact ⟨1, Nat.one_pos, hcursor⟩
    | some a =>
      have hlt := entriesAfter_pass h hpos hcursor
      rw [← hcursor, hn] at hlt
      obtain ⟨k, hk, hend⟩ := ih _ hlt (pass cmp listing visit limit st) rfl
      exact ⟨k + 1, Nat.succ_pos k, by rwa [Function.iterate_succ_apply]⟩

/-- From the start of a walk on, nothing needs a visit whenever a walk has come
to its end. -/
theorem settled_of_walked (h : Thins cmp listing visit) (hset : Settles listing visit Settled)
    (hpos : 0 < limit) {s : S} {k : Nat} (hk : 0 < k)
    (hend : ((pass cmp listing visit limit)^[k] (s, none)).2 = none) (c : κ) :
    Settled ((pass cmp listing visit limit)^[k] (s, none)).1 c := by
  have hcovered : ∀ k, Covered cmp Settled ((pass cmp listing visit limit)^[k] (s, none)) := by
    intro k
    induction k with
    | zero => exact covered_start s
    | succ k ih =>
      rw [Function.iterate_succ_apply']
      exact (covered_pass h hset ih).1
  obtain ⟨k, rfl⟩ := Nat.exists_eq_succ_of_ne_zero (Nat.ne_of_gt hk)
  rw [Function.iterate_succ_apply'] at hend ⊢
  exact (covered_pass h hset (hcovered k)).2 hend hpos c

end Pass

end DurableTasks.Listing
