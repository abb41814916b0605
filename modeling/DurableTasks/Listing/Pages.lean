import Mathlib.Data.List.Perm.Subperm
import Mathlib.Data.List.Nodup
import Std.Data.TreeMap.Lemmas

/-!
A listing sorted by key, read in pages: at most so many entries, after a key.
-/

namespace DurableTasks.Listing

open Std

variable {κ α : Type} {cmp : κ → κ → Ordering}

def entriesAfter (cmp : κ → κ → Ordering) (l : List (κ × α)) (after : Option κ) : List (κ × α) :=
  l.filter fun p => after.all fun a => cmp a p.1 = .lt

def page (cmp : κ → κ → Ordering) (l : List (κ × α)) (after : Option κ) (limit : Nat) :
    List (κ × α) :=
  (entriesAfter cmp l after).take limit

/-- The keys increase along the listing. -/
def Sorted (cmp : κ → κ → Ordering) (l : List (κ × α)) : Prop :=
  l.Pairwise fun p q => cmp p.1 q.1 = .lt

def After (cmp : κ → κ → Ordering) (after : Option κ) (c : κ) : Prop :=
  ∀ a, after = some a → cmp a c = .lt

variable {l : List (κ × α)} {after : Option κ} {limit : Nat} {p : κ × α}

theorem mem_entriesAfter : p ∈ entriesAfter cmp l after ↔ p ∈ l ∧ After cmp after p.1 := by
  rw [entriesAfter, List.mem_filter]
  refine and_congr_right fun _ => ?_
  cases after <;> simp [After]

theorem Sorted.entriesAfter (h : Sorted cmp l) : Sorted cmp (entriesAfter cmp l after) :=
  List.Pairwise.filter _ h

theorem Sorted.page (h : Sorted cmp l) : Sorted cmp (page cmp l after limit) :=
  List.Pairwise.take h.entriesAfter

theorem mem_of_mem_page (h : p ∈ page cmp l after limit) : p ∈ l ∧ After cmp after p.1 :=
  mem_entriesAfter.mp (List.mem_of_mem_take h)

/-- A page leaves out only keys past all of its own, and none when it is not
full. -/
theorem mem_page_or (hl : Sorted cmp l) (h : p ∈ entriesAfter cmp l after) :
    p ∈ page cmp l after limit ∨ (page cmp l after limit).length = limit ∧
      ∀ q ∈ page cmp l after limit, cmp q.1 p.1 = .lt := by
  have hsorted : Sorted cmp (Listing.entriesAfter cmp l after) := hl.entriesAfter
  unfold page
  rw [← List.take_append_drop limit (Listing.entriesAfter cmp l after)] at h
  rw [Sorted, ← List.take_append_drop limit (Listing.entriesAfter cmp l after)] at hsorted
  rcases List.mem_append.mp h with hmem | hmem
  · exact .inl hmem
  · grind [List.length_drop, List.length_take]

variable [TransCmp cmp]

theorem not_lt_self (c : κ) : cmp c c ≠ .lt := by
  rw [(ReflCmp.compare_self : cmp c c = .eq)]
  decide

theorem Sorted.nodup (h : Sorted cmp l) : l.Nodup := by
  refine List.Pairwise.imp ?_ h
  rintro p q hlt rfl
  exact not_lt_self p.1 hlt

theorem Sorted.nodup_keys (h : Sorted cmp l) : (l.map Prod.fst).Nodup := by
  rw [List.Nodup, List.pairwise_map]
  refine List.Pairwise.imp (fun {p q} hlt heq => ?_) h
  exact not_lt_self q.1 (heq ▸ hlt)

/-- A sorted listing lies in order within one that has its entries. -/
theorem Sorted.sublist {l' : List (κ × α)} (hl : Sorted cmp l) (hl' : Sorted cmp l')
    (h : ∀ p ∈ l, p ∈ l') : l.Sublist l' := by
  obtain ⟨m, hperm, hsub⟩ := List.subperm_of_subset hl.nodup h
  have heq : m = l := by
    refine hperm.eq_of_pairwise ?_ (List.Pairwise.sublist hsub hl') hl
    intro p q _ _ hpq hqp
    exact absurd (TransCmp.lt_trans hpq hqp) (not_lt_self p.1)
  exact heq ▸ hsub

/-- A sorted listing is given by its entries. -/
theorem Sorted.eq_of_mem_iff {l' : List (κ × α)} (hl : Sorted cmp l) (hl' : Sorted cmp l')
    (h : ∀ p, p ∈ l ↔ p ∈ l') : l = l' :=
  (hl.sublist hl' fun p => (h p).mp).antisymm (hl'.sublist hl fun p => (h p).mpr)

theorem le_last (hl : Sorted cmp l) {last q : κ × α}
    (hlast : (page cmp l after limit).getLast? = some last) (hq : q ∈ page cmp l after limit) :
    cmp last.1 q.1 ≠ .lt := by
  have hsorted : Sorted cmp (Listing.page cmp l after limit) := hl.page
  obtain ⟨init, hinit⟩ := List.getLast?_eq_some_iff.mp hlast
  rw [hinit] at hq
  rw [Sorted, hinit] at hsorted
  intro hlt
  rcases List.mem_append.mp hq with hmem | hmem
  · have hgt := (List.pairwise_append.mp hsorted).2.2 _ hmem last (by simp)
    exact not_lt_self last.1 (TransCmp.lt_trans hlt hgt)
  · obtain rfl : q = last := by simpa using hmem
    exact not_lt_self q.1 hlt

theorem length_entriesAfter_page (hl : Sorted cmp l) {last : κ × α}
    (hlast : (page cmp l after limit).getLast? = some last) :
    (entriesAfter cmp l (some last.1)).length + (page cmp l after limit).length ≤
      (entriesAfter cmp l after).length := by
  have hsplit := List.take_append_drop limit (entriesAfter cmp l after)
  have hp := mem_of_mem_page (List.mem_of_getLast? hlast)
  -- what comes after the last key of the page is in the part the page leaves out
  have hsub : ∀ q ∈ entriesAfter cmp l (some last.1),
      q ∈ (entriesAfter cmp l after).drop limit := by
    intro q hq
    obtain ⟨hmem, hafter⟩ := mem_entriesAfter.mp hq
    have hlt : cmp last.1 q.1 = .lt := hafter last.1 rfl
    have hq' : q ∈ entriesAfter cmp l after :=
      mem_entriesAfter.mpr ⟨hmem, fun a ha => TransCmp.lt_trans (hp.2 a ha) hlt⟩
    rw [← hsplit, List.mem_append] at hq'
    exact hq'.resolve_left fun hpage => le_last hl hlast hpage hlt
  have hle := (List.subperm_of_subset hl.entriesAfter.nodup hsub).length_le
  have hlen := congrArg List.length hsplit
  rw [List.length_append] at hlen
  change (page cmp l after limit).length + _ = _ at hlen
  omega

/-! ## The records of a map -/

section Records

variable {δ : Type} [LawfulEqCmp cmp] (t : TreeMap κ δ cmp) (P : κ → Prop) [DecidablePred P]
  (f : δ → Option α)

/-- What `f` finds in the records under the keys of `P`, where it finds nothing
in the record that stands for an absent one. -/
theorem mem_filterMap_toList {d : δ} (hd : f d = none) {c : κ} {a : α} :
    (c, a) ∈ t.toList.filterMap (fun p => if P p.1 then (f p.2).map (Prod.mk p.1) else none) ↔
      P c ∧ f (t.getD c d) = some a := by
  rw [List.mem_filterMap, TreeMap.getD_eq_getD_getElem?]
  constructor
  · rintro ⟨⟨c', x⟩, hmem, hif⟩
    rw [TreeMap.mem_toList_iff_getElem?_eq_some] at hmem
    split_ifs at hif with hP
    obtain ⟨a', ha, heq⟩ := Option.map_eq_some_iff.mp hif
    obtain ⟨rfl, rfl⟩ := Prod.mk.inj heq
    exact ⟨hP, by rw [hmem]; exact ha⟩
  · rintro ⟨hP, ha⟩
    cases hx : t[c]? with
    | none => simp [hx, hd] at ha
    | some x =>
      refine ⟨(c, x), TreeMap.mem_toList_iff_getElem?_eq_some.mpr hx, ?_⟩
      rw [hx] at ha
      simp only [Option.getD_some] at ha
      simp [hP, ha]

omit [LawfulEqCmp cmp] in
theorem sorted_filterMap_toList : Sorted cmp
    (t.toList.filterMap fun p => if P p.1 then (f p.2).map (Prod.mk p.1) else none) := by
  have hkeys : Sorted cmp t.toList := TreeMap.ordered_keys_toList
  refine List.Pairwise.filterMap _ ?_ hkeys
  rintro ⟨c, x⟩ ⟨c', x'⟩ hlt p hp p' hp'
  split_ifs at hp hp'
  obtain ⟨a, -, rfl⟩ := Option.map_eq_some_iff.mp hp
  obtain ⟨a', -, rfl⟩ := Option.map_eq_some_iff.mp hp'
  exact hlt

end Records

/-! ## Looking up a key -/

section Lookup

variable [DecidableEq κ]

theorem lookup_of_nodup (h : (l.map Prod.fst).Nodup) (hp : p ∈ l) :
    l.lookup p.1 = some p.2 := by
  induction l with
  | nil => simp at hp
  | cons q l ih => grind

/-- Where a listing has what is stored under a key, looking it up there finds
the same. -/
theorem lookup_eq (h : (l.map Prod.fst).Nodup) {c : κ} {stored : Option α}
    (hmem : ∀ a, (c, a) ∈ l ↔ stored = some a) : l.lookup c = stored := by
  cases stored with
  | some a => exact lookup_of_nodup h ((hmem a).mpr rfl)
  | none => grind

end Lookup

end DurableTasks.Listing
