import DurableTasks.Wire.Bytes

/-!
The range scans of a shard. Keys are compared byte by byte, and the rows with a
prefix are those from the prefix up to a bound.
-/

namespace DurableTasks.Shards

open Wire (Bytes)

abbrev Key := Bytes

abbrev Row := Key × Bytes

/-- The last byte below `0xff` goes up by one, and what follows it is cut off. -/
def raise : Key → Option Key
  | [] => none
  | b :: l =>
    match raise l with
    | some l => some (b :: l)
    | none => if b < 0xff then some [b + 1] else none

def prefixUpperBound (pre : Key) : Key :=
  if pre = [] then [0xff, 0xff, 0xff, 0xff] else (raise pre).getD (pre ++ [0xff])

def rowsFrom (rows : List Row) (pre after : Key) : List Row :=
  rows.filter fun p =>
    (if pre ≤ after then after < p.1 else pre ≤ p.1) && p.1 < prefixUpperBound pre

def scan (rows : List Row) (pre after : Key) (limit : Int) : List Row :=
  if limit ≤ 0 then rowsFrom rows pre after else (rowsFrom rows pre after).take limit.toNat

def list (rows : List Row) (pre : Key) : List Row := scan rows pre [] 0

/-- The pages of a prefix, each after the last key of the one before. Of the rows
that were returned, `gone` says which are deleted before the next page. -/
def follow (pre : Key) (limit : Int) (gone : List Row → Key → Bool) :
    Nat → List Row → Key → List Row → List Row
  | 0, _, _, out => out
  | fuel + 1, rows, after, out =>
    match (scan rows pre after limit).getLast? with
    | none => out
    | some last =>
      let out := out ++ scan rows pre after limit
      follow pre limit gone fuel (rows.filter fun p => !(p ∈ out && gone out p.1)) last.1 out

/-- Without a byte to raise, everything from the prefix on has it. -/
theorem prefix_iff (pre k : Key) : pre <+: k ↔ pre ≤ k ∧ ∀ u, raise pre = some u → k < u := by
  induction pre generalizing k with
  | nil => simp [raise]
  | cons b l ih =>
    cases k with
    | nil => simp [raise]
    | cons c k =>
      rw [List.cons_prefix_cons, ih k, List.cons_le_cons_iff, raise]
      cases raise l with
      | some l' =>
        simp only [Option.some.injEq, forall_eq', List.cons_lt_cons_iff, UInt8.lt_iff_toNat_lt,
          ← UInt8.toNat_inj]
        grind
      | none =>
        have hc := UInt8.toNat_lt c
        by_cases hb : b < 0xff
        · have hnext : (b + 1).toNat = b.toNat + 1 := by
            rw [UInt8.lt_iff_toNat_lt] at hb
            rw [UInt8.toNat_add]
            exact Nat.mod_eq_of_lt (Nat.succ_lt_succ hb)
          simp only [hb, if_true, Option.some.injEq, forall_eq', List.cons_lt_cons_iff,
            List.not_lt_nil, UInt8.lt_iff_toNat_lt, ← UInt8.toNat_inj, hnext, reduceCtorEq]
          grind
        · rw [UInt8.lt_iff_toNat_lt] at hb
          simp only [hb, if_false, UInt8.lt_iff_toNat_lt, ← UInt8.toNat_inj, reduceCtorEq]
          grind

section Pages

variable {rows : List Row} {pre after : Key} {n : Nat} {last : Row}

theorem mem_rowsFrom {p : Row} (h : p ∈ rowsFrom rows pre after) :
    p ∈ rows ∧ pre ≤ p.1 ∧ after < p.1 := by
  obtain ⟨hmem, hfrom⟩ := List.mem_filter.mp h
  refine ⟨hmem, ?_⟩
  split_ifs at hfrom with hle <;> simp only [Bool.and_eq_true, decide_eq_true_eq] at hfrom
  · exact ⟨List.le_trans hle (List.le_of_lt hfrom.1), hfrom.1⟩
  · exact ⟨hfrom.1, List.not_le.mp fun h => hle (List.le_trans hfrom.1 h)⟩

/-- No row of a page comes after its last one. -/
theorem not_last_lt (hrows : rows.Pairwise fun p q => p.1 < q.1)
    (hlast : ((rowsFrom rows pre after).take n).getLast? = some last) {p : Row}
    (hp : p ∈ (rowsFrom rows pre after).take n) : ¬last.1 < p.1 := by
  have hsorted : ((rowsFrom rows pre after).take n).Pairwise fun p q => p.1 < q.1 :=
    (hrows.filter _).take
  obtain ⟨init, hinit⟩ := List.getLast?_eq_some_iff.mp hlast
  rw [hinit] at hp hsorted
  rcases List.mem_append.mp hp with hp | hp
  · exact List.lt_asymm ((List.pairwise_append.mp hsorted).2.2 p hp last (by simp))
  · obtain rfl := List.mem_singleton.mp hp
    exact List.lt_irrefl _

/-- The rows after the last one of a page are the rest, whatever was deleted up to
there. -/
theorem rowsFrom_next (hrows : rows.Pairwise fun p q => p.1 < q.1)
    (hlast : ((rowsFrom rows pre after).take n).getLast? = some last) {keep : Row → Bool}
    (hkeep : ∀ p, last.1 < p.1 → keep p = true) :
    rowsFrom (rows.filter keep) pre last.1 = (rowsFrom rows pre after).drop n := by
  have hmem := List.mem_of_getLast? hlast
  obtain ⟨-, hpre, hafter⟩ := mem_rowsFrom (List.mem_of_mem_take hmem)
  have hsorted : (rowsFrom rows pre after).Pairwise fun p q => p.1 < q.1 := hrows.filter _
  rw [← List.take_append_drop n (rowsFrom rows pre after), List.pairwise_append] at hsorted
  calc rowsFrom (rows.filter keep) pre last.1
      = (rowsFrom rows pre after).filter fun p => last.1 < p.1 := by
        unfold rowsFrom
        rw [List.filter_filter, List.filter_filter]
        refine List.filter_congr fun p _ => ?_
        by_cases hlt : last.1 < p.1
        · have hle := List.le_trans hpre (List.le_of_lt hlt)
          simp [hkeep p hlt, hpre, hlt, hle, List.lt_trans hafter hlt]
        · simp [hpre, hlt]
    _ = ((rowsFrom rows pre after).take n ++ (rowsFrom rows pre after).drop n).filter
          fun p => last.1 < p.1 := by rw [List.take_append_drop]
    _ = (rowsFrom rows pre after).drop n := by
        rw [List.filter_append, List.filter_eq_nil_iff.mpr, List.filter_eq_self.mpr,
          List.nil_append]
        · exact fun p hp => decide_eq_true (hsorted.2.2 last hmem p hp)
        · exact fun p hp => by simpa using not_last_lt hrows hlast hp

/-- From wherever a walk has come to, it returns what is left. -/
theorem follow_eq {limit : Int} (hlimit : 1 ≤ limit) (gone : List Row → Key → Bool)
    {fuel : Nat} {out : List Row} (hrows : rows.Pairwise fun p q => p.1 < q.1)
    (hfuel : (rowsFrom rows pre after).length < fuel) (hout : ∀ p ∈ out, ¬after < p.1) :
    follow pre limit gone fuel rows after out = out ++ rowsFrom rows pre after := by
  induction fuel generalizing rows after out with
  | zero => cases hfuel
  | succ fuel ih =>
    have hscan : scan rows pre after limit = (rowsFrom rows pre after).take limit.toNat :=
      if_neg (by omega)
    rw [follow, hscan]
    cases hlast : ((rowsFrom rows pre after).take limit.toNat).getLast? with
    | none =>
      have hnil := List.take_eq_nil_iff.mp (List.getLast?_eq_none_iff.mp hlast)
      rw [hnil.resolve_left (by omega), List.append_nil]
    | some last =>
      obtain ⟨-, -, hafter⟩ := mem_rowsFrom (List.mem_of_mem_take (List.mem_of_getLast? hlast))
      dsimp only
      set out' := out ++ (rowsFrom rows pre after).take limit.toNat with hout'
      have hreturned : ∀ p ∈ out', ¬last.1 < p.1 := by
        intro p hp
        rcases List.mem_append.mp hp with hp | hp
        · exact fun hlt => hout p hp (List.lt_trans hafter hlt)
        · exact not_last_lt hrows hlast hp
      have hkeep : ∀ p : Row, last.1 < p.1 → (!(p ∈ out' && gone out' p.1)) = true := by
        intro p hlt
        have hnot : p ∉ out' := fun hp => hreturned p hp hlt
        simp [hnot]
      have hnext := rowsFrom_next hrows hlast hkeep
      rw [ih (hrows.filter _) ?_ hreturned, hnext, hout', List.append_assoc,
        List.take_append_drop]
      have hpos := List.length_pos_of_mem
        (List.mem_of_mem_take (List.mem_of_getLast? hlast))
      rw [hnext, List.length_drop]
      omega

end Pages

theorem exists_raise {pre : Key} (hpre : ∃ b ∈ pre, b < 0xff) : ∃ u, raise pre = some u := by
  induction pre with
  | nil => simp at hpre
  | cons b l ih =>
    rw [raise]
    cases hl : raise l with
    | some l' => exact ⟨_, rfl⟩
    | none =>
      simp only [List.mem_cons, exists_eq_or_imp] at hpre
      rcases hpre with hb | hrest
      · exact ⟨_, if_pos hb⟩
      · obtain ⟨u, hu⟩ := ih hrest
        cases hl.symm.trans hu

/-- The rows of a sorted table with a prefix are those below its bound, and they
are what its pages give one after the other, although rows that were returned may
be deleted before the next page. -/
theorem scans_exact (rows : List Row) (hrows : rows.Pairwise fun p q => p.1 < q.1)
    (pre : Key) (hpre : ∃ b ∈ pre, b < 0xff) (limit : Int) (hlimit : 1 ≤ limit)
    (gone : List Row → Key → Bool) :
    (∀ k, pre <+: k ↔ pre ≤ k ∧ k < prefixUpperBound pre) ∧
      list rows pre = rows.filter (fun p => pre.isPrefixOf p.1) ∧
      ∀ fuel, rows.length < fuel → follow pre limit gone fuel rows [] [] = list rows pre := by
  obtain ⟨u, hu⟩ := exists_raise hpre
  have hne : pre ≠ [] := by
    rintro rfl
    cases hu
  have hbound : ∀ k, pre <+: k ↔ pre ≤ k ∧ k < prefixUpperBound pre := by
    intro k
    rw [prefixUpperBound, if_neg hne, prefix_iff, hu]
    simp
  refine ⟨hbound, ?_, fun fuel hfuel => ?_⟩
  · refine List.filter_congr fun p _ => ?_
    rw [Bool.eq_iff_iff, List.isPrefixOf_iff_prefix, hbound]
    simp [hne]
  · exact follow_eq hlimit gone hrows (Nat.lt_of_le_of_lt (List.length_filter_le _ _) hfuel)
      (by simp)

theorem scans_exact_two :
    follow [97] 1 (fun _ _ => true) 4 [([97], []), ([97, 255], [1]), ([98], [])] [] [] =
      [([97], []), ([97, 255], [1])] :=
  ((scans_exact [([97], []), ([97, 255], [1]), ([98], [])] (by decide) [97] (by decide) 1
    (by decide) fun _ _ => true).2.2 4 (by decide)).trans (by decide)

end DurableTasks.Shards
