import DurableTasks.Engine.DurableConduct
import DurableTasks.Retention.Purge
import DurableTasks.Standalone.Specs

/-!
What belongs to a run and to a standalone activity, and what the removal of one
deletes: everything that belongs to it, its row last.
-/

namespace DurableTasks

open Effects Engine Listing

variable {req : String} {s : Store} {k : Key} {w : World} {n : Nat}

/-! ## Ownership -/

def runKeyed : Keyed Store Key Key.Val :=
  ⟨Store.get, Store.del, Store.get_del_self, fun s => Store.get_del_of_ne s⟩

/-- The keys of activity `r`: its row, its history and the requests that started
it. -/
def ActivityStore.Owns (s : ActivityStore) (r : RunRef) : ActivityKey → Prop
  | .act c | .ahist c _ => c = r
  | .aidem ns id req => ns = r.ns ∧ id = r.wf ∧ s.get (.aidem ns id req) = some r.run

theorem RunRef.eq_of_parts {r c : RunRef} (hns : r.ns = c.ns) (hwf : r.wf = c.wf)
    (hrun : r.run = c.run) : r = c := by
  cases r
  cases c
  simp only at hns hwf hrun
  subst hns hwf hrun
  rfl

def Store.owners (s : Store) : Owners RunRef Key where
  row := .wf
  owns := s.Owns
  owns_row := fun _ => rfl
  unique := by
    intro r c k hr hc
    cases k with
    | wf | wfh | wfact | wfopen => exact hr.symm.trans hc
    | idem ns wf req =>
      exact RunRef.eq_of_parts (hr.1.symm.trans hc.1) (hr.2.1.symm.trans hc.2.1)
        (Option.some.inj (hr.2.2.symm.trans hc.2.2))
    | sctrig ns sid req =>
      obtain ⟨hwf, hrun⟩ := Prod.mk.inj (Option.some.inj (hr.2.symm.trans hc.2))
      exact RunRef.eq_of_parts (hr.1.symm.trans hc.1) hwf hrun
    | ns | wfidx => exact hr.elim

def ActivityStore.owners (s : ActivityStore) : Owners RunRef ActivityKey where
  row := .act
  owns := s.Owns
  owns_row := fun _ => rfl
  unique := by
    intro r c k hr hc
    cases k with
    | act | ahist => exact hr.symm.trans hc
    | aidem ns id req =>
      exact RunRef.eq_of_parts (hr.1.symm.trans hc.1) (hr.2.1.symm.trans hc.2.1)
        (Option.some.inj (hr.2.2.symm.trans hc.2.2))

/-- A closed run of `ns` that closed at or before `cutoff`. -/
def Store.Expired (s : Store) (ns : String) (cutoff : Int) (r : RunRef) : Prop :=
  r.ns = ns ∧ ∃ row, s.get (.wf r) = some row ∧ row.isOpen = false ∧
    (closedAt row * Standalone.second : Int) ≤ cutoff

def ActivityStore.Expired (s : ActivityStore) (ns : String) (cutoff : Int) (r : RunRef) : Prop :=
  r.ns = ns ∧ ∃ a, s.get (.act r) = some a ∧ a.status.isTerminal = true ∧
    (Standalone.closedAt a * Standalone.second : Int) ≤ cutoff

/-- A manual trigger names a run that carries the stamp of its schedule. -/
def Store.Stamped (s : Store) : Prop :=
  ∀ r row sid req, s.get (.wf r) = some row → s.get (.sctrig r.ns sid req) = some (r.wf, r.run) →
    sid ≠ "" ∧ scheduleOf row = sid

/-! ## The keys a removal deletes -/

def ActivityStore.purgeKeys (s : ActivityStore) (r : RunRef) : List ActivityKey :=
  (s.events r).map (fun p => .ahist r p.1) ++
    ((s.requests r.ns r.wf).filter fun p => p.2 = r.run).map fun p => .aidem r.ns r.wf p.1

theorem ActivityStore.mem_requests {s : ActivityStore} {ns id run : String} :
    (req, run) ∈ s.requests ns id ↔ s.get (.aidem ns id req) = some run := mem_under

/-! ## A run is removed -/

section Workflow

variable {s₀ : Store} {ns : String} {cutoff : Int} {r : RunRef} {row : WorkflowExecution}

/-- The keys of run `r` that are stored, its row apart, are the ones its purge
deletes. -/
theorem Store.mem_purgeKeys (hstamped : s.Stamped) (hrow : s.get (.wf r) = some row)
    (hk : s.Owns r k) (hne : k ≠ .wf r) (hsome : s.get k ≠ none) : k ∈ s.purgeKeys r row := by
  simp only [Store.purgeKeys, List.mem_append, List.mem_map, List.mem_filter, decide_eq_true_eq,
    List.mem_singleton]
  obtain ⟨v, hv⟩ := Option.ne_none_iff_exists'.mp hsome
  cases k with
  | wf c => exact absurd (congrArg Key.wf hk) hne
  | wfh c id =>
    obtain rfl : c = r := hk
    exact .inl (.inl (.inl (.inl ⟨(id, v), Store.mem_events.mpr hv, rfl⟩)))
  | wfact c seq =>
    obtain rfl : c = r := hk
    exact .inl (.inl (.inl (.inr ⟨(seq, v), Store.mem_acts.mpr hv, rfl⟩)))
  | wfopen c => exact .inr (congrArg Key.wfopen hk)
  | idem ns wf req =>
    obtain ⟨rfl, rfl, hrun⟩ := hk
    exact .inl (.inl (.inr ⟨(req, r.run), ⟨Store.mem_requests.mpr hrun, rfl⟩, rfl⟩))
  | sctrig ns sid req =>
    obtain ⟨rfl, hrun⟩ := hk
    obtain ⟨hsid, rfl⟩ := hstamped r row sid req hrow hrun
    refine .inl (.inr ?_)
    rw [if_neg hsid, List.mem_map]
    refine ⟨(req, r.wf, r.run), ?_, rfl⟩
    rw [List.mem_filter]
    exact ⟨Store.mem_triggers.mpr hrun, by simp⟩
  | ns | wfidx => exact hk.elim

theorem World.store_writes_del (ks : List Key) (w : World) :
    (w.writes (ks.map .del)).store = ks.foldl Store.del w.store := by
  induction ks generalizing w with
  | nil => rfl
  | cons k ks ih => exact ih (w.write (.del k))

theorem along_del {I : Store → Prop} {ks : List Key}
    (h : ∀ n, I ((ks.take n).foldl Store.del w.store)) :
    Along (fun w x => I (w.store.apply x)) w (ks.map .del) := by
  induction ks generalizing w with
  | nil => trivial
  | cons k ks ih => exact ⟨h 1, ih fun n => h (n + 1)⟩

/-- `s` is `s₀` after some keys of runs of `ns` that closed at or before `cutoff`
were deleted. In a store of stamped runs, the row of each of them went last. -/
abbrev Store.Thinned (ns : String) (cutoff : Int) (s₀ s : Store) : Prop :=
  Partly runKeyed s₀.owners (s₀.Expired ns cutoff) s₀.Stamped s₀ s

namespace Store.Thinned

variable {s : Store}

theorem refl : Thinned ns cutoff s₀ s₀ := by
  refine Partly.refl ?_
  rintro r ⟨-, row, hrow, -⟩
  show s₀.get (.wf r) ≠ none
  rw [hrow]
  exact Option.some_ne_none row

theorem get (h : Thinned ns cutoff s₀ s) {v : k.Val} (hv : s.get k = some v) : s₀.get k = some v :=
  Partly.get_some h hv

theorem stamped (h : Thinned ns cutoff s₀ s) (hstamped : s₀.Stamped) : s.Stamped :=
  fun r row sid req hrow htrig => hstamped r row sid req (h.get hrow) (h.get htrig)

theorem owns (h : Thinned ns cutoff s₀ s) (hk : s.Owns r k) : s₀.Owns r k := by
  cases k with
  | idem ns wf req => exact ⟨hk.1, hk.2.1, h.get hk.2.2⟩
  | sctrig ns sid req => exact ⟨hk.1, h.get hk.2⟩
  | _ => exact hk

/-- A key that is still there has the owner it had. -/
theorem owns_of_some (h : Thinned ns cutoff s₀ s) (hk : s₀.Owns r k) (hsome : s.get k ≠ none) :
    s.Owns r k := by
  have hget : s.get k = s₀.get k := (h.key k).resolve_right fun hgone => hsome hgone.1
  cases k with
  | idem | sctrig => simpa only [Store.Owns, hget] using hk
  | _ => exact hk

theorem along_purge (h : Thinned ns cutoff s₀ w.store) (hns : r.ns = ns)
    (hrow : w.store.get (.wf r) = some row) (hshut : row.isOpen = false)
    (hclosed : (closedAt row * Standalone.second : Int) ≤ cutoff) :
    Along (fun w x => Thinned ns cutoff s₀ (w.store.apply x)) w
        ((w.store.purgeKeys r row ++ [Key.wf r]).map .del) ∧
      Thinned ns cutoff s₀ (w.writes ((w.store.purgeKeys r row ++ [Key.wf r]).map .del)).store := by
  have hexpired : s₀.Expired ns cutoff r := ⟨hns, row, h.get hrow, hshut, hclosed⟩
  have howned : ∀ k ∈ w.store.purgeKeys r row, s₀.owners.owns r k ∧ k ≠ s₀.owners.row r :=
    fun k hk => ⟨h.owns (Store.owns_of_mem_purgeKeys hk).1, (Store.owns_of_mem_purgeKeys hk).2⟩
  have hall : s₀.Stamped → ∀ k, s₀.owners.owns r k → k ≠ s₀.owners.row r →
      w.store.get k ≠ none → k ∈ w.store.purgeKeys r row := fun hstamped k hk hne hsome =>
    Store.mem_purgeKeys (h.stamped hstamped) hrow (h.owns_of_some hk hsome) hne hsome
  have hpurge := Partly.remove h hexpired howned hall
  have hfinal := hpurge ((w.store.purgeKeys r row).length + 1)
  rw [List.take_of_length_le (by simp)] at hfinal
  refine ⟨along_del hpurge, ?_⟩
  rw [World.store_writes_del]
  exact hfinal

end Store.Thinned

def World.purged (w : World) (r : RunRef) (cutoff : Nat) : World :=
  match w.store.get (.wf r) with
  | none => w
  | some row =>
    if row.isOpen ∨ cutoff < closedAt row then w
    else w.writes ((w.store.purgeKeys r row ++ [Key.wf r]).map .del)

theorem World.row_purged_of_ne {c : RunRef} (h : c ≠ r) :
    (w.purged r n).store.get (.wf c) = w.store.get (.wf c) := by
  unfold World.purged
  cases hrow : w.store.get (.wf r) with
  | none => rfl
  | some row =>
    dsimp only
    split_ifs
    · rfl
    rw [get_writes_del]
    exact if_neg fun hmem => h (Store.owns_of_mem_purge (k := .wf c) hmem)

theorem World.row_purged_self (hrow : w.store.get (.wf r) = some row) :
    (w.purged r n).store.get (.wf r) =
      if row.isOpen ∨ n < closedAt row then some row else none := by
  unfold World.purged
  rw [hrow]
  dsimp only
  split_ifs
  · exact hrow
  · rw [get_writes_del]
    exact if_pos (by simp)

/-- The purge of a run, tried at any point of the removal of runs. -/
theorem purgeWorkflowRun_thins {c : Nat} (h : Store.Thinned ns cutoff s₀ w.store)
    (hns : r.ns = ns) (hc : (c * Standalone.second : Int) ≤ cutoff) :
    (purgeWorkflowRun r c).spec (fun _ => True)
      (fun w x => Store.Thinned ns cutoff s₀ (w.store.apply x))
      (fun res w' => (∃ gone, res = .ok gone) ∧ w' = w.purged r c ∧
        Store.Thinned ns cutoff s₀ w'.store) w := by
  refine purgeWorkflowRun_spec (fun hkept => ⟨⟨false, rfl⟩, ?_, h⟩) fun row hrow hshut hle => ?_
  · unfold World.purged
    cases hrow : w.store.get (.wf r) with
    | none => rfl
    | some row => exact (if_pos (hkept row hrow)).symm
  · have hclosed : (closedAt row * Standalone.second : Int) ≤ cutoff := by
      refine le_trans ?_ hc
      exact Int.mul_le_mul_of_nonneg_right (Int.ofNat_le.mpr hle) (by simp [Standalone.second])
    have hpurge := h.along_purge hns hrow hshut hclosed
    refine ⟨hpurge.1, ⟨true, rfl⟩, ?_, hpurge.2⟩
    simp [World.purged, hrow, hshut, Nat.not_lt.mpr hle]

end Workflow

/-! ## An activity is removed -/

section Activity

variable {s₀ : ActivityStore} {ns : String} {cutoff : Int} {r : RunRef} {a : StandaloneActivity}

theorem ActivityStore.mem_purgeKeys {s : ActivityStore} {k : ActivityKey} (hk : s.Owns r k)
    (hne : k ≠ .act r) (hsome : s.get k ≠ none) : k ∈ s.purgeKeys r := by
  simp only [ActivityStore.purgeKeys, List.mem_append, List.mem_map, List.mem_filter,
    decide_eq_true_eq]
  obtain ⟨v, hv⟩ := Option.ne_none_iff_exists'.mp hsome
  cases k with
  | act c => exact absurd (congrArg ActivityKey.act hk) hne
  | ahist c id =>
    obtain rfl : c = r := hk
    exact .inl ⟨(id, v), ActivityStore.mem_events.mpr hv, rfl⟩
  | aidem ns id req =>
    obtain ⟨rfl, rfl, hrun⟩ := hk
    exact .inr ⟨(req, r.run), ⟨ActivityStore.mem_requests.mpr hrun, rfl⟩, rfl⟩

theorem ActivityStore.owns_of_mem_purgeKeys {s : ActivityStore} {k : ActivityKey}
    (hk : k ∈ s.purgeKeys r) : s.Owns r k ∧ k ≠ .act r := by
  simp only [ActivityStore.purgeKeys, List.mem_append, List.mem_map, List.mem_filter,
    decide_eq_true_eq] at hk
  rcases hk with ⟨p, -, rfl⟩ | ⟨p, ⟨hp, hrun⟩, rfl⟩
  · exact ⟨rfl, by simp⟩
  · refine ⟨⟨rfl, rfl, ?_⟩, by simp⟩
    rw [← hrun]
    exact ActivityStore.mem_requests.mp hp

/-- `s` is `s₀` after some keys of activities of `ns` that closed at or before
`cutoff` were deleted, the row of each of them last. -/
abbrev ActivityStore.Thinned (ns : String) (cutoff : Int) (s₀ s : ActivityStore) : Prop :=
  Partly activityKeyed s₀.owners (s₀.Expired ns cutoff) True s₀ s

namespace ActivityStore.Thinned

variable {s : ActivityStore}

theorem refl : Thinned ns cutoff s₀ s₀ := by
  refine Partly.refl ?_
  rintro r ⟨-, a, ha, -⟩
  show s₀.get (.act r) ≠ none
  rw [ha]
  exact Option.some_ne_none a

theorem get (h : Thinned ns cutoff s₀ s) {k : ActivityKey} {v : k.Val} (hv : s.get k = some v) :
    s₀.get k = some v :=
  Partly.get_some h hv

theorem owns (h : Thinned ns cutoff s₀ s) {k : ActivityKey} (hk : s.Owns r k) : s₀.Owns r k := by
  cases k with
  | aidem ns id req => exact ⟨hk.1, hk.2.1, h.get hk.2.2⟩
  | _ => exact hk

theorem owns_of_some (h : Thinned ns cutoff s₀ s) {k : ActivityKey} (hk : s₀.Owns r k)
    (hsome : s.get k ≠ none) : s.Owns r k := by
  have hget : s.get k = s₀.get k := (h.key k).resolve_right fun hgone => hsome hgone.1
  cases k with
  | aidem => simpa only [ActivityStore.Owns, hget] using hk
  | _ => exact hk

end ActivityStore.Thinned

/-- The weakest precondition of an activity function that leaves `I` of the
store behind after each access. -/
def Standalone.Act.specIn {α : Type} (I : ActivityStore → Prop) (x : Standalone.Act α)
    (Q : Except String α → Shard → Prop) (s : Shard) : Prop :=
  specOf activityHandler (fun _ _ => True) (fun s e => I (activityHandler e s).2.acts) x Q s

namespace Standalone.Act

variable {α β : Type} {I : ActivityStore → Prop} {s : Shard}

theorem specIn_bind {Q : Post β Shard} (x : Act α) (f : α → Act β) :
    (x >>= f).specIn I Q s ↔
      x.specIn I (fun res s' => match res with
        | .ok a => (f a).specIn I Q s'
        | .error e => Q (.error e) s') s :=
  specOf.bind_iff x f (fun _ _ => Iff.rfl) fun _ _ => Iff.rfl

theorem read_access {P J : Prop} (hJ : J) : (True → J ∧ P) ↔ P :=
  ⟨fun h => (h trivial).2, fun h _ => ⟨hJ, h⟩⟩

theorem specIn_describeActivity (hs : I s.acts) {Q : Post (Option StandaloneActivity) Shard} :
    (describeActivity r).specIn I Q s ↔ Q (.ok (s.acts.get (.act r))) s := read_access hs

theorem specIn_listEvents (hs : I s.acts) {Q : Post (List (Nat × ActivityEvent)) Shard} :
    (listEvents r).specIn I Q s ↔ Q (.ok (s.acts.events r)) s := read_access hs

theorem specIn_listRequests (hs : I s.acts) {id : String}
    {Q : Post (List (String × String)) Shard} :
    (listRequests ns id).specIn I Q s ↔ Q (.ok (s.acts.requests ns id)) s := read_access hs

theorem specIn_delAll {keys : List ActivityKey} {Q : Post Unit Shard}
    (hQ : Q (.ok ()) { s with acts := keys.foldl ActivityStore.del s.acts })
    (hkeys : ∀ n, I ((keys.take n).foldl ActivityStore.del s.acts)) :
    (delAll keys).specIn I Q s := by
  induction keys generalizing s with
  | nil => exact hQ
  | cons k keys ih =>
    change (del k >>= fun _ => delAll keys).specIn I Q s
    rw [specIn_bind]
    intro _
    exact ⟨hkeys 1, ih hQ fun n => hkeys (n + 1)⟩

end Standalone.Act

def Shard.purged (s : Shard) (r : RunRef) (cutoff : Nat) : Shard :=
  match s.acts.get (.act r) with
  | none => s
  | some a =>
    if !a.status.isTerminal ∨ cutoff < Standalone.closedAt a * Standalone.second then s
    else
      { s with
        acts := (s.acts.purgeKeys r ++ [ActivityKey.act r]).foldl ActivityStore.del s.acts }

theorem Shard.row_purged_of_ne {s : Shard} {c : RunRef} (h : c ≠ r) :
    (s.purged r n).acts.get (.act c) = s.acts.get (.act c) := by
  unfold Shard.purged
  cases ha : s.acts.get (.act r) with
  | none => rfl
  | some a =>
    dsimp only
    split_ifs
    · rfl
    refine (ActivityStore.get_foldl_del _ s.acts (.act c)).trans (if_neg fun hmem => ?_)
    rcases List.mem_append.mp hmem with hmem | hmem
    · exact h (ActivityStore.owns_of_mem_purgeKeys hmem).1
    · exact h (ActivityKey.act.inj (List.mem_singleton.mp hmem))

theorem Shard.row_purged_self {s : Shard} (ha : s.acts.get (.act r) = some a) :
    (s.purged r n).acts.get (.act r) =
      if !a.status.isTerminal ∨ n < Standalone.closedAt a * Standalone.second then some a
      else none := by
  unfold Shard.purged
  rw [ha]
  dsimp only
  split_ifs
  · exact ha
  · exact (ActivityStore.get_foldl_del _ s.acts (.act r)).trans (if_pos (by simp))

theorem Shard.world_purged {s : Shard} : (s.purged r n).world = s.world := by
  unfold Shard.purged
  cases s.acts.get (.act r) with
  | none => rfl
  | some a =>
    dsimp only
    split_ifs <;> rfl

/-- The purge of an activity, tried at any point of the removal of
activities. -/
theorem purgeActivityRun_thins {c : Nat} {s : Shard}
    (h : ActivityStore.Thinned ns cutoff s₀ s.acts) (hns : r.ns = ns) (hc : (c : Int) ≤ cutoff) :
    (Standalone.purgeActivityRun r c).specIn (ActivityStore.Thinned ns cutoff s₀)
      (fun res s' => (∃ gone, res = .ok gone) ∧ s' = s.purged r c ∧
        ActivityStore.Thinned ns cutoff s₀ s'.acts) s := by
  rw [Standalone.purgeActivityRun, Standalone.Act.specIn_bind,
    Standalone.Act.specIn_describeActivity h, Shard.purged]
  cases ha : s.acts.get (.act r) with
  | none => exact ⟨⟨false, rfl⟩, rfl, h⟩
  | some a =>
    dsimp only
    split_ifs with hskip
    · exact ⟨⟨false, rfl⟩, rfl, h⟩
    obtain ⟨hterm, hle⟩ := not_or.mp hskip
    have hexpired : s₀.Expired ns cutoff r := by
      refine ⟨hns, a, h.get ha, by simpa using hterm, le_trans ?_ hc⟩
      exact_mod_cast Nat.not_lt.mp hle
    have howned : ∀ k ∈ s.acts.purgeKeys r, s₀.owners.owns r k ∧ k ≠ s₀.owners.row r :=
      fun k hk => ⟨h.owns (ActivityStore.owns_of_mem_purgeKeys hk).1,
        (ActivityStore.owns_of_mem_purgeKeys hk).2⟩
    have hpurge := Partly.remove h hexpired howned fun _ k hk hne hsome =>
      ActivityStore.mem_purgeKeys (h.owns_of_some hk hsome) hne hsome
    rw [Standalone.Act.specIn_bind, Standalone.Act.specIn_listEvents h]
    dsimp only
    rw [Standalone.Act.specIn_bind, Standalone.Act.specIn_listRequests h]
    dsimp only
    rw [Standalone.Act.specIn_bind]
    have hfinal := hpurge ((s.acts.purgeKeys r).length + 1)
    rw [List.take_of_length_le (by simp)] at hfinal
    exact Standalone.Act.specIn_delAll ⟨⟨true, rfl⟩, rfl, hfinal⟩ hpurge

end Activity

end DurableTasks
