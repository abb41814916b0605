import DurableTasks.Replication.Shard

/-!
Several nodes that propose through quasar. A proposal is broadcast to the peers one
after the other, each applies it once its own engine has accepted the block, and
the proposer applies it last. Nothing orders two proposals that are under way at
once, so the nodes agree only where these touch different keys.
-/

namespace DurableTasks.Replication

variable {f : Frame} {m : Machine}

variable (R : SegmentRule)

/-! ## Frames that do not meet -/

abbrev Place := Principal × String × String

/-- What a frame does on a node that works: the row it writes and what it leaves
there. -/
def Frame.effect (f : Frame) : Option (Place × Option (List UInt8)) :=
  match Principal.parse R f.principal with
  | .error _ => none
  | .ok p =>
    match Node.get R {} {} p f.ns with
    | .error _ => none
    | .ok () =>
      match f.op with
      | .put => some ((p, f.ns, f.key), some f.value)
      | .del => some ((p, f.ns, f.key), none)
      | _ => none

def Frame.Apart (f g : Frame) : Prop :=
  ∀ x ∈ f.effect R, ∀ y ∈ g.effect R, x.1 ≠ y.1

instance (f g : Frame) : Decidable (f.Apart R g) :=
  inferInstanceAs (Decidable (∀ x ∈ f.effect R, ∀ y ∈ g.effect R, x.1 ≠ y.1))

def Node.write (n : Node) (x : Place) (v : Option (List UInt8)) : Node :=
  { n with
    shards := Function.update n.shards (x.1, x.2.1)
      (Function.update (n.shards (x.1, x.2.1)) x.2.2 v) }

def Node.applied (n : Node) (f : Frame) : Node :=
  match f.effect R with
  | none => n
  | some (x, v) => n.write x v

@[simp] theorem Node.closed_applied (n : Node) (f : Frame) :
    (n.applied R f).closed = n.closed := by
  rw [Node.applied]
  split <;> rfl

theorem Node.write_comm (n : Node) {x y : Place} (h : x ≠ y) (v w : Option (List UInt8)) :
    (n.write x v).write y w = (n.write y w).write x v := by
  obtain ⟨p, ns, key⟩ := x
  obtain ⟨p', ns', key'⟩ := y
  simp only [Node.write]
  congr 1
  by_cases hshard : (p, ns) = (p', ns')
  · obtain ⟨rfl, rfl⟩ := Prod.mk.inj hshard
    have hkey : key ≠ key' := fun hkey => h (by rw [hkey])
    simp only [Function.update_self, Function.update_idem]
    rw [Function.update_comm hkey]
  · rw [Function.update_of_ne (Ne.symm hshard), Function.update_of_ne hshard,
      Function.update_comm hshard]

variable {R} in
theorem Node.applied_comm (n : Node) {g : Frame} (h : f.Apart R g) :
    (n.applied R f).applied R g = (n.applied R g).applied R f := by
  unfold Node.applied
  cases hf : f.effect R with
  | none => rfl
  | some x =>
    cases hg : g.effect R with
    | none => rfl
    | some y => exact n.write_comm (h x hf y hg) x.2 y.2

theorem Node.handle_eq_applied {n : Node} (h : m.Works n) (f : Frame) :
    (n.handle R m f).2 = n.applied R f := by
  obtain ⟨hclosed, hopening, hexec⟩ := h
  have hget : ∀ p, n.get R m p f.ns = Node.get R {} {} p f.ns := by
    intro p
    simp only [Node.get, hclosed, hopening]
  unfold Node.handle Node.applied Frame.effect
  cases Principal.parse R f.principal with
  | error err => rfl
  | ok p =>
    simp only [hget]
    cases Node.get R {} {} p f.ns with
    | error err => rfl
    | ok u =>
      cases hop : f.op <;> simp only [Node.applyFrame, hop, Node.exec, hexec] <;> rfl

/-! ## The cluster -/

variable {N : Type} [DecidableEq N]

/-- A proposal: the peers its broadcast has yet to reach, the nodes whose handler
has run, and what `Propose` returned. -/
structure Proposal (N : Type) where
  origin : N
  frame : Frame
  waiting : List N
  applied : List N := []
  outcome : Option Decision := none

structure Cluster (N : Type) where
  nodes : N → Node
  height : N → Nat := fun _ => 0
  proposals : List (Proposal N) := []

/-- `propose` is `Propose` up to its broadcast, with the error of `engine.Add`;
`receive` is `handleFrame` on the next peer of a broadcast; `decide` is the rest of
`Propose`. An accepted block is seen so by the first poll, so what matters of a
poll loop is whether it polls before its deadline at all. -/
inductive Step (N : Type) where
  | propose (i : N) (f : Frame) (add : Option String)
  | receive (k : Nat) (polled : Bool) (m : Machine)
  | decide (k : Nat) (polled : Bool) (m : Machine)

/-- `Seq` is the next height unless the frame has one. -/
def Cluster.numbered (c : Cluster N) (i : N) (f : Frame) : Frame :=
  if f.seq = 0 then { f with seq := c.height i + 1 } else f

def Cluster.propose (peers : List N) (c : Cluster N) (i : N) (f : Frame) (add : Option String) :
    Cluster N :=
  { c with
    height := if f.seq = 0 then Function.update c.height i (c.height i + 1) else c.height
    proposals := c.proposals ++
      [{ origin := i
         frame := c.numbered i f
         waiting := if add.isNone then peers.filter (· ≠ i) else []
         outcome := if add.isNone then none else some .reject }] }

def Cluster.applyAccepted (c : Cluster N) (i : N) (m : Machine) (f : Frame) : Cluster N :=
  { c with nodes := Function.update c.nodes i ((c.nodes i).handle R m f).2 }

def Cluster.setProposal (c : Cluster N) (k : Nat) (p : Proposal N) : Cluster N :=
  { c with proposals := c.proposals.set k p }

def Cluster.step (peers : List N) (c : Cluster N) : Step N → Option (Cluster N)
  | .propose i f add => if i ∈ peers then some (c.propose peers i f add) else none
  | .receive k polled m => do
      let p ← c.proposals[k]?
      match p.outcome, p.waiting with
      | none, i :: rest =>
        if polled then
          some ((c.applyAccepted R i m p.frame).setProposal k
            { p with waiting := rest, applied := i :: p.applied })
        else some (c.setProposal k { p with waiting := rest })
      | _, _ => none
  | .decide k polled m => do
      let p ← c.proposals[k]?
      match p.outcome, p.waiting with
      | none, [] =>
        if polled then
          some ((c.applyAccepted R p.origin m p.frame).setProposal k
            { p with applied := p.origin :: p.applied, outcome := some .accept })
        else some (c.setProposal k { p with outcome := some .timeout })
      | _, _ => none

def Cluster.run (peers : List N) (c : Cluster N) : List (Step N) → Option (Cluster N)
  | [] => some c
  | s :: steps => do (← c.step R peers s).run peers steps

def Cluster.Finished (c : Cluster N) : Prop := ∀ p ∈ c.proposals, p.outcome ≠ none

instance (c : Cluster N) : Decidable c.Finished :=
  inferInstanceAs (Decidable (∀ p ∈ c.proposals, p.outcome ≠ none))

/-- The nodes hold the same rows, and no timed-out proposal is on some of them
only. -/
structure Cluster.Agrees (peers : List N) (c : Cluster N) : Prop where
  rows : ∀ i ∈ peers, ∀ j ∈ peers, (c.nodes i).shards = (c.nodes j).shards
  timeouts : ∀ p ∈ c.proposals, p.outcome = some .timeout →
    (∀ i ∈ peers, i ∉ p.applied) ∨ ∀ i ∈ peers, i ∈ p.applied

/-- No proposals yet, and the same rows on every node. -/
def Cluster.Fresh (peers : List N) (c : Cluster N) : Prop :=
  c.proposals = [] ∧ ∃ n : Node, n.closed = false ∧ ∀ i ∈ peers, c.nodes i = n

/-- A proposal starts while none is under way for the same row; a node that is to
apply a frame polls in time and its database works. -/
def Cluster.Calm (c : Cluster N) : Step N → Prop
  | .propose i f _ => ∀ p ∈ c.proposals, p.outcome = none → p.frame.Apart R (c.numbered i f)
  | .receive _ polled m | .decide _ polled m =>
    polled = true ∧ m.opening = none ∧ m.exec = none

instance (c : Cluster N) : (s : Step N) → Decidable (c.Calm R s)
  | .propose i f _ => inferInstanceAs (Decidable
      (∀ p ∈ c.proposals, p.outcome = none → p.frame.Apart R (c.numbered i f)))
  | .receive _ _ _ | .decide _ _ _ => inferInstanceAs (Decidable (_ ∧ _ ∧ _))

def Cluster.CalmRun (peers : List N) (c : Cluster N) : List (Step N) → Prop
  | [] => True
  | s :: steps => c.Calm R s ∧
      match c.step R peers s with
      | none => True
      | some c' => c'.CalmRun peers steps

instance (peers : List N) (c : Cluster N) : (steps : List (Step N)) →
    Decidable (c.CalmRun R peers steps)
  | [] => inferInstanceAs (Decidable True)
  | s :: steps =>
    have : Decidable (match c.step R peers s with
        | none => True
        | some c' => c'.CalmRun R peers steps) :=
      match c.step R peers s with
      | none => inferInstanceAs (Decidable True)
      | some c' => instDecidableCalmRun peers c' steps
    inferInstanceAs (Decidable (c.Calm R s ∧ _))

/-! ## What a node still owes -/

def Proposal.Owes (p : Proposal N) (i : N) : Prop :=
  p.outcome = none ∧ (i ∈ p.waiting ∨ i = p.origin)

instance (p : Proposal N) (i : N) : Decidable (p.Owes i) :=
  inferInstanceAs (Decidable (_ ∧ _))

def owed (i : N) (proposals : List (Proposal N)) : List Frame :=
  (proposals.filter fun p => p.Owes i).map (·.frame)

def Cluster.eventual (c : Cluster N) (i : N) : Node :=
  (owed i c.proposals).foldl (Node.applied R) (c.nodes i)

theorem owed_append (i : N) (l l' : List (Proposal N)) :
    owed i (l ++ l') = owed i l ++ owed i l' := by
  simp [owed]

theorem owed_cons_of_owes {i : N} {p : Proposal N} (h : p.Owes i) (l : List (Proposal N)) :
    owed i (p :: l) = p.frame :: owed i l := by
  simp [owed, h]

theorem owed_cons_of_not_owes {i : N} {p : Proposal N} (h : ¬p.Owes i)
    (l : List (Proposal N)) : owed i (p :: l) = owed i l := by
  simp [owed, h]

theorem owed_cons_congr {i : N} {p p' : Proposal N} (hframe : p'.frame = p.frame)
    (howes : p'.Owes i ↔ p.Owes i) (l : List (Proposal N)) :
    owed i (p' :: l) = owed i (p :: l) := by
  by_cases h : p.Owes i
  · rw [owed_cons_of_owes h, owed_cons_of_owes (howes.mpr h), hframe]
  · rw [owed_cons_of_not_owes h, owed_cons_of_not_owes (mt howes.mp h)]

theorem mem_owed {i : N} {proposals : List (Proposal N)} (h : f ∈ owed i proposals) :
    ∃ p ∈ proposals, p.outcome = none ∧ p.frame = f := by
  obtain ⟨p, hp, rfl⟩ := List.mem_map.mp h
  obtain ⟨hmem, howes⟩ := List.mem_filter.mp hp
  exact ⟨p, hmem, (of_decide_eq_true howes).1, rfl⟩

variable {R}

/-- A frame may be applied before those it does not meet. -/
theorem foldl_applied_comm {fs : List Frame} (h : ∀ g ∈ fs, g.Apart R f) (n : Node) :
    fs.foldl (Node.applied R) (n.applied R f) = (fs.foldl (Node.applied R) n).applied R f := by
  induction fs generalizing n with
  | nil => rfl
  | cons g fs ih =>
    have hg : g.Apart R f := h g List.mem_cons_self
    rw [List.foldl_cons, List.foldl_cons, ← n.applied_comm hg]
    exact ih (fun g' hg' => h g' (List.mem_cons_of_mem _ hg')) _

variable (R) in
/-- The nodes would agree if they applied what they owe, in any order: what is
under way does not meet. -/
structure Cluster.Converging (peers : List N) (c : Cluster N) : Prop where
  opened : ∀ i ∈ peers, (c.nodes i).closed = false
  apart : c.proposals.Pairwise fun p q =>
    p.outcome = none → q.outcome = none → p.frame.Apart R q.frame
  waiting : ∀ p ∈ c.proposals, p.origin ∈ peers ∧ p.waiting ⊆ peers ∧ p.waiting.Nodup ∧
    p.origin ∉ p.waiting
  inTime : ∀ p ∈ c.proposals, p.outcome ≠ some .timeout
  eventual : ∃ n, ∀ i ∈ peers, c.eventual R i = n

variable {peers : List N} {c c' : Cluster N}

theorem Cluster.Converging.propose (h : c.Converging R peers) (hpeers : peers.Nodup) {i : N}
    (hi : i ∈ peers) (add : Option String)
    (hcalm : ∀ p ∈ c.proposals, p.outcome = none → p.frame.Apart R (c.numbered i f)) :
    (c.propose peers i f add).Converging R peers := by
  obtain ⟨n, hn⟩ := h.eventual
  refine ⟨h.opened, ?_, ?_, ?_, ?_⟩
  · refine List.pairwise_append.mpr ⟨h.apart, List.pairwise_singleton _ _, ?_⟩
    intro p hp q hq hopen _
    rw [List.mem_singleton.mp hq]
    exact hcalm p hp hopen
  · intro p hp
    rcases List.mem_append.mp hp with hp | hp
    · exact h.waiting p hp
    · grind [hpeers.filter]
  · intro p hp
    rcases List.mem_append.mp hp with hp | hp
    · exact h.inTime p hp
    · rw [List.mem_singleton.mp hp]
      cases add <;> simp
  · cases add with
    | none =>
      refine ⟨n.applied R (c.numbered i f), fun j hj => ?_⟩
      have howes : Proposal.Owes
          { origin := i, frame := c.numbered i f, waiting := peers.filter (· ≠ i) } j := by
        refine ⟨rfl, ?_⟩
        by_cases hji : j = i
        · exact .inr hji
        · exact .inl (List.mem_filter.mpr ⟨hj, decide_eq_true hji⟩)
      rw [Cluster.eventual, Cluster.propose, owed_append, List.foldl_append]
      simp only [Option.isNone_none, if_true, owed_cons_of_owes howes, List.foldl_cons]
      rw [← hn j hj]
      rfl
    | some err =>
      refine ⟨n, fun j hj => ?_⟩
      rw [Cluster.eventual, Cluster.propose, owed_append, List.foldl_append, ← hn j hj]
      rw [owed_cons_of_not_owes (by simp [Proposal.Owes])]
      rfl

theorem Cluster.Converging.apply (h : c.Converging R peers) {k : Nat} {p p' : Proposal N}
    (hk : c.proposals[k]? = some p) {i : N} (howes : p.Owes i) (hopening : m.opening = none)
    (hexec : m.exec = none) (hi : i ∈ peers) (hframe : p'.frame = p.frame)
    (howes' : ∀ j ∈ peers, p'.Owes j ↔ p.Owes j ∧ j ≠ i)
    (hopen : p'.outcome = none → p.outcome = none)
    (hwaiting : p'.origin ∈ peers ∧ p'.waiting ⊆ peers ∧ p'.waiting.Nodup ∧ p'.origin ∉ p'.waiting)
    (htime : p'.outcome ≠ some .timeout) :
    ((c.applyAccepted R i m p.frame).setProposal k p').Converging R peers := by
  obtain ⟨n, hn⟩ := h.eventual
  obtain ⟨hlt, hget⟩ := List.getElem?_eq_some_iff.mp hk
  have hsplit : c.proposals = c.proposals.take k ++ p :: c.proposals.drop (k + 1) := by
    rw [← hget, List.getElem_cons_drop, List.take_append_drop]
  have hset : c.proposals.set k p' =
      c.proposals.take k ++ p' :: c.proposals.drop (k + 1) := by
    rw [List.set_eq_take_append_cons_drop, if_pos hlt]
  have hnode : ((c.nodes i).handle R m p.frame).2 = (c.nodes i).applied R p.frame :=
    Node.handle_eq_applied R ⟨h.opened i hi, hopening, hexec⟩ _
  have hmem : ∀ q ∈ c.proposals.set k p', q = p' ∨ q ∈ c.proposals := by
    intro q hq
    rcases List.mem_or_eq_of_mem_set hq with hq | hq
    · exact .inr hq
    · exact .inl hq
  have hapart := h.apart
  rw [hsplit, List.pairwise_append, List.pairwise_cons] at hapart
  obtain ⟨hbefore, ⟨hpafter, hafter⟩, hcross⟩ := hapart
  refine ⟨fun j hj => ?_, ?_, ?_, ?_, n, fun j hj => ?_⟩
  · by_cases hji : j = i
    · subst hji
      simp only [Cluster.setProposal, Cluster.applyAccepted, Function.update_self, hnode,
        Node.closed_applied]
      exact h.opened j hj
    · simp only [Cluster.setProposal, Cluster.applyAccepted, Function.update_of_ne hji]
      exact h.opened j hj
  · show (c.proposals.set k p').Pairwise _
    rw [hset, List.pairwise_append, List.pairwise_cons]
    refine ⟨hbefore, ⟨fun q hq hp' => ?_, hafter⟩, fun q hq r hr hqopen hropen => ?_⟩
    · rw [hframe]
      exact hpafter q hq (hopen hp')
    · grind
  · intro q hq
    rcases hmem q hq with rfl | hq
    · exact hwaiting
    · exact h.waiting q hq
  · intro q hq
    rcases hmem q hq with rfl | hq
    · exact htime
    · exact h.inTime q hq
  · rw [← hn j hj, Cluster.eventual, Cluster.eventual, hsplit]
    simp only [Cluster.setProposal, Cluster.applyAccepted, hset, owed_append, List.foldl_append]
    by_cases hji : j = i
    · -- the frame moves ahead of what the node owes from earlier proposals
      subst hji
      rw [Function.update_self, hnode, owed_cons_of_owes howes,
        owed_cons_of_not_owes (fun h' => ((howes' j hj).mp h').2 rfl), List.foldl_cons,
        foldl_applied_comm]
      intro g hg
      obtain ⟨q, hq, hqopen, rfl⟩ := mem_owed hg
      exact hcross q hq p List.mem_cons_self hqopen howes.1
    · have hsame : p'.Owes j ↔ p.Owes j := by
        rw [howes' j hj]
        exact and_iff_left hji
      rw [Function.update_of_ne hji, owed_cons_congr hframe hsame]

theorem Cluster.Converging.receive (h : c.Converging R peers) {k : Nat}
    (hopening : m.opening = none) (hexec : m.exec = none)
    (hstep : c.step R peers (.receive k true m) = some c') : c'.Converging R peers := by
  simp only [Cluster.step, Option.bind_eq_bind, Option.bind_eq_some_iff] at hstep
  obtain ⟨p, hk, hstep⟩ := hstep
  obtain ⟨horigin, hsub, hnodup, hout⟩ := h.waiting p (List.mem_of_getElem? hk)
  cases houtcome : p.outcome with
  | some d => simp [houtcome] at hstep
  | none =>
    cases hwaiting : p.waiting with
    | nil => simp [houtcome, hwaiting] at hstep
    | cons i rest =>
      simp only [houtcome, hwaiting, if_true, Option.some.injEq] at hstep
      subst hstep
      rw [hwaiting] at hsub hnodup hout
      obtain ⟨hirest, hrest⟩ := List.nodup_cons.mp hnodup
      have hio : i ≠ p.origin := fun hio => hout (hio ▸ List.mem_cons_self)
      refine h.apply hk ⟨houtcome, .inl ?_⟩ hopening hexec (hsub List.mem_cons_self) rfl
        (fun j hj => ?_) (fun _ => houtcome) ⟨horigin, ?_, hrest, ?_⟩ ?_
      · rw [hwaiting]
        exact List.mem_cons_self
      · simp only [Proposal.Owes, houtcome, hwaiting, List.mem_cons, true_and]
        constructor
        · rintro (hj | rfl)
          · exact ⟨.inl (.inr hj), fun hji => hirest (hji ▸ hj)⟩
          · exact ⟨.inr rfl, hio.symm⟩
        · rintro ⟨(rfl | hj) | rfl, hji⟩
          · exact absurd rfl hji
          · exact .inl hj
          · exact .inr rfl
      · exact fun j hj => hsub (List.mem_cons_of_mem _ hj)
      · exact fun hmem => hout (List.mem_cons_of_mem _ hmem)
      · simp

theorem Cluster.Converging.decide (h : c.Converging R peers) {k : Nat}
    (hopening : m.opening = none) (hexec : m.exec = none)
    (hstep : c.step R peers (.decide k true m) = some c') : c'.Converging R peers := by
  simp only [Cluster.step, Option.bind_eq_bind, Option.bind_eq_some_iff] at hstep
  obtain ⟨p, hk, hstep⟩ := hstep
  have horigin := (h.waiting p (List.mem_of_getElem? hk)).1
  cases houtcome : p.outcome with
  | some d => simp [houtcome] at hstep
  | none =>
    cases hwaiting : p.waiting with
    | cons i rest => simp [houtcome, hwaiting] at hstep
    | nil =>
      simp only [houtcome, hwaiting, if_true, Option.some.injEq] at hstep
      subst hstep
      refine h.apply hk ⟨houtcome, .inr rfl⟩ hopening hexec horigin rfl (fun j hj => ?_) ?_
        ⟨horigin, List.nil_subset _, List.nodup_nil, List.not_mem_nil⟩ ?_
      · simp only [Proposal.Owes, houtcome, hwaiting, List.not_mem_nil, false_or, true_and,
          reduceCtorEq, false_and, false_iff]
        exact fun hj => hj.2 hj.1
      · simp
      · simp

theorem Cluster.Converging.step (h : c.Converging R peers) (hpeers : peers.Nodup) {s : Step N}
    (hcalm : c.Calm R s) (hstep : c.step R peers s = some c') : c'.Converging R peers := by
  cases s with
  | propose i f add =>
    simp only [Cluster.step] at hstep
    split_ifs at hstep with hi
    obtain rfl := Option.some.inj hstep
    exact h.propose hpeers hi add hcalm
  | receive k polled m =>
    obtain ⟨rfl, hopening, hexec⟩ := hcalm
    exact h.receive hopening hexec hstep
  | decide k polled m =>
    obtain ⟨rfl, hopening, hexec⟩ := hcalm
    exact h.decide hopening hexec hstep

theorem Cluster.Converging.run (hpeers : peers.Nodup) {steps : List (Step N)}
    (h : c.Converging R peers) (hcalm : c.CalmRun R peers steps)
    (hrun : c.run R peers steps = some c') : c'.Converging R peers := by
  induction steps generalizing c with
  | nil =>
    obtain rfl := Option.some.inj hrun
    exact h
  | cons s steps ih =>
    grind [h.step, Cluster.run, Option.bind_eq_bind, Option.bind_eq_some_iff, Cluster.CalmRun]

end DurableTasks.Replication
