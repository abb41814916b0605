import DurableTasks.Engine.DurableMoves

/-!
Every activity that is pending in an open run is in exactly one place: with a
worker that holds its token, or behind an armed retry timer.
-/

namespace DurableTasks

open Effects Engine

variable {t token n : Nat} {attrs : EventAttrs} {task : ActivityTask}
  {evs : List (Nat × HistoryEvent)} {row' : WorkflowExecution} {L L' : Ledger}

namespace Ledger

variable {L : Ledger} {r c : RunRef} {seq s : Int}

def live (L : Ledger) (r : RunRef) (seq : Int) : Nat :=
  L.tokens.countP fun p => p.2.ref = r ∧ p.2.seq = seq

def armed (L : Ledger) (r : RunRef) (seq : Int) : Nat := L.timers.count (r, seq)

def pending (L : Ledger) (r : RunRef) (seq : Int) : Nat :=
  ((L.act r seq).toList.filter fun a => !a.isTerminal).length

theorem pending_of_none (h : L.act r seq = none) : L.pending r seq = 0 := by simp [pending, h]

theorem pending_of_some {a : WorkflowActivity} (h : L.act r seq = some a) :
    L.pending r seq = if a.isTerminal then 0 else 1 := by
  cases ha : a.isTerminal <;> simp [pending, h, ha]

theorem pending_of_pending {a : WorkflowActivity} (h : L.act r seq = some a)
    (ha : a.isTerminal = false) : L.pending r seq = 1 := by
  simp [pending_of_some h, ha]

theorem act_setAct (L : Ledger) (r c : RunRef) (seq s : Int) (a : WorkflowActivity) :
    (L.setAct r seq a).act c s = if (r, seq) = (c, s) then some a else L.act c s := by
  by_cases hc : c = r
  · subst hc
    by_cases hs : s = seq
    · subst hs
      simp [setAct]
    · simp [setAct, hs, Ne.symm hs]
  · simp [setAct, hc, Ne.symm hc]

theorem pending_setAct (L : Ledger) (r c : RunRef) (seq s : Int) (a : WorkflowActivity) :
    (L.setAct r seq a).pending c s =
      if (r, seq) = (c, s) then (if a.isTerminal then 0 else 1) else L.pending c s := by
  split_ifs with hkey hterm
  · rw [pending_of_some (by rw [act_setAct, if_pos hkey]), if_pos hterm]
  · rw [pending_of_some (by rw [act_setAct, if_pos hkey]), if_neg hterm]
  · simp only [pending, act_setAct, if_neg hkey]

theorem live_handOut (L : Ledger) (t : ActivityTask) (r : RunRef) (seq : Int) :
    (L.handOut t).live r seq = L.live r seq + if (t.ref, t.seq) = (r, seq) then 1 else 0 := by
  simp [live, handOut, List.countP_cons]

/-- Where every token is out once, consuming one takes one from the count. -/
theorem live_without (hunique : (L.tokens.map Prod.fst).Nodup) (h : (token, task) ∈ L.tokens)
    (r : RunRef) (seq : Int) :
    (L.without token).live r seq + (if (task.ref, task.seq) = (r, seq) then 1 else 0) =
      L.live r seq := by
  obtain ⟨before, after, hsplit⟩ := List.append_of_mem h
  rw [hsplit, List.map_append, List.map_cons, List.nodup_append, List.nodup_cons] at hunique
  obtain ⟨-, ⟨hafter, -⟩, hbefore⟩ := hunique
  have hkeep₁ : before.filter (fun p => decide (p.1 ≠ token)) = before := by
    refine List.filter_eq_self.mpr fun p hp => ?_
    simpa using hbefore p.1 (List.mem_map_of_mem hp) token (by simp)
  have hkeep₂ : after.filter (fun p => decide (p.1 ≠ token)) = after := by
    refine List.filter_eq_self.mpr fun p hp => ?_
    have hne : p.1 ≠ token := fun heq => hafter (List.mem_map.mpr ⟨p, hp, heq⟩)
    simpa using hne
  simp only [live, without, hsplit, List.filter_append, hkeep₁]
  rw [List.filter_cons_of_neg (by simp), hkeep₂]
  simp only [List.countP_append, List.countP_cons, decide_eq_true_eq, Prod.mk.injEq]
  omega

theorem armed_arm (L : Ledger) (r c : RunRef) (seq s : Int) :
    (L.arm r seq).armed c s = L.armed c s + if (r, seq) = (c, s) then 1 else 0 := by
  simp [armed, arm, List.count_cons]

theorem armed_disarm (h : (r, seq) ∈ L.timers) (c : RunRef) (s : Int) :
    (L.disarm r seq).armed c s + (if (r, seq) = (c, s) then 1 else 0) = L.armed c s := by
  by_cases heq : (r, seq) = (c, s)
  · have hpos : 0 < L.timers.count (c, s) := List.count_pos_iff.mpr (heq ▸ h)
    simp only [armed, disarm, heq, List.count_erase_self, if_true]
    omega
  · simp only [armed, disarm, if_neg heq, List.count_erase_of_ne (Ne.symm heq), Nat.add_zero]

theorem live_pos (h : (token, task) ∈ L.tokens) : 0 < L.live task.ref task.seq :=
  List.countP_pos_iff.mpr ⟨_, h, by simp⟩

theorem armed_pos (h : (r, seq) ∈ L.timers) : 0 < L.armed r seq := List.count_pos_iff.mpr h

theorem row_forked {src : RunRef} {row new : WorkflowExecution} (hsrc : L.row src = some row)
    (hr : L.row r = none) : ((L.copyTo r n evs).appendTo r new t attrs).row src = some row := by
  have hne : src ≠ r := by
    rintro rfl
    rw [hr] at hsrc
    cases hsrc
  simp [appendTo, setRow, setEvent, copyTo, hne, hsrc]

/-- Every token is out once, and was minted before the next one. -/
structure Minted {τ : Type} (tokens : List (Nat × τ)) (next : Nat) : Prop where
  unique : (tokens.map Prod.fst).Nodup
  minted : ∀ p ∈ tokens, p.1 < next

theorem Minted.mint {τ : Type} {tokens : List (Nat × τ)} {next : Nat} (h : Minted tokens next)
    (t : τ) : Minted ((next, t) :: tokens) (next + 1) where
  unique := by
    refine List.nodup_cons.mpr ⟨fun hmem => ?_, h.unique⟩
    obtain ⟨p, hp, heq⟩ := List.mem_map.mp hmem
    have hlt := h.minted p hp
    omega
  minted p hp := by
    rcases List.mem_cons.mp hp with rfl | hp
    · exact Nat.lt_succ_self _
    · exact (h.minted p hp).trans (Nat.lt_succ_self _)

structure Booked (L : Ledger) : Prop extends Minted L.tokens L.nextToken where
  tokens : ∀ p ∈ L.tokens, (L.row p.2.ref).isSome
  timers : ∀ q ∈ L.timers, (L.row q.1).isSome
  tasks : ∀ t ∈ L.tasks, (L.row t.ref).isSome

namespace Booked

variable {token : Nat} {task : ActivityTask}

theorem setAct (h : L.Booked) (a : WorkflowActivity) : (L.setAct r seq a).Booked :=
  ⟨h.toMinted, h.tokens, h.timers, h.tasks⟩

theorem handOut (h : L.Booked) (hr : (L.row task.ref).isSome) : (L.handOut task).Booked where
  toMinted := h.toMinted.mint task
  tokens p hp := by
    rcases List.mem_cons.mp hp with rfl | hp
    · exact hr
    · exact h.tokens p hp
  timers := h.timers
  tasks := h.tasks

theorem without (h : L.Booked) (token : Nat) : (L.without token).Booked where
  tokens p hp := h.tokens p (List.mem_of_mem_filter hp)
  timers := h.timers
  tasks := h.tasks
  unique := h.unique.sublist (List.filter_sublist.map _)
  minted p hp := h.minted p (List.mem_of_mem_filter hp)

theorem arm (h : L.Booked) (hr : (L.row r).isSome) : (L.arm r seq).Booked where
  tokens := h.tokens
  timers q hq := by
    rcases List.mem_cons.mp hq with rfl | hq
    · exact hr
    · exact h.timers q hq
  tasks := h.tasks
  unique := h.unique
  minted := h.minted

theorem disarm (h : L.Booked) : (L.disarm r seq).Booked :=
  ⟨h.toMinted, h.tokens, fun q hq => h.timers q (List.mem_of_mem_erase hq), h.tasks⟩

theorem idle (h : L.Booked) (hrow : L.row r = none) (seq : Int) :
    L.live r seq = 0 ∧ L.armed r seq = 0 := by
  constructor
  · refine List.countP_eq_zero.mpr fun p hp hmatch => ?_
    have hsome := h.tokens p hp
    obtain ⟨hr, -⟩ : p.2.ref = r ∧ p.2.seq = seq := by simpa using hmatch
    simp [hr, hrow] at hsome
  · refine List.count_eq_zero.mpr fun hmem => ?_
    have hsome := h.timers _ hmem
    simp [hrow] at hsome

theorem no_stray (h : L.Booked) (hrow : L.row r = none)
    (hfrom : (∃ t ∈ L.tasks, t.ref = r) ∨ (∃ p ∈ L.tokens, p.2.ref = r) ∨
      ∃ seq, (r, seq) ∈ L.timers) : False := by
  have hsome : (L.row r).isSome := by
    rcases hfrom with ⟨t, ht, rfl⟩ | ⟨p, hp, rfl⟩ | ⟨seq, hseq⟩
    · exact h.tasks t ht
    · exact h.tokens p hp
    · exact h.timers _ hseq
  simp [hrow] at hsome

end Booked

/-- Besides, a pending activity of an open run is in one place and any other of
it in none, and no record has used more attempts than its policy gives it. -/
structure Tended (L : Ledger) : Prop where
  booked : L.Booked
  one : ∀ r row, L.row r = some row → row.isOpen = true →
    ∀ seq, L.live r seq + L.armed r seq = L.pending r seq
  patient : ∀ r seq a, L.act r seq = some a → a.Patient

namespace Tended

variable {L' : Ledger} {a b : WorkflowActivity} {row : WorkflowExecution} {token : Nat}
  {task : ActivityTask}

theorem act_of_token (h : L.Tended) (htoken : (token, task) ∈ L.tokens)
    (hrow : L.row task.ref = some row) (hopen : row.isOpen = true) :
    ∃ a, L.act task.ref task.seq = some a ∧ a.isTerminal = false := by
  have hlive := live_pos htoken
  have hone := h.one _ _ hrow hopen task.seq
  cases ha : L.act task.ref task.seq with
  | none =>
    rw [pending_of_none ha] at hone
    omega
  | some a =>
    refine ⟨a, rfl, ?_⟩
    rw [pending_of_some ha] at hone
    by_contra hterm
    rw [if_pos (by simpa using hterm)] at hone
    omega

theorem patient_setAct (h : L.Tended) (ha : a.Patient) :
    ∀ c s b, (L.setAct r seq a).act c s = some b → b.Patient := by
  intro c s b hb
  rw [act_setAct] at hb
  split_ifs at hb
  · rwa [← Option.some.inj hb]
  · exact h.patient c s b hb

/-! ### Rows and histories -/

/-- Rows and histories change. A run that is open was open before, or is new
and has no records. -/
theorem rows (h : L.Tended) (hact : L'.act = L.act) (htokens : L'.tokens = L.tokens)
    (htimers : L'.timers = L.timers) (hnext : L.nextToken ≤ L'.nextToken)
    (htasks : ∀ t ∈ L'.tasks, t ∈ L.tasks ∨ (L.row t.ref).isSome)
    (hrows : ∀ c, (L.row c).isSome → (L'.row c).isSome)
    (hopen : ∀ c row', L'.row c = some row' → row'.isOpen = true →
      (∃ row, L.row c = some row ∧ row.isOpen = true) ∨
        L.row c = none ∧ ∀ seq, L.act c seq = none) : L'.Tended where
  booked :=
    { tokens := fun p hp => hrows _ (h.booked.tokens p (htokens ▸ hp))
      timers := fun q hq => hrows _ (h.booked.timers q (htimers ▸ hq))
      tasks := fun t ht => hrows _ ((htasks t ht).elim (h.booked.tasks t) id)
      unique := htokens ▸ h.booked.unique
      minted := fun p hp => (h.booked.minted p (htokens ▸ hp)).trans_le hnext }
  one c row' hrow' hopen' seq := by
    have hsame : L'.live c seq = L.live c seq ∧ L'.armed c seq = L.armed c seq ∧
        L'.pending c seq = L.pending c seq := by
      simp only [live, armed, pending, htokens, htimers, hact, and_self]
    rw [hsame.1, hsame.2.1, hsame.2.2]
    rcases hopen c row' hrow' hopen' with ⟨row, hrow, hopen⟩ | ⟨hnone, hacts⟩
    · exact h.one c row hrow hopen seq
    · rw [(h.booked.idle hnone seq).1, (h.booked.idle hnone seq).2, pending_of_none (hacts seq)]
  patient := hact ▸ h.patient

theorem setRow (h : L.Tended) (hrow : L.row r = some row)
    (hopen : row'.isOpen = true → row.isOpen = true) : (L.setRow r row').Tended := by
  refine h.rows rfl rfl rfl le_rfl (fun t ht => .inl ht) (fun c hc => ?_) fun c row₁ hc h₁ => ?_
  · by_cases hr : c = r <;> simp [Ledger.setRow, hr, hc]
  · by_cases hr : c = r
    · subst hr
      obtain rfl : row' = row₁ := by simpa [Ledger.setRow] using hc
      exact .inl ⟨row, hrow, hopen h₁⟩
    · exact .inl ⟨row₁, by simpa [Ledger.setRow, hr] using hc, h₁⟩

theorem appendTo (h : L.Tended) (hrow : L.row r = some row)
    (hopen : row'.isOpen = true → row.isOpen = true) : (L.appendTo r row' t attrs).Tended :=
  -- the event is kept apart from what is tended
  have hset : (L.setRow r { row' with historyLen := row'.historyLen + 1 }).Tended :=
    h.setRow hrow hopen
  hset.rows rfl rfl rfl le_rfl (fun _ ht => .inl ht) (fun _ hc => hc)
    fun _ row₁ hc h₁ => .inl ⟨row₁, hc, h₁⟩

theorem create (h : L.Tended) (hrow : L.row r = none) (hact : ∀ seq, L.act r seq = none) :
    (L.appendTo r row' t attrs).Tended := by
  refine h.rows rfl rfl rfl le_rfl (fun t ht => .inl ht) (fun c hc => ?_) fun c row₁ hc h₁ => ?_
  · by_cases hr : c = r <;> simp [Ledger.appendTo, Ledger.setRow, Ledger.setEvent, hr, hc]
  · by_cases hr : c = r
    · subst hr
      exact .inr ⟨hrow, hact⟩
    · refine .inl ⟨row₁, ?_, h₁⟩
      simpa [Ledger.appendTo, Ledger.setRow, Ledger.setEvent, hr] using hc

theorem copyTo (h : L.Tended) : (L.copyTo r n evs).Tended :=
  h.rows rfl rfl rfl le_rfl (fun _ ht => .inl ht) (fun _ hc => hc)
    fun _ row₁ hc h₁ => .inl ⟨row₁, hc, h₁⟩

theorem enqueue (h : L.Tended) {t : WorkflowTask} (hr : (L.row t.ref).isSome) :
    (L.enqueue t).Tended := by
  refine h.rows rfl rfl rfl (Nat.le_succ _) (fun t' ht => ?_) (fun _ hc => hc)
    fun _ row₁ hc h₁ => .inl ⟨row₁, hc, h₁⟩
  rcases List.mem_cons.mp ht with rfl | ht
  · exact .inr hr
  · exact .inl ht

/-! ### Activities -/

theorem hand (h : L.Tended) (hr : (L.row r).isSome) (hnone : L.act r seq = none)
    (ha : a.Patient) : ((L.setAct r seq a.restarted).handOut (a.task r seq)).Tended := by
  refine ⟨(h.booked.setAct _).handOut hr, fun c row hc hopen s => ?_, h.patient_setAct ha⟩
  have hone := h.one c row hc hopen s
  change (Ledger.handOut _ _).live c s + L.armed c s = (L.setAct r seq a.restarted).pending c s
  rw [live_handOut, pending_setAct]
  change L.live c s + (if (r, seq) = (c, s) then 1 else 0) + L.armed c s = _
  split_ifs with hkey hterm
  · cases hterm
  · obtain ⟨rfl, rfl⟩ := Prod.mk.inj hkey
    rw [pending_of_none hnone] at hone
    omega
  · omega

theorem refire (h : L.Tended) (htimer : (r, seq) ∈ L.timers) (hact : L.act r seq = some a)
    (hpending : a.isTerminal = false) :
    (((L.disarm r seq).setAct r seq a.restarted).handOut (a.task r seq)).Tended := by
  have hr : (L.row r).isSome := h.booked.timers _ htimer
  refine ⟨(h.booked.disarm.setAct _).handOut hr, fun c row hc hopen s => ?_,
    h.patient_setAct (h.patient r seq a hact)⟩
  have hone := h.one c row hc hopen s
  have harmed := armed_disarm htimer c s
  change (Ledger.handOut _ _).live c s + (L.disarm r seq).armed c s =
    ((L.disarm r seq).setAct r seq a.restarted).pending c s
  rw [live_handOut, pending_setAct]
  change L.live c s + (if (r, seq) = (c, s) then 1 else 0) + _ = _
  split_ifs at harmed ⊢ with hkey hterm
  · cases hterm
  · obtain ⟨rfl, rfl⟩ := Prod.mk.inj hkey
    rw [pending_of_pending hact hpending] at hone
    omega
  · change _ = L.pending c s
    omega

theorem retry (h : L.Tended) (htoken : (token, task) ∈ L.tokens)
    (hact : L.act task.ref task.seq = some a) (hpending : a.isTerminal = false)
    (hb : b.Patient) (hwaits : b.isTerminal = false) :
    (((L.without token).setAct task.ref task.seq b).arm task.ref task.seq).Tended := by
  have hr : (L.row task.ref).isSome := h.booked.tokens _ htoken
  refine ⟨((h.booked.without token).setAct b).arm hr, fun c row hc hopen s => ?_,
    h.patient_setAct hb⟩
  have hone := h.one c row hc hopen s
  have hlive := live_without h.booked.unique htoken c s
  change (L.without token).live c s + (Ledger.arm _ _ _).armed c s =
    ((L.without token).setAct task.ref task.seq b).pending c s
  rw [armed_arm, pending_setAct, hwaits]
  change _ + (L.armed c s + _) = _
  split_ifs at hlive ⊢ with hkey hterm
  · cases hterm
  · obtain ⟨rfl, rfl⟩ := Prod.mk.inj hkey
    rw [pending_of_pending hact hpending] at hone
    omega
  · change _ = L.pending c s
    omega

theorem finish (h : L.Tended) (htoken : (token, task) ∈ L.tokens)
    (hact : L.act task.ref task.seq = some a) (hpending : a.isTerminal = false)
    (hb : b.Patient) (hover : b.isTerminal = true) :
    ((L.without token).setAct task.ref task.seq b).Tended := by
  refine ⟨(h.booked.without token).setAct b, fun c row hc hopen s => ?_, h.patient_setAct hb⟩
  have hone := h.one c row hc hopen s
  have hlive := live_without h.booked.unique htoken c s
  change (L.without token).live c s + L.armed c s = _
  rw [pending_setAct, hover]
  split_ifs at hlive ⊢ with hkey hterm
  · obtain ⟨rfl, rfl⟩ := Prod.mk.inj hkey
    rw [pending_of_pending hact hpending] at hone
    omega
  · exact absurd rfl hterm
  · change _ = L.pending c s
    omega

theorem ignore (h : L.Tended) (htoken : (token, task) ∈ L.tokens)
    (hrow : L.row task.ref = some row) (hshut : row.isOpen = false) :
    (L.without token).Tended := by
  refine ⟨h.booked.without token, fun c row' hc hopen s => ?_, h.patient⟩
  have hone := h.one c row' hc hopen s
  have hlive := live_without h.booked.unique htoken c s
  have hne : (task.ref, task.seq) ≠ (c, s) := by
    rintro heq
    obtain ⟨rfl, rfl⟩ := Prod.mk.inj heq
    obtain rfl : row = row' := Option.some.inj (hrow.symm.trans hc)
    simp [hshut] at hopen
  rw [if_neg hne] at hlive
  change (L.without token).live c s + L.armed c s = L.pending c s
  omega

theorem lapse (h : L.Tended) (htimer : (r, seq) ∈ L.timers) (hrow : L.row r = some row)
    (hshut : row.isOpen = false) : (L.disarm r seq).Tended := by
  refine ⟨h.booked.disarm, fun c row' hc hopen s => ?_, h.patient⟩
  have hone := h.one c row' hc hopen s
  have harmed := armed_disarm htimer c s
  have hne : (r, seq) ≠ (c, s) := by
    rintro heq
    obtain ⟨rfl, rfl⟩ := Prod.mk.inj heq
    obtain rfl : row = row' := Option.some.inj (hrow.symm.trans hc)
    simp [hshut] at hopen
  rw [if_neg hne] at harmed
  change L.live c s + (L.disarm r seq).armed c s = L.pending c s
  omega

end Tended

end Ledger

/-- The lifetime of a process after its recovery: run ids are used for one run,
workers report JSON, no run is purged and recovery does not run again. -/
def Scope.lifetime : Scope where
  payload raw := raw.storable = true
  purge := False
  recover := False

/-- Every move of a lifetime keeps pending activities tended. -/
theorem Move.tended (h : L.Tended) (hmove : Move Scope.lifetime L L') : L'.Tended := by
  cases hmove with
  | enqueue hrow hopen hlist hdec =>
    exact h.enqueue (Option.isSome_iff_exists.mpr ⟨_, hrow⟩)
  | append hrow hpass => exact h.appendTo hrow fun hopen => hopen
  | revise hrow hlen htype hstatus =>
    refine h.setRow hrow fun hopen => ?_
    simpa [WorkflowExecution.isOpen, hstatus] using hopen
  | request hrow hopen hfirst => exact h.appendTo hrow fun _ => hopen
  | close hrow hopen hterm hfits hcause hasked => exact h.appendTo hrow fun _ => hopen
  | create hfresh hopen hlen => exact h.create hfresh.1 hfresh.2.2
  | @fork src r row new n t t' evs dec reason identity hrow hn hle hlist hdec hfresh hopen hlen
      hcopies =>
      have hforked : ((L.copyTo r n dec).appendTo r new t
          (.reset src.run n reason identity)).Tended := h.copyTo.create hfresh.1 hfresh.2.2
      refine hforked.setRow (Ledger.row_forked hrow hfresh.1) fun hopen => ?_
      simp [WorkflowExecution.isOpen, closedRow, WorkflowStatus.isTerminal] at hopen
  | @schedule task row seq type input taskQueue queue startToCloseMs heartbeatMs rp a t t' htask
      hcommand hrow hnone ha =>
      have hpatient : a.Patient := by
        rw [ha]
        exact ⟨le_rfl, Temporal.one_le_maximumAttempts rp⟩
      have hhand := h.hand (Option.isSome_iff_exists.mpr ⟨_, hrow⟩) hnone hpatient
      -- the token is handed out last, and apart from the events
      exact (hhand.appendTo hrow fun hopen => hopen).appendTo Ledger.row_appendTo_self
        fun hopen => hopen
  | @ignore token task htoken hwhy =>
    obtain ⟨row, hrow⟩ := Option.isSome_iff_exists.mp (h.booked.tokens _ htoken)
    refine h.ignore htoken hrow (Bool.eq_false_iff.mpr fun hopen => ?_)
    obtain ⟨a, ha, hpending⟩ := h.act_of_token htoken hrow hopen
    rcases hwhy with hnone | ⟨b, hb, hterm⟩ | ⟨row', hrow', hshut⟩ | ⟨raw, hpayload, hbad⟩
    · simp [hnone] at ha
    · obtain rfl : a = b := Option.some.inj (ha.symm.trans hb)
      simp [hterm] at hpending
    · obtain rfl : row = row' := Option.some.inj (hrow.symm.trans hrow')
      simp [hshut] at hopen
    · exact absurd hpayload (by simp [Scope.lifetime, hbad])
  | retry htoken hrow hopen hact hpending hpayload hfailed hretry =>
    have hleft := Temporal.attempt_lt_of_shouldRetry hretry
    refine h.retry htoken hact hpending ⟨Nat.succ_pos _, ?_⟩ rfl
    push_cast
    omega
  | complete htoken hrow hopen hact hpending hpayload =>
    refine .appendTo (h.finish htoken hact hpending ?_ ?_) hrow fun hopen => hopen
    · exact (h.patient _ _ _ hact).follows ⟨rfl, rfl⟩
    · rfl
  | fail htoken hrow hopen hact hpending hpayload hfailed hretry =>
    refine .appendTo (h.finish htoken hact hpending ?_ ?_) hrow fun hopen => hopen
    · exact (h.patient _ _ _ hact).follows ⟨rfl, rfl⟩
    · rfl
  | @lapse r seq htimer hwhy =>
    obtain ⟨row, hrow⟩ := Option.isSome_iff_exists.mp (h.booked.timers _ htimer)
    refine h.lapse htimer hrow (Bool.eq_false_iff.mpr fun hopen => ?_)
    have hone := h.one r row hrow hopen seq
    have harmed := Ledger.armed_pos htimer
    rcases hwhy with hnone | ⟨a, ha, hterm⟩
    · rw [Ledger.pending_of_none hnone] at hone
      omega
    · rw [Ledger.pending_of_some ha, if_pos hterm] at hone
      omega
  | refire htimer hrow hact hpending =>
    exact (h.refire htimer hact hpending).appendTo hrow fun hopen => hopen
  | redispatch hrecover => exact hrecover.elim
  | purge hpurge => exact hpurge.elim
  | stray hrow hfrom hleaves => exact (h.booked.no_stray hrow hfrom).elim

/-! ## What only grows -/

/-- The run did not go away and was not opened again, and no record lost an
attempt or came back from its end. -/
structure RunView.Grows (v v' : RunView) : Prop where
  row : v.row.isSome → v'.row.isSome
  opened : ∀ row', v'.row = some row' → row'.isOpen = true →
    v.row = none ∨ ∃ row, v.row = some row ∧ row.isOpen = true
  act : ∀ s a, v.act s = some a →
    ∃ a', v'.act s = some a' ∧ a.attempt ≤ a'.attempt ∧ (a.isTerminal = true → a'.isTerminal = true)

namespace RunView.Grows

variable {v v' v'' : RunView} {row' : WorkflowExecution} {a b : WorkflowActivity} {seq : Int}

theorem refl (v : RunView) : v.Grows v where
  row := id
  opened row' hrow hopen := .inr ⟨row', hrow, hopen⟩
  act _ a ha := ⟨a, ha, le_rfl, id⟩

theorem trans (h : v.Grows v') (h' : v'.Grows v'') : v.Grows v'' where
  row hrow := h'.row (h.row hrow)
  opened row'' hrow hopen := by
    rcases h'.opened row'' hrow hopen with hnone | ⟨row', hrow', hopen'⟩
    · refine .inl (Option.not_isSome_iff_eq_none.mp fun hsome => ?_)
      have := h.row hsome
      simp [hnone] at this
    · exact h.opened row' hrow' hopen'
  act s a ha := by
    obtain ⟨a', ha', hle, hterm⟩ := h.act s a ha
    obtain ⟨a'', ha'', hle', hterm'⟩ := h'.act s a' ha'
    exact ⟨a'', ha'', hle.trans hle', hterm' ∘ hterm⟩

theorem setRow {event : Nat → Option HistoryEvent} (hrow : v.row = none ∨
    ∃ row, v.row = some row ∧ (row'.isOpen = true → row.isOpen = true)) :
    v.Grows ⟨some row', event, v.act⟩ where
  row _ := rfl
  opened row₁ hrow₁ hopen := by
    obtain rfl := Option.some.inj hrow₁
    rcases hrow with hnone | ⟨row, hrow, hkeep⟩
    · exact .inl hnone
    · exact .inr ⟨row, hrow, hkeep hopen⟩
  act _ a ha := ⟨a, ha, le_rfl, id⟩

/-- Where there was a record that was pending. -/
theorem setAct (hact : v.act seq = some a) (hpending : a.isTerminal = false)
    (hle : a.attempt ≤ b.attempt) : v.Grows (v.setAct seq b) where
  row := id
  opened row' hrow hopen := .inr ⟨row', hrow, hopen⟩
  act s a' ha' := by
    by_cases hs : s = seq
    · subst hs
      obtain rfl : a = a' := Option.some.inj (hact.symm.trans ha')
      exact ⟨b, by simp [RunView.setAct], hle, fun hterm => by simp [hpending] at hterm⟩
    · exact ⟨a', by simpa [RunView.setAct, hs] using ha', le_rfl, id⟩

end RunView.Grows

theorem RunStep.grows {r : RunRef} {v : RunView} (h : L.Booked)
    (hstep : RunStep Scope.lifetime L r v) :
    (L.view r).Grows v := by
  cases hstep with
  | same => exact .refl _
  | revise hrow hlen hstatus =>
    refine .setRow (.inr ⟨_, hrow, fun hopen => ?_⟩)
    rcases hstatus with heq | hterm
    · rwa [WorkflowExecution.isOpen, ← heq]
    · simp [WorkflowExecution.isOpen, hterm] at hopen
  | note hrow => exact .setRow (.inr ⟨_, hrow, id⟩)
  | request hrow hopen => exact .setRow (.inr ⟨_, hrow, fun _ => hopen⟩)
  | close hrow hterm =>
    refine .setRow (.inr ⟨_, hrow, fun hopen => ?_⟩)
    simp [WorkflowExecution.isOpen, closedRow, hterm] at hopen
  | create hfresh | fork _ _ _ _ _ hfresh =>
    have hnone := hfresh.1
    exact .setRow (.inl hnone)
  | @schedule row seq a type id input queue rp t t' n hrow hnone =>
    refine ⟨fun _ => rfl, fun row' hrow' hopen => ?_, fun s b hb => ?_⟩
    · obtain rfl := Option.some.inj hrow'
      exact .inr ⟨row, hrow, hopen⟩
    · have hne : s ≠ seq := by
        rintro rfl
        cases hnone.symm.trans hb
      exact ⟨b, by simpa [RunView.setAct, RunView.append, hne] using hb, le_rfl, fun h => h⟩
  | rewrite hact ha hb hle => exact .setAct hact ha hle
  | refire hrow hact ha hb hle | outcome hrow hact ha hb hle =>
    have hset := RunView.Grows.setAct (v := L.view r) hact ha hle
    exact hset.trans (.setRow (.inr ⟨_, hrow, id⟩))
  | purge hpurge => exact hpurge.elim
  | stray hrow hfrom => exact (h.no_stray hrow hfrom).elim

/-- From `L` to `L'` every run grows, and a token that is out is an old one or
was minted on the way. -/
structure Ledger.Grows (L L' : Ledger) : Prop where
  run : ∀ c, (L.view c).Grows (L'.view c)
  token : ∀ p ∈ L'.tokens, p ∈ L.tokens ∨ L.nextToken ≤ p.1
  next : L.nextToken ≤ L'.nextToken

theorem Ledger.Grows.trans {L'' : Ledger} (h : L.Grows L') (h' : L'.Grows L'') : L.Grows L'' where
  run c := (h.run c).trans (h'.run c)
  token p hp := by
    rcases h'.token p hp with hp | hle
    · exact h.token p hp
    · exact .inr (h.next.trans hle)
  next := h.next.trans h'.next

theorem Move.tokens (h : L.Booked) (hmove : Move Scope.lifetime L L') :
    (∀ p ∈ L'.tokens, p ∈ L.tokens ∨ L.nextToken ≤ p.1) ∧ L.nextToken ≤ L'.nextToken := by
  have hmint : ∀ t : ActivityTask, ∀ p ∈ (L.handOut t).tokens,
      p ∈ L.tokens ∨ L.nextToken ≤ p.1 := by
    intro t p hp
    rcases List.mem_cons.mp hp with rfl | hp
    · exact .inr le_rfl
    · exact .inl hp
  cases hmove with
  | enqueue => exact ⟨fun _ => .inl, Nat.le_succ _⟩
  | schedule | refire => exact ⟨hmint _, Nat.le_succ _⟩
  | ignore | retry | complete | fail =>
    exact ⟨fun p hp => .inl (List.mem_of_mem_filter hp), le_rfl⟩
  | redispatch hrecover => exact hrecover.elim
  | stray hrow hfrom hleaves => exact (h.no_stray hrow hfrom).elim
  | _ => exact ⟨fun _ => .inl, le_rfl⟩

theorem Move.grows (h : L.Booked) (hmove : Move Scope.lifetime L L') : L.Grows L' where
  run _ := (hmove.runStep (by simp [Scope.lifetime])).grows h
  token := (hmove.tokens h).1
  next := (hmove.tokens h).2

theorem Moves.tended (h : L.Tended) (hmoves : Moves Scope.lifetime L L') :
    L'.Tended ∧ L.Grows L' := by
  induction hmoves with
  | refl => exact ⟨h, fun c => .refl (L.view c), fun _ => .inl, le_rfl⟩
  | tail _ hmove ih => exact ⟨hmove.tended ih.1, ih.2.trans (hmove.grows ih.1.booked)⟩

end DurableTasks
