import DurableTasks.Standalone.Conduct

/-!
An activity that is closed stays closed, and is not handed out twice, while
other operations on it are under way, as long as no operation writes over what
it has not read.
-/

namespace DurableTasks

open Effects Standalone ActivityView

variable {marks : List (RunRef × ActivityEvent)} {st : ActivityState} {e : ActivityEffect}

def ActivityEventAttrs.isMark : ActivityEventAttrs → Bool
  | .started _ _ _ => true
  | .timedOut _ _ => true
  | _ => false

def ActivityEventAttrs.IsTimedOut : ActivityEventAttrs → Prop
  | .timedOut _ _ => True
  | _ => False

variable {I : Type} [DecidableEq I]

/-! ## The shared shard -/

/-- The shard of several threads: who holds the claim lock of a namespace,
whether the row of `r` is still what thread `i` last read or wrote, and the
claims and timeouts recorded so far, the last one first. -/
structure SharedShard (I : Type) where
  shard : Shard
  locks : String → Option I := fun _ => none
  current : I → RunRef → Bool := fun _ _ => false
  marks : List (RunRef × ActivityEvent) := []

namespace SharedShard

def relock (i : I) (locks : String → Option I) : ActivityEffect → String → Option I
  | .lock ns => Function.update locks ns (some i)
  | .unlock ns => Function.update locks ns none
  | _ => locks

def watch (i : I) (current : I → RunRef → Bool) : ActivityEffect → I → RunRef → Bool
  | .get (.act r) => fun j c => current j c || (decide (j = i) && decide (c = r))
  | .rows ns => fun j c => current j c || (decide (j = i) && decide (c.ns = ns))
  | .put (.act r) _ => fun j c => if c = r then decide (j = i) else current j c
  | _ => current

def mark (marks : List (RunRef × ActivityEvent)) : ActivityEffect → List (RunRef × ActivityEvent)
  | .put (.ahist r _) ev => if ev.attrs.isMark then (r, ev) :: marks else marks
  | _ => marks

def waits (s : SharedShard I) : ActivityEffect → Bool
  | .lock ns => (s.locks ns).isSome
  | _ => false

def after (s : SharedShard I) (i : I) (e : ActivityEffect) : SharedShard I where
  shard := (activityHandler e s.shard).2
  locks := relock i s.locks e
  current := watch i s.current e
  marks := mark s.marks e

def access : Effects.Act I ActivityEffect ActivityEffect.Answer (SharedShard I) :=
  fun i e s => if s.waits e then none else some ((activityHandler e s.shard).1, s.after i e)

theorem access_eq_some {i : I} {s s' : SharedShard I} {a : e.Answer}
    (h : access i e s = some (a, s')) :
    s.waits e = false ∧ a = (activityHandler e s.shard).1 ∧ s' = s.after i e := by
  unfold access at h
  split_ifs at h with hwait
  obtain ⟨rfl, rfl⟩ := Prod.mk.inj (Option.some.inj h)
  exact ⟨by simpa using hwait, rfl, rfl⟩

def together (s : Shard) (ops : I → ActivityOperation) :
    Pool I ActivityEffect ActivityEffect.Answer (SharedShard I) (Except String (Option RunRef)) :=
  ⟨{ shard := s }, fun i => outcome (ops i)⟩

/-- A row is written only by a thread that has read it since another thread
wrote it, and an event only under an id that is free. -/
def attentive (s : SharedShard I) (i : I) : ActivityEffect → Bool
  | .put (.act r) _ => s.current i r
  | .put (.ahist r id) _ => (s.shard.acts.get (.ahist r id)).isNone
  | _ => true

end SharedShard

open SharedShard

def ActivityStore.status (s : ActivityStore) (r : RunRef) : Option ActivityState :=
  (s.get (.act r)).map fun a => a.status

theorem ActivityStore.status_put_row (s : ActivityStore) (r c : RunRef) (a : StandaloneActivity) :
    (s.put (.act r) a).status c = if c = r then some a.status else s.status c := by
  unfold ActivityStore.status
  split_ifs with hc
  · subst hc
    rw [ActivityStore.get_put_self, Option.map_some]
  · rw [ActivityStore.get_put_of_ne s a (show ActivityKey.act c ≠ .act r by simpa using hc)]

theorem ActivityStore.status_put_event (s : ActivityStore) (r c : RunRef) (id : Nat)
    (ev : ActivityEvent) : (s.put (.ahist r id) ev).status c = s.status c := by
  unfold ActivityStore.status
  rw [ActivityStore.get_put_of_ne s ev (show ActivityKey.act c ≠ .ahist r id by simp)]

/-! ## Claims and timeouts -/

def LastClaimed (marks : List (RunRef × ActivityEvent)) (r : RunRef) : Prop :=
  ∃ ev, marks.find? (fun p => p.1 = r) = some (r, ev) ∧ ev.attrs.IsStarted

/-- Between two claims of an activity there is a timeout. -/
def ClaimsSpaced (marks : List (RunRef × ActivityEvent)) : Prop :=
  ∀ later between earlier r ev ev', marks = later ++ (r, ev) :: between ++ (r, ev') :: earlier →
    ev.attrs.IsStarted → ev'.attrs.IsStarted → ∃ ev, (r, ev) ∈ between ∧ ev.attrs.IsTimedOut

/-- The invariant of the records: a claim is recorded only where none is
outstanding. -/
def Spaced : List (RunRef × ActivityEvent) → Prop
  | [] => True
  | (r, ev) :: marks =>
    ev.attrs.isMark = true ∧ (ev.attrs.IsStarted → ¬LastClaimed marks r) ∧ Spaced marks

theorem Spaced.append {l l' : List (RunRef × ActivityEvent)} (h : Spaced (l ++ l')) :
    Spaced l' := by
  induction l with
  | nil => exact h
  | cons p l ih => exact ih h.2.2

theorem lastClaimed_cons {r c : RunRef} {ev : ActivityEvent} : LastClaimed ((r, ev) :: marks) c ↔
      if c = r then ev.attrs.IsStarted else LastClaimed marks c := by
  unfold LastClaimed
  split_ifs with hc
  · subst hc
    simp
  · simp [Ne.symm hc]

theorem isTimedOut_or_isStarted {attrs : ActivityEventAttrs} (h : attrs.isMark = true) :
    attrs.IsTimedOut ∨ attrs.IsStarted := by
  cases attrs with
  | started identity attempt lease => exact .inr trivial
  | timedOut reason attempt => exact .inl trivial
  | _ => cases h

theorem ActivityEventAttrs.IsStarted.isMark {attrs : ActivityEventAttrs} (h : attrs.IsStarted) :
    attrs.isMark = true := by
  cases attrs with
  | started identity attempt lease => rfl
  | _ => exact h.elim

theorem Spaced.mark {l : List (RunRef × ActivityEvent)} (h : Spaced l)
    {p : RunRef × ActivityEvent} (hp : p ∈ l) : p.2.attrs.isMark = true := by
  induction l with
  | nil => cases hp
  | cons q l ih =>
    rcases List.mem_cons.mp hp with rfl | hp
    · exact h.1
    · exact ih h.2.2 hp

theorem Spaced.claimsSpaced (h : Spaced marks) : ClaimsSpaced marks := by
  intro later between earlier r ev ev' hmarks hev hev'
  rw [hmarks, List.append_assoc] at h
  have hrest := Spaced.append h
  have hnot : ¬LastClaimed (between ++ (r, ev') :: earlier) r := hrest.2.1 hev
  have hspaced : Spaced (between ++ (r, ev') :: earlier) := hrest.2.2
  -- the first record of `r` after the earlier claim is no claim
  cases hfind : between.find? (fun p => p.1 = r) with
  | none =>
    refine absurd ⟨ev', ?_, hev'⟩ hnot
    rw [List.find?_append, hfind]
    simp
  | some p =>
    obtain ⟨c, ev₁⟩ := p
    obtain rfl : c = r := by simpa using List.find?_some hfind
    have hmem := List.mem_of_find?_eq_some hfind
    rcases isTimedOut_or_isStarted (hspaced.mark (List.mem_append_left _ hmem)) with hout | hst
    · exact ⟨ev₁, hmem, hout⟩
    · refine absurd ⟨ev₁, ?_, hst⟩ hnot
      rw [List.find?_append, hfind]
      rfl

/-! ## What a write of a row teaches -/

section Wrote

variable {know : I → ActivityView} {i j : I} {k : ActivityView} {r c : RunRef}
  {old a : StandaloneActivity}

theorem wrote_claimed (hrow : (know i).row r = some old)
    (h : (Function.update know i ((know i).wrote r a) j).claimed = some c) :
    (j = i ∧ c = r ∧ (know i).held = some r.ns ∧ old.status = .scheduled ∧ a.status = .started) ∨
      (know j).claimed = some c := by
  rcases update_cases (fun k : ActivityView => k.claimed = some c) h with ⟨rfl, hc⟩ | ⟨-, hc⟩
  · simp only [wrote, hrow, Option.map_some, Option.some.injEq] at hc
    split_ifs at hc with hcond
    · exact .inl ⟨rfl, (Option.some.inj hc).symm, hcond⟩
    · exact .inr hc
  · exact .inr hc

theorem wrote_reaped (hrow : (know i).row r = some old)
    (h : (Function.update know i ((know i).wrote r a) j).reaped = some c) :
    (j = i ∧ c = r ∧ old.status = .started ∧ a.status = .scheduled) ∨
      (know j).reaped = some c := by
  rcases update_cases (fun k : ActivityView => k.reaped = some c) h with ⟨rfl, hc⟩ | ⟨-, hc⟩
  · simp only [wrote, hrow, Option.map_some, Option.some.injEq] at hc
    split_ifs at hc with hcond
    · exact .inl ⟨rfl, (Option.some.inj hc).symm, hcond⟩
    · exact .inr hc
  · exact .inr hc

theorem wrote_closed (h : (Function.update know i ((know i).wrote r a) j).closed = some (c, st)) :
    (c = r ∧ a.status = st ∧ st.isTerminal = true) ∨ (know j).closed = some (c, st) := by
  rcases update_cases (fun k : ActivityView => k.closed = some (c, st)) h with ⟨rfl, hc⟩ | ⟨-, hc⟩
  · simp only [wrote] at hc
    split_ifs at hc with hcond
    · obtain ⟨rfl, rfl⟩ := Prod.mk.inj (Option.some.inj hc)
      exact .inl ⟨rfl, rfl, hcond.2⟩
    · exact .inr hc
  · exact .inr hc

/-- A thread that holds the claim lock claims with every change recorded. -/
theorem Change.settled_of_claim (h : k.Change r .scheduled .started) {ns : String}
    (hheld : k.held = some ns) : k.Settled := by
  cases h with
  | claim hheld' hk => exact hk
  | beat hheld' =>
    rw [hheld'] at hheld
    cases hheld
  | close hopen hterm => cases hterm

theorem Change.reaping (h : k.Change r st .scheduled) (hne : st ≠ .scheduled) :
    st = .started ∧ k.held = some r.ns ∧ k.Settled := by
  cases h with
  | keep => exact absurd rfl hne
  | reap hheld hk => exact ⟨rfl, hheld, hk⟩
  | close hopen hterm => cases hterm

theorem Change.of_terminal {st' : ActivityState} (h : k.Change r st st')
    (hterm : st.isTerminal = true) : st' = st := by
  cases h with
  | keep => rfl
  | close hopen hterm' =>
    rw [hterm] at hopen
    cases hopen
  | _ => cases hterm

end Wrote

/-! ## What an event says -/

section Recorded

variable {k : ActivityView} {r c : RunRef} {ev : ActivityEvent}
  {marks : List (RunRef × ActivityEvent)}

theorem claimed_of_owes (h : k.Owes r ev.attrs) (hst : ev.attrs.IsStarted) :
    k.claimed = some r := by
  cases hattrs : ev.attrs with
  | started identity attempt lease =>
    rw [hattrs] at h
    exact h.1
  | _ =>
    rw [hattrs] at hst
    exact hst.elim

/-- Where the last record of an activity is a claim, it is the one just made, or
it was so before and the thread owes no timeout of it. -/
theorem lastClaimed_recorded (h : k.Owes r ev.attrs)
    (hc : LastClaimed (if ev.attrs.isMark then (r, ev) :: marks else marks) c) :
    (c = r ∧ k.claimed = some r) ∨ (LastClaimed marks c ∧ k.reaped ≠ some c) := by
  cases hattrs : ev.attrs with
  | started identity attempt lease =>
    rw [hattrs] at h
    rw [hattrs, ActivityEventAttrs.isMark, if_pos rfl, lastClaimed_cons] at hc
    split_ifs at hc with hcr
    · exact .inl ⟨hcr, h.1⟩
    · exact .inr ⟨hc, by simp [h.2]⟩
  | timedOut reason attempt =>
    rw [hattrs] at h
    rw [hattrs, ActivityEventAttrs.isMark, if_pos rfl, lastClaimed_cons] at hc
    split_ifs at hc with hcr
    · rw [hattrs] at hc
      exact hc.elim
    · exact .inr ⟨hc, by simp [h.1, Ne.symm hcr]⟩
  | _ =>
    rw [hattrs] at h hc
    exact .inr ⟨hc, by simp [h.reaped]⟩

end Recorded

/-! ## The invariant -/

/-- What the threads know, hold and owe agrees with the shared shard. -/
structure FinishInv (s : SharedShard I) (know : I → ActivityView) : Prop where
  known : ∀ i r a, (know i).row r = some a → s.current i r = true →
    s.shard.acts.get (.act r) = some a
  held : ∀ i ns, (know i).held = some ns → s.locks ns = some i
  claimed : ∀ i r, (know i).claimed = some r → (know i).held = some r.ns ∧
    ¬LastClaimed s.marks r ∧ ∃ st, s.shard.acts.status r = some st ∧ st ≠ .scheduled
  reaped : ∀ i r, (know i).reaped = some r →
    (know i).held = some r.ns ∧ (s.shard.acts.status r).isSome
  handed : ∀ r, LastClaimed s.marks r →
    (∃ st, s.shard.acts.status r = some st ∧ st ≠ .scheduled) ∨ ∃ i, (know i).reaped = some r
  closed : ∀ i r st, (know i).closed = some (r, st) →
    st.isTerminal = true ∧ s.shard.acts.status r = some st
  spaced : Spaced s.marks
  stored : ∀ p ∈ s.marks, s.shard.acts.get (.ahist p.1 p.2.eventId) = some p.2

namespace FinishInv

variable {s s' : SharedShard I} {know : I → ActivityView} {i : I} {k : ActivityView} {r : RunRef}

omit [DecidableEq I] in
theorem exclusive (h : FinishInv s know) {j : I} {ns : String} (hi : (know i).held = some ns)
    (hj : (know j).held = some ns) : j = i :=
  Option.some.inj ((h.held j ns hj).symm.trans (h.held i ns hi))

/-- An access that leaves the rows, events and records alone. What the thread
knows afterwards of a row is what is stored, or what it knew before. -/
theorem quiet (h : FinishInv s know) (hacts : s'.shard.acts = s.shard.acts)
    (hmarks : s'.marks = s.marks)
    (hknown : ∀ j c a, (Function.update know i k j).row c = some a → s'.current j c = true →
      s.shard.acts.get (.act c) = some a)
    (hheld : ∀ j ns, (Function.update know i k j).held = some ns → s'.locks ns = some j)
    (hkeep : k.held = (know i).held ∨ (know i).Settled)
    (hclaimed : k.claimed = (know i).claimed) (hreaped : k.reaped = (know i).reaped)
    (hclosed : k.closed = (know i).closed) : FinishInv s' (Function.update know i k) := by
  have hclaimed := update_view know i k ActivityView.claimed hclaimed
  have hreaped := update_view know i k ActivityView.reaped hreaped
  have hlocked : ∀ j, ((know j).claimed ≠ none ∨ (know j).reaped ≠ none) →
      (Function.update know i k j).held = (know j).held := by
    intro j howed
    by_cases hj : j = i
    · subst hj
      rw [Function.update_self]
      refine hkeep.resolve_right fun hsettled => ?_
      exact howed.elim (fun h => h hsettled.claimed) fun h => h hsettled.reaped
    · rw [Function.update_of_ne hj]
  refine ⟨?_, hheld, ?_, ?_, ?_, ?_, ?_, ?_⟩
  · rw [hacts]
    exact hknown
  · intro j c hc
    rw [hclaimed] at hc
    rw [hacts, hmarks, hlocked j (.inl (by simp [hc]))]
    exact h.claimed j c hc
  · intro j c hc
    rw [hreaped] at hc
    rw [hacts, hlocked j (.inr (by simp [hc]))]
    exact h.reaped j c hc
  · grind [h.handed]
  · intro j c st hc
    rw [update_view know i k ActivityView.closed hclosed] at hc
    rw [hacts]
    exact h.closed j c st hc
  · rw [hmarks]
    exact h.spaced
  · rw [hmarks, hacts]
    exact h.stored

theorem frame (h : FinishInv s know) (hacts : s'.shard.acts = s.shard.acts)
    (hlocks : s'.locks = s.locks) (hcurrent : s'.current = s.current)
    (hmarks : s'.marks = s.marks) : FinishInv s' (Function.update know i (know i)) := by
  refine h.quiet hacts hmarks ?_ ?_ (.inl rfl) rfl rfl rfl
  · rw [Function.update_eq_self, hcurrent]
    exact h.known
  · rw [Function.update_eq_self, hlocks]
    exact h.held

theorem read (h : FinishInv s know) (hit : RunRef → Bool) (hacts : s'.shard.acts = s.shard.acts)
    (hmarks : s'.marks = s.marks) (hlocks : s'.locks = s.locks)
    (hcurrent : s'.current = fun j c => s.current j c || (decide (j = i) && hit c))
    (hrow : ∀ c, k.row c = if hit c then s.shard.acts.get (.act c) else (know i).row c)
    (hheld : k.held = (know i).held) (hclaimed : k.claimed = (know i).claimed)
    (hreaped : k.reaped = (know i).reaped) (hclosed : k.closed = (know i).closed) :
    FinishInv s' (Function.update know i k) := by
  refine h.quiet hacts hmarks ?_ ?_ (.inl hheld) hclaimed hreaped hclosed
  · grind [h.known]
  · intro j ns hns
    rw [update_view know i k ActivityView.held hheld] at hns
    rw [hlocks]
    exact h.held j ns hns

omit [DecidableEq I] in
/-- The activity a thread owes an event is not gone. -/
theorem owed_stays (h : FinishInv s know) :
    ((know i).read r (s.shard.acts.get (.act r))).claimed = (know i).claimed ∧
      ((know i).read r (s.shard.acts.get (.act r))).reaped = (know i).reaped := by
  have hgone : ∀ {st : Option ActivityState}, s.shard.acts.status r = st → st.isSome →
      (s.shard.acts.get (.act r)).isNone = false := by
    rintro st rfl hst
    cases hrow : s.shard.acts.get (.act r) with
    | none => simp [ActivityStore.status, hrow] at hst
    | some a => rfl
  constructor
  · simp only [ActivityView.read]
    refine if_neg ?_
    rintro ⟨hnone, hc⟩
    obtain ⟨-, -, st, hst, -⟩ := h.claimed i r hc
    rw [hgone hst rfl] at hnone
    cases hnone
  · simp only [ActivityView.read]
    refine if_neg ?_
    rintro ⟨hnone, hc⟩
    rw [hgone rfl (h.reaped i r hc).2] at hnone
    cases hnone

theorem relock (h : FinishInv s know) (hacts : s'.shard.acts = s.shard.acts)
    (hmarks : s'.marks = s.marks) (hcurrent : s'.current = s.current)
    (hsettled : (know i).Settled) {o : Option String} (hk : k = { know i with held := o })
    (hheld : ∀ ns, o = some ns → s'.locks ns = some i)
    (hother : ∀ j ns, j ≠ i → (know j).held = some ns → s'.locks ns = some j) :
    FinishInv s' (Function.update know i k) := by
  subst hk
  refine h.quiet hacts hmarks ?_ ?_ (.inr hsettled) rfl rfl rfl
  · intro j c a ha hcur
    rw [update_view know i { know i with held := o } ActivityView.row rfl] at ha
    rw [hcurrent] at hcur
    exact h.known j c a ha hcur
  · grind

section Row

variable {a old : StandaloneActivity}

omit [DecidableEq I] in
/-- A thread writes a row it has read since another thread wrote it. -/
theorem status_old (h : FinishInv s know) (hrow : (know i).row r = some old)
    (hcurrent : s.current i r = true) : s.shard.acts.status r = some old.status := by
  rw [ActivityStore.status, h.known i r old hrow hcurrent, Option.map_some]

omit [DecidableEq I] in
/-- An activity whose claim is not recorded yet is not put back: the lock is
held by the thread that claimed it. -/
theorem not_rescheduled (h : FinishInv s know) (hstatus : s.shard.acts.status r = some old.status)
    (hchange : (know i).Change r old.status a.status) {j : I} (hj : (know j).claimed = some r) :
    a.status ≠ .scheduled := by
  obtain ⟨hheld, -, st, hst, hne⟩ := h.claimed j r hj
  obtain rfl : st = old.status := Option.some.inj (hst.symm.trans hstatus)
  generalize a.status = st' at hchange ⊢
  generalize old.status = st at hchange hne
  cases hchange with
  | keep => exact hne
  | claim hheld' hk => exact fun h => by cases h
  | beat hheld' => exact fun h => by cases h
  | reap hheld' hk =>
    obtain rfl := h.exclusive hheld' hheld
    rw [hk.claimed] at hj
    cases hj
  | close hopen hterm =>
    rintro rfl
    cases hterm

omit [DecidableEq I] in
/-- A thread that claims an activity holds the lock, so the last claim of it was
followed by a timeout. -/
theorem not_lastClaimed (h : FinishInv s know) (hstatus : s.shard.acts.status r = some .scheduled)
    (hheld : (know i).held = some r.ns) (hk : (know i).Settled) : ¬LastClaimed s.marks r := by
  intro hlast
  rcases h.handed r hlast with ⟨st, hst, hne⟩ | ⟨j, hj⟩
  · exact hne (Option.some.inj (hst.symm.trans hstatus))
  · obtain rfl := h.exclusive hheld (h.reaped j r hj).1
    rw [hk.reaped] at hj
    cases hj

/-- A row is written by a thread that has read it since another one wrote it. -/
theorem put_row (h : FinishInv s know) (hrow : (know i).row r = some old)
    (hchange : (know i).Change r old.status a.status) (hcurrent : s.current i r = true)
    (hacts : s'.shard.acts = s.shard.acts.put (.act r) a) (hmarks : s'.marks = s.marks)
    (hlocks : s'.locks = s.locks)
    (hcurrent' : s'.current = fun j c => if c = r then decide (j = i) else s.current j c) :
    FinishInv s' (Function.update know i ((know i).wrote r a)) := by
  have hold := h.status_old hrow hcurrent
  have hstatus : ∀ c, s'.shard.acts.status c =
      if c = r then some a.status else s.shard.acts.status c := by
    intro c
    rw [hacts]
    exact ActivityStore.status_put_row _ _ _ _
  have hsame : ∀ c, c ≠ r → s'.shard.acts.status c = s.shard.acts.status c :=
    fun c hc => by rw [hstatus, if_neg hc]
  have hself : s'.shard.acts.status r = some a.status := by rw [hstatus, if_pos rfl]
  have hheld := update_view know i ((know i).wrote r a) ActivityView.held rfl
  -- a claim that is not recorded yet is of an activity that is not waiting
  have hwaiting : ∀ j c, (know j).claimed = some c →
      ∃ st, s'.shard.acts.status c = some st ∧ st ≠ .scheduled := by
    intro j c hc
    by_cases hcr : c = r
    · subst hcr
      exact ⟨a.status, hself, h.not_rescheduled hold hchange hc⟩
    · rw [hsame c hcr]
      exact (h.claimed j c hc).2.2
  have hsome : ∀ c, (s.shard.acts.status c).isSome → (s'.shard.acts.status c).isSome := by
    intro c hc
    by_cases hcr : c = r
    · subst hcr
      simp [hself]
    · rwa [hsame c hcr]
  refine ⟨?_, ?_, ?_, ?_, ?_, ?_, ?_, ?_⟩
  · intro j c b hb hcur
    rw [hcurrent'] at hcur
    rw [hacts]
    by_cases hcr : c = r
    · subst hcr
      obtain rfl : j = i := by simpa using hcur
      rw [Function.update_self] at hb
      have hab : a = b := by simpa [wrote] using hb
      rw [hab, ActivityStore.get_put_self]
    · rw [ActivityStore.get_put_of_ne _ _ (by simpa using hcr)]
      refine h.known j c b ?_ (by simpa [hcr] using hcur)
      rcases update_cases (fun k : ActivityView => k.row c = some b) hb with ⟨rfl, hnew⟩ | ⟨-, hb⟩
      · simpa [wrote, hcr] using hnew
      · exact hb
  · intro j ns hns
    rw [hlocks]
    exact h.held j ns (hheld j ▸ hns)
  · intro j c hc
    rw [hheld, hmarks]
    rcases wrote_claimed hrow hc with ⟨rfl, rfl, hlock, hsched, hstarted⟩ | hc
    · rw [hsched] at hold hchange
      rw [hstarted] at hchange
      exact ⟨hlock, h.not_lastClaimed hold hlock (Change.settled_of_claim hchange hlock),
        a.status, hself, by simp [hstarted]⟩
    · exact ⟨(h.claimed j c hc).1, (h.claimed j c hc).2.1, hwaiting j c hc⟩
  · intro j c hc
    rw [hheld]
    rcases wrote_reaped hrow hc with ⟨rfl, rfl, hstarted, hsched⟩ | hc
    · rw [hstarted, hsched] at hchange
      exact ⟨(Change.reaping hchange (by simp)).2.1, by simp [hself]⟩
    · exact ⟨(h.reaped j c hc).1, hsome c (h.reaped j c hc).2⟩
  · intro c hc
    rw [hmarks] at hc
    rcases h.handed c hc with ⟨st, hst, hne⟩ | ⟨j, hj⟩
    · by_cases hcr : c = r
      · subst hcr
        obtain rfl : st = old.status := Option.some.inj (hst.symm.trans hold)
        by_cases hsched : a.status = .scheduled
        · rw [hsched] at hchange
          have hstarted := (Change.reaping hchange hne).1
          exact .inr ⟨i, by simp [wrote, hrow, hstarted, hsched]⟩
        · exact .inl ⟨a.status, hself, hsched⟩
      · rw [hsame c hcr]
        exact .inl ⟨st, hst, hne⟩
    · refine .inr ⟨j, ?_⟩
      by_cases hj' : j = i
      · subst hj'
        rw [Function.update_self]
        simp only [wrote, hrow, Option.map_some, Option.some.injEq]
        split_ifs with hcond
        · rw [hcond.1, hcond.2] at hchange
          rw [(Change.reaping hchange (by simp)).2.2.reaped] at hj
          cases hj
        · exact hj
      · rwa [Function.update_of_ne hj']
  · intro j c st hc
    rcases wrote_closed hc with ⟨rfl, rfl, hterm⟩ | hc
    · exact ⟨hterm, hself⟩
    · obtain ⟨hterm, hst⟩ := h.closed j c st hc
      refine ⟨hterm, ?_⟩
      by_cases hcr : c = r
      · subst hcr
        obtain rfl : st = old.status := Option.some.inj (hst.symm.trans hold)
        rw [hself, Change.of_terminal hchange hterm]
      · rwa [hsame c hcr]
  · rw [hmarks]
    exact h.spaced
  · intro p hp
    rw [hmarks] at hp
    rw [hacts, ActivityStore.get_put_of_ne _ _ (by simp)]
    exact h.stored p hp

end Row

theorem put_event (h : FinishInv s know) {id : Nat} {ev : ActivityEvent} (hid : ev.eventId = id)
    (howes : (know i).Owes r ev.attrs) (hfree : s.shard.acts.get (.ahist r id) = none)
    (hacts : s'.shard.acts = s.shard.acts.put (.ahist r id) ev)
    (hmarks : s'.marks = if ev.attrs.isMark then (r, ev) :: s.marks else s.marks)
    (hlocks : s'.locks = s.locks) (hcurrent : s'.current = s.current) :
    FinishInv s' (Function.update know i ((know i).recorded r ev)) := by
  have hstatus : ∀ c, s'.shard.acts.status c = s.shard.acts.status c := by
    intro c
    rw [hacts]
    exact ActivityStore.status_put_event _ _ _ _ _
  have hsettled := owes_recorded howes
  have hheld := update_view know i ((know i).recorded r ev) ActivityView.held recorded_held
  have hlast : ∀ c, LastClaimed s'.marks c → (c = r ∧ (know i).claimed = some r) ∨
      (LastClaimed s.marks c ∧ (know i).reaped ≠ some c) := by
    intro c hc
    rw [hmarks] at hc
    exact lastClaimed_recorded howes hc
  refine ⟨?_, ?_, ?_, ?_, ?_, ?_, ?_, ?_⟩
  · intro j c a ha hcur
    rw [update_view know i _ ActivityView.row recorded_row] at ha
    rw [hcurrent] at hcur
    rw [hacts, ActivityStore.get_put_of_ne _ _ (by simp)]
    exact h.known j c a ha hcur
  · intro j ns hns
    rw [hlocks]
    exact h.held j ns (hheld j ▸ hns)
  · grind [hsettled.claimed, h.claimed, h.exclusive]
  · grind [hsettled.reaped, h.reaped]
  · intro c hc
    rw [hstatus]
    rcases hlast c hc with ⟨rfl, hi⟩ | ⟨hc, hi⟩
    · exact .inl (h.claimed i c hi).2.2
    · grind [h.handed]
  · intro j c st hc
    rw [update_view know i _ ActivityView.closed recorded_closed] at hc
    rw [hstatus]
    exact h.closed j c st hc
  · rw [hmarks]
    split_ifs with hmark
    · exact ⟨hmark, fun hst => (h.claimed i r (claimed_of_owes howes hst)).2.1, h.spaced⟩
    · exact h.spaced
  · intro p hp
    have hold : p ∈ s.marks → s'.shard.acts.get (.ahist p.1 p.2.eventId) = some p.2 := by
      intro hp
      have hstored := h.stored p hp
      have hne : ActivityKey.ahist p.1 p.2.eventId ≠ .ahist r id := by
        intro heq
        obtain ⟨hr, hid⟩ := ActivityKey.ahist.inj heq
        rw [hr, hid, hfree] at hstored
        cases hstored
      rwa [hacts, ActivityStore.get_put_of_ne _ _ hne]
    rw [hmarks] at hp
    split_ifs at hp with hmark
    · rcases List.mem_cons.mp hp with rfl | hp
      · rw [hacts, hid, ActivityStore.get_put_self]
      · exact hold hp
    · exact hold hp

/-- Every access a thread makes on the ground of what it knows keeps the
invariant, if it is attentive. -/
theorem keep (h : FinishInv s know) (hguard : (know i).guard e)
    (hattentive : attentive s i e = true) (hwait : s.waits e = false) :
    FinishInv (s.after i e)
      (Function.update know i ((know i).learn e (activityHandler e s.shard).1)) := by
  cases e with
  | get key =>
    cases key with
    | act c =>
      obtain ⟨hclaimed, hreaped⟩ := h.owed_stays (i := i) (r := c)
      refine h.read (fun c' => c' = c) rfl rfl rfl rfl ?_ rfl hclaimed hreaped rfl
      intro c'
      by_cases hc : c' = c
      · subst hc
        simp [learn, activityHandler, ActivityView.read]
      · simp [learn, activityHandler, ActivityView.read, hc]
    | _ => exact h.frame rfl rfl rfl rfl
  | put key v =>
    cases key with
    | act c =>
      obtain ⟨old, hrow, hchange⟩ := hguard
      exact h.put_row hrow hchange hattentive rfl rfl rfl rfl
    | ahist c id =>
      obtain ⟨hid, howes⟩ := hguard
      exact h.put_event hid howes (by simpa [attentive] using hattentive) rfl rfl rfl rfl
    | aidem ns id req => exact hguard.elim
  | del key => exact hguard.elim
  | rows ns =>
    refine h.read (fun c => c.ns = ns) rfl rfl rfl rfl ?_ rfl rfl rfl rfl
    intro c
    by_cases hc : c.ns = ns
    · subst hc
      simpa [learn, activityHandler, listed] using s.shard.acts.lookup_rows c
    · simp [learn, activityHandler, listed, hc]
  | lock ns =>
    refine h.relock rfl rfl rfl hguard.2 rfl ?_ ?_
    · rintro ns' hns'
      obtain rfl := Option.some.inj hns'
      exact Function.update_self _ _ _
    · intro j ns' hj hns'
      have hlocked := h.held j ns' hns'
      have hne : ns' ≠ ns := by
        rintro rfl
        simp [waits, hlocked] at hwait
      simpa [after, SharedShard.relock, hne] using hlocked
  | unlock ns =>
    refine h.relock rfl rfl rfl hguard.2 rfl (fun _ h => by cases h) ?_
    intro j ns' hj hns'
    have hne : ns' ≠ ns := by
      rintro rfl
      exact hj (h.exclusive hguard.1 hns')
    simpa [after, SharedShard.relock, hne] using h.held j ns' hns'
  | _ => exact h.frame rfl rfl rfl rfl

end FinishInv

/-! ## The records of claims -/

/-- Besides, the claim a thread has recorded last is among the records, and no
other thread has recorded it. -/
structure Receipts (s : SharedShard I) (know : I → ActivityView) : Prop
  extends FinishInv s know where
  kept : ∀ i m, (know i).took = some m → m ∈ s.marks ∧ m.2.attrs.IsStarted
  single : ∀ i j m, (know i).took = some m → (know j).took = some m → i = j

theorem ActivityView.took_learn {k : ActivityView} {a : e.Answer} {m : RunRef × ActivityEvent}
    (h : (k.learn e a).took = some m) :
    k.took = some m ∨ m.2.attrs.IsStarted ∧ ∃ id, e = .put (.ahist m.1 id) m.2 := by
  unfold learn at h
  split at h
  case h_4 r id ev _ =>
    unfold recorded at h
    split at h
    case h_1 hattrs =>
      obtain rfl := Option.some.inj h
      exact .inr ⟨hattrs ▸ trivial, id, rfl⟩
    all_goals exact .inl h
  all_goals exact .inl h

theorem Receipts.keep {s : SharedShard I} {know : I → ActivityView} {i : I} (h : Receipts s know)
    (hguard : (know i).guard e) (hattentive : attentive s i e = true) (hwait : s.waits e = false) :
    Receipts (s.after i e)
      (Function.update know i ((know i).learn e (activityHandler e s.shard).1)) := by
  have hgrow : ∀ m ∈ s.marks, m ∈ (s.after i e).marks := by
    intro m hm
    simp only [after, SharedShard.mark]
    split
    · split_ifs
      · exact List.mem_cons_of_mem _ hm
      · exact hm
    · exact hm
  -- a record is new, since its id was free and every record is stored
  have hnew : ∀ m, ((know i).learn e (activityHandler e s.shard).1).took = some m →
      (know i).took = some m ∨ m ∉ s.marks ∧ m ∈ (s.after i e).marks ∧ m.2.attrs.IsStarted := by
    intro m hm
    rcases took_learn hm with hold | ⟨hst, id, rfl⟩
    · exact .inl hold
    · refine .inr ⟨fun hmem => ?_, ?_, hst⟩
      · have hstored := h.stored m hmem
        rw [hguard.1] at hstored
        simp [attentive, hstored] at hattentive
      · simp [after, SharedShard.mark, hst.isMark]
  have hlearnt : ∀ j m, (know j).took = some m →
      ((know i).learn e (activityHandler e s.shard).1).took = some m → i = j := by
    intro j m hj hm
    rcases hnew m hm with hold | ⟨hnot, -⟩
    · exact h.single i j m hold hj
    · exact absurd (h.kept j m hj).1 hnot
  refine ⟨h.toFinishInv.keep hguard hattentive hwait, fun j m hm => ?_, fun j j' m hj hj' => ?_⟩
  · rcases update_cases (fun k : ActivityView => k.took = some m) hm with ⟨-, hm⟩ | ⟨-, hm⟩
    · rcases hnew m hm with hold | ⟨-, hnew⟩
      · exact (h.kept i m hold).imp_left (hgrow m)
      · exact hnew
    · exact (h.kept j m hm).imp_left (hgrow m)
  · rcases update_cases (fun k : ActivityView => k.took = some m) hj with ⟨rfl, h₁⟩ | ⟨-, h₁⟩ <;>
      rcases update_cases (fun k : ActivityView => k.took = some m) hj' with ⟨rfl, h₂⟩ | ⟨-, h₂⟩
    · rfl
    · exact hlearnt j' m h₂ h₁
    · exact (hlearnt j m h₁ h₂).symm
    · exact h.single j j' m h₁ h₂

/-! ## Interleavings -/

abbrev ActivityPool (I : Type) :=
  Pool I ActivityEffect ActivityEffect.Answer (SharedShard I) (Except String (Option RunRef))

/-- An activity has the status of the terminal call on it that succeeded. -/
def StaysFinished (ops : I → ActivityOperation) (p : ActivityPool I) : Prop :=
  ∀ i r st, (ops i).closes = some (r, st) → (p.code i).succeeded = true →
    p.world.shard.acts.status r = some st

/-- Every claim that has handed out an activity has a record of its own. -/
def ClaimsRecorded (p : ActivityPool I) : Prop :=
  ∃ record : I → Option (RunRef × ActivityEvent),
    (∀ i r, p.code i = .done (.ok (some r)) →
      ∃ ev, record i = some (r, ev) ∧ (r, ev) ∈ p.world.marks ∧ ev.attrs.IsStarted) ∧
    ∀ i j m, record i = some m → record j = some m → i = j

/-- However claims, reaps, heartbeats and terminal calls are interleaved, as
long as no row is written by a thread that has not read it since another thread
wrote it and no event is written over another: an activity that a terminal call
has closed stays closed that way, every claim that hands out an activity is
recorded, and between any two claims that are recorded of an activity there is a
timeout, and both are in its history to stay. -/
theorem finished_activity_stays {s : Shard} {ops : I → ActivityOperation}
    (hops : ∀ i, (ops i).Tends) {p : ActivityPool I}
    (hreach : Pool.Reaches SharedShard.access (fun s i e => attentive s i e = true)
      (SharedShard.together s ops) p) :
    StaysFinished ops p ∧ ClaimsRecorded p ∧ ClaimsSpaced p.world.marks ∧
      ∀ m ∈ p.world.marks, p.world.shard.acts.get (.ahist m.1 m.2.eventId) = some m.2 := by
  have hinit : Receipts (SharedShard.together s ops).world fun _ => {} := by
    refine ⟨⟨?_, ?_, ?_, ?_, ?_, ?_, trivial, ?_⟩, ?_, ?_⟩
    · exact fun _ _ _ h => by cases h
    · exact fun _ _ h => by cases h
    · exact fun _ _ h => by cases h
    · exact fun _ _ h => by cases h
    · rintro r ⟨ev, hev, -⟩
      cases hev
    · exact fun _ _ _ h => by cases h
    · exact fun _ h => by cases h
    · exact fun _ _ h => by cases h
    · exact fun _ _ _ h => by cases h
  obtain ⟨know, hinv, hconf⟩ := Pool.invariant (T := activityProtocol)
    (Q := fun i => Concludes (ops i))
    (fun {i e s a s'} hact => by
      obtain ⟨-, rfl, -⟩ := SharedShard.access_eq_some hact
      exact activityHandler_sound e s.shard)
    (fun {s know i e a s'} hinv hguard hP hact => by
      obtain ⟨hwait, rfl, rfl⟩ := SharedShard.access_eq_some hact
      exact hinv.keep hguard hP hwait)
    hreach hinit fun i => outcome_follows (hops i)
  refine ⟨fun i r st hcloses hok => ?_, ⟨fun i => (know i).took, fun i r hi => ?_, hinv.single⟩,
    hinv.spaced.claimsSpaced, hinv.stored⟩
  · obtain ⟨h, hi⟩ := (hconf i).of_succeeded hok
    exact (hinv.closed i r st (hi.closed r st hcloses ⟨h, rfl⟩)).2
  · have hends := hconf i
    rw [hi] at hends
    obtain ⟨ev, htook⟩ := hends.took r rfl
    exact ⟨ev, htook, hinv.kept i _ htook⟩

def claimedShard : Shard := slowShard.perform [startActivityOne, claimOne]

def beatBesideComplete : Bool → ActivityOperation
  | true => .heartbeat ⟨"n", "a", "q"⟩ .null
  | false => completeActivityOne

def closing (p : ActivityPool Bool) : Option ActivityState × Bool × Bool :=
  (p.world.shard.acts.status ⟨"n", "a", "q"⟩, (p.code true).succeeded, (p.code false).succeeded)

theorem finished_activity_stays_beat :
    ∃ p, Pool.Reaches SharedShard.access (fun s i e => attentive s i e = true)
        (SharedShard.together claimedShard beatBesideComplete) p ∧
      (p.code true).succeeded = true ∧ (p.code false).succeeded = true ∧
      p.world.shard.acts.status ⟨"n", "a", "q"⟩ = some .completed := by
  refine (Pool.observed (f := closing) (b := (some .completed, true, true)) (fun _ _ _ h => h)
    (List.replicate 8 true ++ List.replicate 7 false) ?_).imp fun p h => ⟨h.1, ?_⟩
  · decide +kernel
  · obtain ⟨hreach, hobs⟩ := h
    obtain ⟨-, hbeat, hcomplete⟩ := Prod.mk.inj hobs |>.imp id Prod.mk.inj
    have hstays := (finished_activity_stays
      (fun i => by cases i <;> exact trivial) hreach).1
    exact ⟨hbeat, hcomplete, hstays false _ _ rfl hcomplete⟩

def twoClaimants : Fin 4 → ActivityOperation
  | 0 => .reap "n"
  | 1 => .heartbeat ⟨"n", "a", "q"⟩ .null
  | 2 => .claim "n" "" "w₁" 0
  | 3 => .claim "n" "" "w₂" 0

/-- The reap lists the activity, the heartbeat renews the lease, the reap puts
the activity back all the same, and the heartbeat reads that row. The first
worker claims the activity before the heartbeat writes the row it has read, and
the second one after. -/
def twoClaimantsSchedule : List (Fin 4) :=
  List.replicate 3 0 ++ List.replicate 4 1 ++ [0, 1] ++ List.replicate 5 0 ++
    List.replicate 13 2 ++ List.replicate 3 1 ++ List.replicate 13 3

def recordedMarks (p : ActivityPool (Fin 4)) : List (RunRef × Bool) × Bool × Bool :=
  (p.world.marks.map fun m => (m.1, decide m.2.attrs.IsStarted),
    (p.code 2).succeeded, (p.code 3).succeeded)

theorem not_claimsSpaced {r : RunRef} {l : List (RunRef × Bool)}
    (h : marks.map (fun m => (m.1, decide m.2.attrs.IsStarted)) = (r, true) :: (r, true) :: l) :
    ¬ClaimsSpaced marks := by
  obtain ⟨⟨c, ev₁⟩, rest, rfl, h₁, hrest⟩ := List.map_eq_cons_iff.mp h
  obtain ⟨⟨c', ev₂⟩, rest', rfl, h₂, -⟩ := List.map_eq_cons_iff.mp hrest
  obtain ⟨rfl, hev₁⟩ := Prod.mk.inj h₁
  obtain ⟨rfl, hev₂⟩ := Prod.mk.inj h₂
  intro hspaced
  obtain ⟨ev, hev, -⟩ := hspaced [] [] rest' c' ev₁ ev₂ rfl
    (of_decide_eq_true hev₁) (of_decide_eq_true hev₂)
  cases hev

/-- Without such care a heartbeat reopens an activity whose completion has
succeeded, and two workers claim an activity with no timeout in between. -/
theorem finished_activity_reopened :
    (∃ p, Pool.Reaches SharedShard.access (fun _ _ _ => True)
        (SharedShard.together claimedShard beatBesideComplete) p ∧
      (p.code false).succeeded = true ∧
      p.world.shard.acts.status ⟨"n", "a", "q"⟩ = some .started ∧
      ¬StaysFinished beatBesideComplete p) ∧
    ∃ p, Pool.Reaches SharedShard.access (fun _ _ _ => True)
        (SharedShard.together claimedShard twoClaimants) p ∧
      (p.code 2).succeeded = true ∧ (p.code 3).succeeded = true ∧
      ¬ClaimsSpaced p.world.marks := by
  refine ⟨(Pool.observed_any (f := closing) (b := (some .started, true, true))
    (List.replicate 3 true ++ List.replicate 7 false ++ List.replicate 5 true) ?_).imp
      fun p h => ⟨h.1, ?_⟩,
    (Pool.observed_any (f := recordedMarks)
      (b := ([(⟨"n", "a", "q"⟩, true), (⟨"n", "a", "q"⟩, true), (⟨"n", "a", "q"⟩, false)],
        true, true)) twoClaimantsSchedule ?_).imp fun p h => ⟨h.1, ?_⟩⟩
  · decide +kernel
  · obtain ⟨hstatus, hcalls⟩ := Prod.mk.inj h.2
    have hdone := (Prod.mk.inj hcalls).2
    refine ⟨hdone, hstatus, fun hstays => ?_⟩
    have hcompleted := hstays false _ _ rfl hdone
    rw [hstatus] at hcompleted
    cases hcompleted
  · decide +kernel
  · obtain ⟨hmarks, hcalls⟩ := Prod.mk.inj h.2
    obtain ⟨hfirst, hsecond⟩ := Prod.mk.inj hcalls
    exact ⟨hfirst, hsecond, not_claimsSpaced hmarks⟩

end DurableTasks
