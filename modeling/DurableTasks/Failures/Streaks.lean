import DurableTasks.Safety.Failures
import DurableTasks.Tenancy.Principal
import Mathlib.Data.List.Induction

/-!
Failure reporting in full: the stored streak of every piece of work, the counters
in memory that throttle the log, and the lines that are written.
-/

namespace DurableTasks

/-- What reporting takes from outside: the hash, in hexadecimal, and RFC 3339
texts of times. Times are in nanoseconds. -/
structure Reporting where
  sha : String → String
  hex : ∀ s, '/' ∉ (sha s).toList
  format : Int → String
  parse : String → Option Int

structure StreakRow extends FailureStreak where
  org : String
  persistent : Bool := false
  firstFailureTime : String
  lastFailureTime : String := ""
  lastError : String := ""

inductive LogLevel where
  | info
  | warn
  | error
deriving DecidableEq

structure LogLine where
  level : LogLevel
  msg : String
  org : String
  id : FailureIdentity
  consecutiveFailures : Nat
  failingSince : String
  /-- Whether it is retried, and the text of the error. -/
  failure : Option (Bool × String) := none

/-- The streaks of all tenants and the counters of `failTracker`, 0 where there
is no entry. -/
structure Reporter where
  rows : Principal × String → Option StreakRow := fun _ => none
  fails : String → Nat := fun _ => 0
  log : List LogLine := []

namespace Failures

def failReportThrottle : Nat := 60

def failPersistentAfter : Int := 15 * 60 * 1000000000

def shouldReport (n every : Nat) : Bool := n = 1 || (0 < every && n % every = 0)

def msgFailed (id : FailureIdentity) (persistent : Bool) : String :=
  if id.activityType = "" then
    if persistent then "tasks: workflow failing persistently" else "tasks: workflow failed"
  else if persistent then "tasks: activity failing persistently" else "tasks: activity failed"

def msgRecovered (id : FailureIdentity) : String :=
  if id.activityType = "" then "tasks: workflow recovered" else "tasks: activity recovered"

variable (C : Reporting)

/-- The row of an identity in the store of its tenant. -/
def rowKey (p : Principal) (id : FailureIdentity) : Principal × String := (p, id.failKey C.sha)

/-- The key of its counter, which all tenants share. -/
def trackerKey (p : Principal) (id : FailureIdentity) : String :=
  p.text ++ "|" ++ id.failKey C.sha

def lasting (n : Nat) (first : String) (now : Int) : Bool :=
  1 < n && failPersistentAfter ≤ now - (C.parse first).getD now

def failedRow (p : Principal) (id : FailureIdentity) (retrying : Bool) (errText : String)
    (now : Int) (found : Option StreakRow) : StreakRow :=
  let rec₀ : StreakRow := found.getD
    { id.streak with org := p.org, firstFailureTime := C.format now }
  { rec₀ with
    consecutiveFailures := rec₀.consecutiveFailures + 1
    attempt := id.attempt
    retrying := retrying
    lastFailureTime := C.format now
    lastError := errText
    lastWorkflowId := id.workflowId
    lastRunId := id.runId
    persistent := lasting C (rec₀.consecutiveFailures + 1) rec₀.firstFailureTime now }

def failureLine (p : Principal) (id : FailureIdentity) (retrying : Bool) (errText : String)
    (row : StreakRow) : LogLine :=
  { level := if row.persistent then .error else .warn
    msg := msgFailed id row.persistent
    org := p.org
    id
    consecutiveFailures := row.consecutiveFailures
    failingSince := row.firstFailureTime
    failure := some (retrying, errText) }

def recoveryLine (p : Principal) (id : FailureIdentity) (row : StreakRow) : LogLine :=
  { level := .info
    msg := msgRecovered id
    org := p.org
    id
    consecutiveFailures := row.consecutiveFailures
    failingSince := row.firstFailureTime }

def recordFailure (p : Principal) (id : FailureIdentity) (retrying : Bool) (errText : String)
    (now : Int) (s : Reporter) : Reporter :=
  let found := s.rows (rowKey C p id)
  let row := failedRow C p id retrying errText now found
  let wasPersistent := found.any (·.persistent)
  let n := s.fails (trackerKey C p id) + 1
  { rows := Function.update s.rows (rowKey C p id) (some row)
    fails := Function.update s.fails (trackerKey C p id) n
    log := s.log ++
      if shouldReport n failReportThrottle || (row.persistent && !wasPersistent) then
        [failureLine p id retrying errText row]
      else [] }

def clearFailure (p : Principal) (id : FailureIdentity) (s : Reporter) : Reporter :=
  let fails := Function.update s.fails (trackerKey C p id) 0
  match s.rows (rowKey C p id) with
  | none => { s with fails }
  | some row =>
    { rows := Function.update s.rows (rowKey C p id) none
      fails
      log := s.log ++ [recoveryLine p id row] }

inductive Outcome where
  | failed (retrying : Bool) (errText : String)
  | succeeded

structure Report where
  principal : Principal
  id : FailureIdentity
  time : Int
  outcome : Outcome

variable {p q : Principal} {id jd : FailureIdentity} {cs : List Report} {ts : List Int}

def Report.apply (c : Report) (s : Reporter) : Reporter :=
  match c.outcome with
  | .failed retrying errText => recordFailure C c.principal c.id retrying errText c.time s
  | .succeeded => clearFailure C c.principal c.id s

def reported (cs : List Report) : Reporter := cs.foldl (fun s c => c.apply C s) {}

/-! ## What the streaks are of -/

/-- The recurring shape of the work: what a streak counts together. -/
def work (p : Principal) (id : FailureIdentity) : Principal × String × List String :=
  (p, id.ns, [id.workflowType, id.activityType, id.taskQueue, id.scheduleId])

def Report.work (c : Report) : Principal × String × List String := Failures.work c.principal c.id

/-- The times of the failures of a piece of work since its last success. -/
def since (k : Principal × String × List String) (cs : List Report) : List Int :=
  cs.foldl (fun ts c =>
    if c.work = k then
      match c.outcome with
      | .failed _ _ => ts ++ [c.time]
      | .succeeded => []
    else ts) []

/-- The work that is known: its tenants have stores, its names hold no NUL byte,
and no two hashes of it collide. -/
structure Distinct (R : SegmentRule) (Known : Principal → FailureIdentity → Prop) : Prop where
  stored : ∀ {p id}, Known p id → p.Valid R
  noNul : ∀ {p id}, Known p id → ∀ name ∈ (work p id).2.2, '\x00' ∉ name.toList
  noCollision : ∀ {p id q jd}, Known p id → Known q jd →
    id.fingerprint C.sha = jd.fingerprint C.sha →
    joinText '\x00' (work p id).2.2 = joinText '\x00' (work q jd).2.2

variable {C} {R : SegmentRule} {Known : Principal → FailureIdentity → Prop}

theorem rowKey_congr (h : work p id = work q jd) :
    rowKey C p id = rowKey C q jd ∧ trackerKey C p id = trackerKey C q jd := by
  simp only [work, Prod.mk.injEq, List.cons.injEq] at h
  simp only [rowKey, trackerKey, FailureIdentity.failKey, FailureIdentity.fingerprint, h, and_self]

theorem Distinct.failKey_inj (hC : Distinct C R Known) (hid : Known p id) (hjd : Known q jd)
    (h : id.failKey C.sha = jd.failKey C.sha) : (work p id).2 = (work q jd).2 := by
  have hkey : "fail/" ++ id.ns ++ String.singleton '/' ++ id.fingerprint C.sha =
      "fail/" ++ jd.ns ++ String.singleton '/' ++ jd.fingerprint C.sha := h
  obtain ⟨hns, hsha⟩ := append_singleton_inj_right (C.hex _) (C.hex _) hkey
  have hnames := joinText_inj (by simp [work]) (by simp [work]) (hC.noNul hid) (hC.noNul hjd)
    (hC.noCollision hid hjd hsha)
  exact Prod.ext ((String.append_right_inj _).mp hns) hnames

theorem Distinct.rowKey_inj (hC : Distinct C R Known) (hid : Known p id) (hjd : Known q jd)
    (h : rowKey C p id = rowKey C q jd) : work p id = work q jd :=
  Prod.ext (Prod.mk.inj h).1 (hC.failKey_inj hid hjd (Prod.mk.inj h).2)

theorem Distinct.trackerKey_inj (hC : Distinct C R Known) (hid : Known p id) (hjd : Known q jd)
    (h : trackerKey C p id = trackerKey C q jd) : work p id = work q jd := by
  have htag : ∀ p (id : FailureIdentity), trackerKey C p id = p.text ++ "|fail" ++
      String.singleton '/' ++ (id.ns ++ "/" ++ id.fingerprint C.sha) := by
    intro p id
    rw [trackerKey, FailureIdentity.failKey, ← String.toList_inj]
    simp
  rw [htag, htag] at h
  obtain ⟨rfl, hrest⟩ :=
    Principal.text_append_inj (hC.stored hid) (hC.stored hjd) (by decide) h
  refine Prod.ext rfl (hC.failKey_inj hid hjd ?_)
  simpa [FailureIdentity.failKey, String.append_assoc] using hrest

/-! ## One call -/

theorem since_append (k : Principal × String × List String) (cs : List Report) (c : Report) :
    since k (cs ++ [c]) = if c.work = k then
      match c.outcome with
      | .failed _ _ => since k cs ++ [c.time]
      | .succeeded => []
    else since k cs := by
  simp [since]

theorem reported_append (cs : List Report) (c : Report) :
    reported C (cs ++ [c]) = c.apply C (reported C cs) := by
  simp [reported]

/-- What the store and the counters say of a piece of work that failed at the
times `ts` since its last success. -/
inductive Tells (C : Reporting) (p : Principal) (id : FailureIdentity) (s : Reporter) :
    List Int → Prop
  | healthy (hrow : s.rows (rowKey C p id) = none) (hfails : s.fails (trackerKey C p id) = 0) :
      Tells C p id s []
  | failing {t : Int} {ts : List Int} {row : StreakRow}
      (hrow : s.rows (rowKey C p id) = some row)
      (hfails : s.fails (trackerKey C p id) = ts.length + 1)
      (hcount : row.consecutiveFailures = ts.length + 1)
      (hfirst : row.firstFailureTime = C.format t)
      (hpersistent : row.persistent = lasting C (ts.length + 1) (C.format t) (ts.getLastD t)) :
      Tells C p id s (t :: ts)

namespace Tells

variable {p q : Principal} {id jd : FailureIdentity} {s s' : Reporter} {ts : List Int}

theorem congr (h : Tells C p id s ts) (hrow : s'.rows (rowKey C q jd) = s.rows (rowKey C p id))
    (hfails : s'.fails (trackerKey C q jd) = s.fails (trackerKey C p id)) :
    Tells C q jd s' ts := by
  cases h with
  | healthy hnone hzero => exact .healthy (hrow.trans hnone) (hfails.trans hzero)
  | failing hsome hn hcount hfirst hpersistent =>
    exact .failing (hrow.trans hsome) (hfails.trans hn) hcount hfirst hpersistent

theorem recordFailure (h : Tells C p id s ts) (retrying : Bool) (errText : String) (now : Int) :
    Tells C p id (recordFailure C p id retrying errText now s) (ts ++ [now]) := by
  cases h with
  | healthy hrow hfails =>
    refine .failing (Function.update_self _ _ _) ?_ ?_ ?_ ?_
    · simp [Failures.recordFailure, hfails]
    · simp [failedRow, hrow, FailureIdentity.streak]
    · simp [failedRow, hrow]
    · simp [failedRow, hrow, FailureIdentity.streak]
  | @failing t ts row hrow hfails hcount hfirst hpersistent =>
    refine .failing (Function.update_self _ _ _) ?_ ?_ ?_ ?_
    · simp [Failures.recordFailure, hfails]
    · simp [failedRow, hrow, hcount]
    · simp [failedRow, hrow, hfirst]
    · simp [failedRow, hrow, hcount, hfirst]

end Tells

theorem clearFailure_fails (p : Principal) (id : FailureIdentity) (s : Reporter) :
    (clearFailure C p id s).fails = Function.update s.fails (trackerKey C p id) 0 := by
  unfold clearFailure
  cases s.rows (rowKey C p id) <;> rfl

theorem clearFailure_rows (p : Principal) (id : FailureIdentity) (s : Reporter) :
    (clearFailure C p id s).rows = Function.update s.rows (rowKey C p id) none := by
  unfold clearFailure
  cases hrow : s.rows (rowKey C p id) with
  | none => exact (Function.update_eq_self_iff.mpr hrow.symm).symm
  | some row => rfl

theorem Tells.clearFailure (C : Reporting) (p : Principal) (id : FailureIdentity) (s : Reporter) :
    Tells C p id (clearFailure C p id s) [] :=
  .healthy (by rw [clearFailure_rows, Function.update_self])
    (by rw [clearFailure_fails, Function.update_self])

theorem apply_of_ne {c : Report} {s : Reporter} {k : Principal × String} {t : String}
    (hk : k ≠ rowKey C c.principal c.id) (ht : t ≠ trackerKey C c.principal c.id) :
    (c.apply C s).rows k = s.rows k ∧ (c.apply C s).fails t = s.fails t := by
  unfold Report.apply
  cases c.outcome with
  | failed retrying errText =>
    exact ⟨Function.update_of_ne hk _ _, Function.update_of_ne ht _ _⟩
  | succeeded =>
    simp only [clearFailure_rows, clearFailure_fails]
    exact ⟨Function.update_of_ne hk _ _, Function.update_of_ne ht _ _⟩

/-- One call keeps the stores and counters in step with what failed. -/
theorem Tells.apply (hC : Distinct C R Known) (hid : Known p id) {c : Report}
    (hc : Known c.principal c.id) (h : Tells C p id (reported C cs) (since (work p id) cs)) :
    Tells C p id (reported C (cs ++ [c])) (since (work p id) (cs ++ [c])) := by
  rw [reported_append, since_append]
  by_cases hwork : c.work = work p id
  · rw [if_pos hwork]
    obtain ⟨hrow, htracker⟩ := rowKey_congr (C := C) hwork
    -- the call and the identity differ in what was seen last only
    suffices hself : Tells C c.principal c.id (c.apply C (reported C cs)) (match c.outcome with
        | .failed _ _ => since (work p id) cs ++ [c.time]
        | .succeeded => []) from hself.congr (by rw [hrow]) (by rw [htracker])
    have hself : Tells C c.principal c.id (reported C cs) (since (work p id) cs) :=
      h.congr (by rw [hrow]) (by rw [htracker])
    unfold Report.apply
    cases c.outcome with
    | failed retrying errText => exact hself.recordFailure retrying errText c.time
    | succeeded => exact Tells.clearFailure C c.principal c.id _
  · rw [if_neg hwork]
    obtain ⟨hrow, hfails⟩ := apply_of_ne (s := reported C cs)
      (fun heq => hwork (hC.rowKey_inj hid hc heq).symm)
      (fun heq => hwork (hC.trackerKey_inj hid hc heq).symm)
    exact h.congr hrow hfails

/-- After every sequence of calls the stores and counters are in step. -/
theorem tells_reported (hC : Distinct C R Known) (hid : Known p id)
    (hcs : ∀ c ∈ cs, Known c.principal c.id) :
    Tells C p id (reported C cs) (since (work p id) cs) := by
  induction cs using List.reverseRecOn with
  | nil => exact .healthy rfl rfl
  | append_singleton cs c ih =>
    exact (ih fun c' hc' => hcs c' (by simp [hc'])).apply hC hid (hcs c (by simp))

/-! ## Every sequence of calls -/

/-- While a piece of work does not succeed its failures add up. -/
theorem since_append_list {k : Principal × String × List String} (a : List Report) {b : List Report}
    (hb : ∀ c ∈ b, c.work = k → c.outcome ≠ .succeeded) :
    ∃ us, since k (a ++ b) = since k a ++ us := by
  induction b using List.reverseRecOn with
  | nil => exact ⟨[], by simp⟩
  | append_singleton b c ih =>
    obtain ⟨us, hus⟩ := ih fun c' hc' => hb c' (by simp [hc'])
    rw [← List.append_assoc, since_append]
    by_cases hwork : c.work = k
    · grind
    · exact ⟨us, by rw [if_neg hwork, hus]⟩

theorem since_sublist (k : Principal × String × List String) (cs : List Report) :
    (since k cs).Sublist (cs.map (·.time)) := by
  induction cs using List.reverseRecOn with
  | nil => exact .slnil
  | append_singleton cs c ih =>
    rw [since_append, List.map_append]
    split_ifs
    · cases c.outcome with
      | failed retrying errText => exact ih.append (.refl _)
      | succeeded => exact List.nil_sublist _
    · exact ih.trans (List.sublist_append_left _ _)

theorem getLastD_le_append {t : Int} {us : List Int} (h : (t :: (ts ++ us)).Pairwise (· ≤ ·)) :
    ts.getLastD t ≤ (ts ++ us).getLastD t := by
  cases us using List.reverseRecOn with
  | nil => simp
  | append_singleton us u =>
    rw [← List.cons_append, List.pairwise_append] at h
    rw [← List.append_assoc, List.getLastD_concat]
    exact h.2.2 _ List.getLastD_mem_cons u (by simp)

theorem lasting_mono {n n' : Nat} {first : String} {now now' : Int} (hn : n ≤ n')
    (hnow : now ≤ now') (h : lasting C n first now = true) : lasting C n' first now' = true := by
  simp only [lasting, Bool.and_eq_true, decide_eq_true_eq] at h ⊢
  refine ⟨h.1.trans_le hn, ?_⟩
  cases hparse : C.parse first with
  | none =>
    have hzero := h.2
    simp [hparse, failPersistentAfter] at hzero
  | some t =>
    have hlong := h.2
    simp only [hparse, Option.getD_some] at hlong ⊢
    omega

def streakOf (C : Reporting) (cs : List Report) (p : Principal) (id : FailureIdentity) :
    Option StreakRow :=
  (reported C cs).rows (rowKey C p id)

/-- Streaks are exact for the known work, in the store and in the log. -/
structure Exact (C : Reporting) (Known : Principal → FailureIdentity → Prop) (cs : List Report) :
    Prop where
  present : ∀ p id, Known p id → ((streakOf C cs p id).isSome ↔ since (work p id) cs ≠ [])
  count : ∀ p id row, Known p id → streakOf C cs p id = some row →
    row.consecutiveFailures = (since (work p id) cs).length
  steady : ∀ p id a b row, Known p id → cs = a ++ b →
    (∀ c ∈ b, c.work = work p id → c.outcome ≠ .succeeded) → streakOf C a p id = some row →
    ∃ row', streakOf C cs p id = some row' ∧ row'.firstFailureTime = row.firstFailureTime ∧
      (row.persistent = true → row'.persistent = true)
  failure : ∀ a c b retrying errText, cs = a ++ c :: b → c.outcome = .failed retrying errText →
    ∃ row, streakOf C (a ++ [c]) c.principal c.id = some row ∧
      (reported C (a ++ [c])).log = (reported C a).log ++
        if row.consecutiveFailures = 1 ∨ 60 ∣ row.consecutiveFailures ∨
          (row.persistent = true ∧ (streakOf C a c.principal c.id).any (·.persistent) = false)
        then [failureLine c.principal c.id retrying errText row] else []
  recovery : ∀ a c b, cs = a ++ c :: b → c.outcome = .succeeded →
    (reported C (a ++ [c])).log = (reported C a).log ++
      ((streakOf C a c.principal c.id).map (recoveryLine c.principal c.id)).toList

theorem Tells.row_eq {row : StreakRow} (h : Tells C p id (reported C cs) ts)
    (hrow : streakOf C cs p id = some row) :
    ∃ t us, ts = t :: us ∧ row.consecutiveFailures = ts.length ∧
      row.firstFailureTime = C.format t ∧
      row.persistent = lasting C ts.length (C.format t) (us.getLastD t) := by
  cases h with
  | healthy hnone hfails => cases hrow.symm.trans hnone
  | @failing t us row' hsome hfails hcount hfirst hpersistent =>
    obtain rfl := Option.some.inj (hrow.symm.trans hsome)
    exact ⟨t, us, rfl, hcount, hfirst, hpersistent⟩

theorem Tells.isSome_iff (h : Tells C p id (reported C cs) ts) :
    (streakOf C cs p id).isSome ↔ ts ≠ [] := by
  cases h with
  | healthy hnone hfails => simp [streakOf, hnone]
  | failing hsome hfails hcount hfirst hpersistent => simp [streakOf, hsome]

/-- Within a streak the first time stays, and persistence does. -/
theorem steady_of_tells {a : List Report} {row : StreakRow} {us : List Int}
    (hus : since (work p id) cs = since (work p id) a ++ us)
    (htimes : (since (work p id) cs).Pairwise (· ≤ ·))
    (ha : Tells C p id (reported C a) (since (work p id) a))
    (hcs : Tells C p id (reported C cs) (since (work p id) cs))
    (hrow : streakOf C a p id = some row) :
    ∃ row', streakOf C cs p id = some row' ∧ row'.firstFailureTime = row.firstFailureTime ∧
      (row.persistent = true → row'.persistent = true) := by
  obtain ⟨t, ts, hsince, -, hfirst, hpersistent⟩ := ha.row_eq hrow
  have hsome : (streakOf C cs p id).isSome := hcs.isSome_iff.mpr (by simp [hus, hsince])
  obtain ⟨row', hrow'⟩ := Option.isSome_iff_exists.mp hsome
  obtain ⟨t', ts', hsince', -, hfirst', hpersistent'⟩ := hcs.row_eq hrow'
  -- the streak began with the same failure
  rw [hsince', hsince, List.cons_append] at hus
  obtain ⟨rfl, rfl⟩ := List.cons.inj hus
  refine ⟨row', hrow', hfirst'.trans hfirst.symm, fun hlasting => ?_⟩
  rw [hpersistent] at hlasting
  rw [hpersistent']
  rw [hsince'] at htimes
  exact lasting_mono (by simp [hsince, hsince']) (getLastD_le_append htimes) hlasting

theorem shouldReport_iff (n : Nat) : shouldReport n failReportThrottle = true ↔ n = 1 ∨ 60 ∣ n := by
  simp only [shouldReport, Nat.dvd_iff_mod_eq_zero, Bool.or_eq_true, Bool.and_eq_true,
    decide_eq_true_eq]
  simp [failReportThrottle]

/-- The counter that throttles and the stored count are one number. -/
theorem log_recordFailure {s : Reporter} (h : Tells C p id s ts) (retrying : Bool)
    (errText : String) (now : Int) :
    ∃ row, (recordFailure C p id retrying errText now s).rows (rowKey C p id) = some row ∧
      (recordFailure C p id retrying errText now s).log = s.log ++
        if row.consecutiveFailures = 1 ∨ 60 ∣ row.consecutiveFailures ∨
          (row.persistent = true ∧ (s.rows (rowKey C p id)).any (·.persistent) = false)
        then [failureLine p id retrying errText row] else [] := by
  refine ⟨_, Function.update_self _ _ _, ?_⟩
  have hcount : (failedRow C p id retrying errText now
      (s.rows (rowKey C p id))).consecutiveFailures = s.fails (trackerKey C p id) + 1 := by
    cases h with
    | healthy hrow hfails => simp [failedRow, hrow, hfails, FailureIdentity.streak]
    | failing hrow hfails hcount hfirst hpersistent => simp [failedRow, hrow, hfails, hcount]
  simp only [recordFailure, ← hcount, Bool.or_eq_true, Bool.and_eq_true, Bool.not_eq_true',
    shouldReport_iff, or_assoc]

/-- Failure streaks are exact, for every sequence of calls about known work in
the order of their times. -/
theorem failure_streaks_exact (C : Reporting) (R : SegmentRule)
    (Known : Principal → FailureIdentity → Prop) (hC : Distinct C R Known) (cs : List Report)
    (hcs : ∀ c ∈ cs, Known c.principal c.id) (htimes : (cs.map (·.time)).Pairwise (· ≤ ·)) :
    Exact C Known cs := by
  have htells : ∀ {p id}, Known p id → ∀ {a b}, cs = a ++ b →
      Tells C p id (reported C a) (since (work p id) a) := by
    intro p id hid a b hab
    exact tells_reported hC hid fun c hc => hcs c (by simp [hab, hc])
  constructor
  · intro p id hid
    exact (htells hid (List.append_nil cs).symm).isSome_iff
  · intro p id row hid hrow
    obtain ⟨t, us, -, hcount, -⟩ := (htells hid (List.append_nil cs).symm).row_eq hrow
    exact hcount
  · intro p id a b row hid hab hb hrow
    subst hab
    obtain ⟨us, hus⟩ := since_append_list a hb
    exact steady_of_tells hus (htimes.sublist (since_sublist _ _)) (htells hid rfl)
      (htells hid (List.append_nil _).symm) hrow
  · intro a c b retrying errText hab hout
    have hc : Known c.principal c.id := hcs c (by simp [hab])
    rw [streakOf, reported_append, Report.apply, hout]
    exact log_recordFailure (htells hc hab) retrying errText c.time
  · intro a c b hab hout
    rw [reported_append, Report.apply, hout]
    cases hrow : streakOf C a c.principal c.id with
    | none => simp [clearFailure, show (reported C a).rows _ = none from hrow]
    | some row => simp [clearFailure, show (reported C a).rows _ = some row from hrow]

/-- An example: the names stand for their hash, with another letter for a slash,
and a time is written in whole seconds. -/
def plainReporting : Reporting where
  sha s := String.ofList (s.toList.map fun c => if c = '/' then '_' else c)
  hex s := by
    simp only [String.toList_ofList, List.mem_map, not_exists, not_and]
    intro c _
    split_ifs with hc
    · decide
    · exact hc
  format t := String.ofList (Nat.toDigits 10 (t.toNat / 1000000000))
  parse s := some (s.toList.foldl (fun n c => 10 * n + (c.toNat - '0'.toNat)) 0 * 1000000000)

def backup : FailureIdentity :=
  { ns := "n", workflowType := "Backup", activityType := "Dump", workflowId := "wf", runId := "r" }

def nightly : List Report :=
  [⟨.root, backup, 0, .failed false "no space"⟩,
    ⟨.root, backup, 86400000000000, .failed false "no space"⟩,
    ⟨.root, backup, 172800000000000, .succeeded⟩]

theorem failure_streaks_exact_nightly :
    (reported plainReporting nightly).log.map (fun l => (l.msg, l.consecutiveFailures)) =
      [("tasks: activity failed", 1), ("tasks: activity failing persistently", 2),
        ("tasks: activity recovered", 2)] ∧
    Exact plainReporting (fun p id => p = .root ∧ id = backup) nightly := by
  have hdistinct : Distinct plainReporting plainNames fun p id => p = .root ∧ id = backup := by
    constructor
    · rintro p id ⟨rfl, rfl⟩
      decide
    · rintro p id ⟨rfl, rfl⟩
      decide
    · rintro p id q jd ⟨rfl, rfl⟩ ⟨rfl, rfl⟩ _
      rfl
  refine ⟨by decide +kernel, failure_streaks_exact plainReporting plainNames _ hdistinct nightly ?_
    (by decide)⟩
  intro c hc
  simp only [nightly, List.mem_cons, List.not_mem_nil, or_false] at hc
  rcases hc with rfl | rfl | rfl <;> exact ⟨rfl, rfl⟩

end Failures

end DurableTasks
