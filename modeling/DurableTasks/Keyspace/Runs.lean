import DurableTasks.Engine.Specs
import DurableTasks.Keyspace.Texts

/-!
Describing, purging and recovering a run on a shard whose keys are texts, and when
the runs of a namespace own disjoint data there. Locks are left out: nothing else
runs meanwhile, and a lock is no key.
-/

namespace DurableTasks.Keyspace

open Effects Std

/-- A record as it is stored. A row and a reference say whose they are. -/
inductive Body where
  | registered (n : Namespace)
  | run (wf run : String) (row : WorkflowExecution)
  | event (ev : HistoryEvent)
  | activity (seq : Int) (a : WorkflowActivity)
  | ref (wf run : String)
  | stamp (t : Nat)
  | text (s : String)

structure Node where
  records : TreeMap String Body := {}
  world : World

variable {n : Node} {ns start : String}

inductive Access where
  | get (key : String)
  | list (start : String)
  | put (key : String) (body : Body)
  | del (key : String)
  | call (e : Effect)

abbrev Access.Answer : Access → Type
  | get _ => Option Body
  | list _ => List (String × Body)
  | put _ _ => Unit
  | del _ => Unit
  | call e => e.Answer

def Node.list (n : Node) (start : String) : List (String × Body) :=
  n.records.toList.filter fun p => start.toList.isPrefixOf p.1.toList

def nodeHandler : Handler Access Access.Answer Node
  | .get key, n => (n.records[key]?, n)
  | .list start, n => (n.list start, n)
  | .put key body, n => ((), { n with records := n.records.insert key body })
  | .del key, n => ((), { n with records := n.records.erase key })
  | .call e, n => ((handler e n.world).1, { n with world := (handler e n.world).2 })

def touched (n : Node) : Access → List String
  | .get key => [key]
  | .list start => (n.list start).map Prod.fst
  | .put key _ => [key]
  | .del key => [key]
  | .call _ => []

/-! ## The store by kind and parts -/

def body : (k : Key) → k.Val → Body
  | .ns _, n => .registered n
  | .wf r, row => .run r.wf r.run row
  | .wfh _ _, ev => .event ev
  | .wfact _ seq, a => .activity seq a
  | .wfopen r, _ => .ref r.wf r.run
  | .wfidx _, t => .stamp t
  | .idem _ _ _, run => .text run
  | .sctrig _ _ _, p => .ref p.1 p.2

def PlainKey (k : Key) : Prop := ∀ part ∈ k.parts, '/' ∉ part.toList

def Node.apply (n : Node) : Write → Node
  | .put k v => { n with records := n.records.insert k.text (body k v) }
  | .del k => { n with records := n.records.erase k.text }
  | .close _ _ => n

/-- The shard holds under the text of each plain key what the store holds under the
key. -/
def Represents (n : Node) (s : Store) : Prop :=
  ∀ k, PlainKey k → n.records[k.text]? = (s.get k).map (body k)

theorem Represents.apply {s : Store} (h : Represents n s) {x : Write}
    (hx : ∀ k, x.key = some k → PlainKey k) : Represents (n.apply x) (s.apply x) := by
  intro k' hk'
  cases x with
  | close r c => exact h k' hk'
  | put k v =>
    simp only [Node.apply, Store.apply_put, TreeMap.getElem?_insert,
      LawfulEqCmp.compare_eq_iff_eq]
    split_ifs with htext
    · obtain rfl := Key.text_inj (hx k rfl) hk' htext
      simp
    · have hne : k' ≠ k := fun heq => htext (congrArg Key.text heq.symm)
      rw [s.get_put_of_ne v hne]
      exact h k' hk'
  | del k =>
    simp only [Node.apply, Store.apply_del, TreeMap.getElem?_erase,
      LawfulEqCmp.compare_eq_iff_eq]
    split_ifs with htext
    · obtain rfl := Key.text_inj (hx k rfl) hk' htext
      simp
    · have hne : k' ≠ k := fun heq => htext (congrArg Key.text heq.symm)
      rw [s.get_del_of_ne hne]
      exact h k' hk'

/-- As long as no id holds a slash, the shard of texts stays the store by kind and
parts. -/
theorem Represents.writes {s : Store} (h : Represents n s) (xs : List Write)
    (hxs : ∀ x ∈ xs, ∀ k, x.key = some k → PlainKey k) :
    Represents (xs.foldl Node.apply n) (xs.foldl Store.apply s) := by
  induction xs generalizing n s with
  | nil => exact h
  | cons x xs ih =>
    exact ih (h.apply (hxs x List.mem_cons_self)) fun y hy => hxs y (List.mem_cons_of_mem _ hy)

/-- A request is stored, then replaced, and another record is deleted. -/
theorem Represents.writes_replaced :
    Represents ([.put (.idem "n" "w" "q") "r", .put (.idem "n" "w" "q") "s",
      .del (.wf ⟨"n", "w", "r"⟩)].foldl Node.apply { world := Engine.emptyShard })
      ([.put (.idem "n" "w" "q") "r", .put (.idem "n" "w" "q") "s",
        .del (.wf ⟨"n", "w", "r"⟩)].foldl Store.apply {}) := by
  refine Represents.writes (fun k _ => by simp) _ fun x hx k hk => ?_
  simp only [List.mem_cons, List.not_mem_nil, or_false] at hx
  rcases hx with rfl | rfl | rfl <;> obtain rfl := Option.some.inj hk <;>
    simp [PlainKey, Key.parts]

/-! ## The functions of the engine -/

abbrev Text (α : Type) := ExceptT String (Program Access Access.Answer) α

def access (a : Access) : Text a.Answer := ExceptT.lift (Program.perform a)

def decodeAll {α : Type} (decode : Body → Option α) : List (String × Body) → Option (List α)
  | [] => some []
  | (_, body) :: rest => do return (← decode body) :: (← decodeAll decode rest)

def listInto {α : Type} (decode : Body → Option α) (start : String) : Text (List α) := do
  let found ← access (.list start)
  match decodeAll decode found with
  | some l => return l
  | none => throw "json: cannot unmarshal"

def Body.run? (ns : String) : Body → Option (RunRef × WorkflowExecution)
  | .run w r row => some (⟨ns, w, r⟩, row)
  | _ => none

def Body.activity? : Body → Option (Int × WorkflowActivity)
  | .activity seq a => some (seq, a)
  | _ => none

/-- An event as it is decoded, its numbers through `float64`. -/
def Body.event? : Body → Option HistoryEvent
  | .event ev => ev.throughAny
  | _ => none

/-- `DescribeWorkflow`; an empty run id asks for the current run. -/
def describeWorkflow (ns wf run : String) : Text (Option (RunRef × WorkflowExecution)) :=
  if run ≠ "" then do
    match ← access (.get (runKey ns wf run)) with
    | none => return none
    | some body =>
      match body.run? ns with
      | some p => return some p
      | none => throw "store.get: unmarshal"
  else do
    let rows ← listInto (Body.run? ns) (rowPrefix ns wf)
    return Engine.currentRun rows

def requestKeys (ns wf run : String) : Text (List String) := do
  let found ← access (.list (idemPrefix ns wf))
  return (found.filter fun p =>
    match p.2 with
    | .text s => s = run
    | _ => false).map Prod.fst

def triggerKeys (ns wf run sid : String) : Text (List String) :=
  if sid = "" then return []
  else do
    let found ← access (.list (sctrigPrefix ns sid))
    return (found.filter fun p =>
      match p.2 with
      | .ref w r => w = wf ∧ r = run
      | _ => false).map Prod.fst

def purgeWorkflowRun (ns wf run : String) (cutoff : Nat) : Text Bool := do
  match ← describeWorkflow ns wf run with
  | none => return false
  | some (_, row) =>
    if row.isOpen ∨ cutoff < Engine.closedAt row then return false
    else do
      let evs ← access (.list (historyPrefix ns wf run))
      let acts ← access (.list (wfActPrefix ns wf run))
      let reqs ← requestKeys ns wf run
      let trigs ← triggerKeys ns wf run (Engine.scheduleOf row)
      (evs.map Prod.fst ++ acts.map Prod.fst ++ reqs ++ trigs ++
        [openKey ns wf run, runKey ns wf run]).forM fun key => access (.del key)
      return true

def putWorkflowActivity (ns wf run : String) (seq : Int) (a : WorkflowActivity) : Text Unit :=
  if a.storable then access (.put (wfActKey ns wf run seq) (.activity seq a))
  else throw "store.put: marshal: invalid json.RawMessage"

/-- `dispatchActivityAttempt`, without a marker in the history. -/
def dispatchActivityAttempt (ns wf run : String) (seq : Int) (a : WorkflowActivity) :
    Text Unit := do
  let a := { a with status := .started }
  putWorkflowActivity ns wf run seq a
  access (.call (.dispatchActivity
    { ref := ⟨ns, wf, run⟩, seq := seq, queue := a.taskQueue, activityID := a.activityID
      activityType := a.activityType, input := a.input
      startToCloseMs := a.startToCloseMs, heartbeatMs := a.heartbeatMs } a.attempt))

def scheduleWorkflowTask (ns wf run : String) : Text Unit := do
  match ← describeWorkflow ns wf run with
  | none => throw s!"workflow {ns}/{wf}/{run} not found"
  | some (_, row) =>
    if row.status.isTerminal then return ()
    else do
      let hist ← listInto Body.event? (historyPrefix ns wf run)
      access (.call (.enqueueWorkflowTask
        { ref := ⟨ns, wf, run⟩, queue := row.taskQueue, workflowType := row.type
          history := hist }))

def recoverRun (ns wf run : String) : Text Unit := do
  match ← describeWorkflow ns wf run with
  | none => access (.del (openKey ns wf run))
  | some (_, row) =>
    if row.status.isTerminal then access (.del (openKey ns wf run))
    else do
      let acts ← listInto Body.activity? (wfActPrefix ns wf run)
      acts.forM fun p =>
        if p.2.isTerminal then return () else dispatchActivityAttempt ns wf run p.1 p.2
      scheduleWorkflowTask ns wf run

/-! ## Disjoint runs -/

def Node.Holds (n : Node) (ns : String) (ids : Set RunName) : Prop :=
  ∀ key w r row, n.records[key]? = some (.run w r row) →
    ∃ p ∈ ids, p.wf = w ∧ p.run = r ∧ key = runKey ns w r

def Spares (ns : String) (ids : Set RunName) (p : RunName) (n : Node) (a : Access) : Prop :=
  ∀ key ∈ touched n a, ∀ q ∈ ids, Owned ns q key → q = p

structure DisjointRuns (ns : String) (ids : Set RunName) : Prop where
  keys : ∀ p ∈ ids, ∀ q ∈ ids, ∀ key, Owned ns p key → Owned ns q key → q = p
  current : ∀ n : Node, n.Holds ns ids → ∀ (id : String) (r : RunRef) (row : WorkflowExecution),
    ((describeWorkflow ns id "").run.run nodeHandler n).1 = .ok (some (r, row)) → r.wf = id
  purge : ∀ (n : Node), ∀ p ∈ ids, ∀ cutoff : Nat,
    (purgeWorkflowRun ns p.wf p.run cutoff).run.Meets nodeHandler (Spares ns ids p) n
  recover : ∀ (n : Node), ∀ p ∈ ids,
    (recoverRun ns p.wf p.run).run.Meets nodeHandler (Spares ns ids p) n

/-- The keys near a run: its own, others below its prefixes, and records of requests
and triggers. -/
inductive Near (ns : String) (p : RunName) : String → Prop
  | row : Near ns p (runKey ns p.wf p.run)
  | entry : Near ns p (openKey ns p.wf p.run)
  | event (s : String) : Near ns p (historyPrefix ns p.wf p.run ++ s)
  | activity (s : String) : Near ns p (wfActPrefix ns p.wf p.run ++ s)
  | request (s : String) : Near ns p (idemPrefix ns p.wf ++ s)
  | trigger (sid s : String) : Near ns p (sctrigPrefix ns sid ++ s)

theorem Near.eq_of_owned {key : String} {p q : RunName} (hp : p.Plain) (hq : q.Plain)
    (h : Near ns p key) (howned : Owned ns q key) : q = p := by
  cases h with
  | row => exact howned.eq_of_row hp hq
  | entry => exact howned.eq_of_entry hp hq
  | event s => exact howned.eq_of_history hp hq
  | activity s => exact howned.eq_of_activity hp hq
  | request s => exact absurd howned not_owned_request
  | trigger sid s => exact absurd howned not_owned_trigger

def Access.Near (ns : String) (p : RunName) : Access → Prop
  | .get key => Keyspace.Near ns p key
  | .list start => ∀ s, Keyspace.Near ns p (start ++ s)
  | .put key _ => Keyspace.Near ns p key
  | .del key => Keyspace.Near ns p key
  | .call _ => True

theorem isPrefixOf_iff {key : String} :
    start.toList.isPrefixOf key.toList = true ↔ ∃ s, key = start ++ s := by
  rw [List.isPrefixOf_iff_prefix]
  constructor
  · rintro ⟨l, hl⟩
    exact ⟨String.ofList l, String.toList_inj.mp (by simp [hl])⟩
  · rintro ⟨s, rfl⟩
    simp

theorem mem_list {key : String} {body : Body} :
    (key, body) ∈ n.list start ↔ n.records[key]? = some body ∧ ∃ s, key = start ++ s := by
  rw [Node.list, List.mem_filter, TreeMap.mem_toList_iff_getElem?_eq_some, isPrefixOf_iff]

theorem Access.Near.spares {ids : Set RunName} (hids : ∀ q ∈ ids, q.Plain) {p : RunName}
    (hp : p ∈ ids) {a : Access} (h : a.Near ns p) (n : Node) : Spares ns ids p n a := by
  intro key hkey q hq howned
  suffices hnear : Keyspace.Near ns p key from hnear.eq_of_owned (hids p hp) (hids q hq) howned
  cases a with
  | get k | put k body | del k =>
    obtain rfl := List.mem_singleton.mp hkey
    exact h
  | list start =>
    obtain ⟨⟨k, body⟩, hmem, rfl⟩ := List.mem_map.mp hkey
    obtain ⟨-, s, rfl⟩ := mem_list.mp hmem
    exact h s
  | call e => cases hkey

def Listed : (a : Access) → a.Answer → Prop
  | .list start, found => ∀ x ∈ found, ∃ s, x.1 = start ++ s
  | _, _ => True

theorem listed (a : Access) (n : Node) : Listed a (nodeHandler a n).1 := by
  cases a with
  | list start =>
    rintro ⟨key, body⟩ hmem
    exact (mem_list.mp hmem).2
  | _ => trivial

section Near

variable {ns : String} {p : RunName} {α : Type}

theorem near_access {a : Access} (h : a.Near ns p) :
    GivenOf Listed (Access.Near ns p) (Listed a) (access a) := by
  refine ⟨h, fun r hr b hb => ?_⟩
  obtain rfl := Except.ok.inj hb
  exact hr

theorem near_listInto {decode : Body → Option α} (h : ∀ s, Near ns p (start ++ s)) :
    GivenOf Listed (Access.Near ns p) (fun _ => True) (listInto decode start) := by
  refine .bind (near_access (a := .list start) h) fun found _ => ?_
  cases decodeAll decode found with
  | some l => exact .pure trivial
  | none => exact .throw _

theorem near_describeWorkflow :
    GivenOf Listed (Access.Near ns p) (fun _ => True) (describeWorkflow ns p.wf p.run) := by
  rw [describeWorkflow, if_pos p.named]
  refine .bind (near_access (a := .get _) .row) fun found _ => ?_
  cases found with
  | none => exact .pure trivial
  | some body =>
    dsimp only
    cases body.run? ns with
    | some row => exact .pure trivial
    | none => exact .throw _

/-- Keys picked from a listing are near if all of the listing is. -/
theorem near_picked (h : ∀ s, Near ns p (start ++ s)) (ok : String × Body → Bool) :
    GivenOf Listed (Access.Near ns p) (fun keys => ∀ key ∈ keys, Near ns p key)
      (do return ((← access (.list start)).filter ok).map Prod.fst) := by
  refine .bind (near_access (a := .list start) h) fun found hfound => .pure fun key hkey => ?_
  obtain ⟨x, hx, rfl⟩ := List.mem_map.mp hkey
  obtain ⟨s, hs⟩ := hfound x (List.mem_filter.mp hx).1
  rw [hs]
  exact h s

theorem near_triggerKeys (sid : String) :
    GivenOf Listed (Access.Near ns p) (fun keys => ∀ key ∈ keys, Near ns p key)
      (triggerKeys ns p.wf p.run sid) := by
  unfold triggerKeys
  split_ifs
  · exact .pure (by simp)
  · exact near_picked (.trigger sid) _

theorem near_purgeWorkflowRun (cutoff : Nat) :
    GivenOf Listed (Access.Near ns p) (fun _ => True)
      (purgeWorkflowRun ns p.wf p.run cutoff) := by
  refine .bind near_describeWorkflow fun found _ => ?_
  rcases found with _ | ⟨_, row⟩
  · exact .pure trivial
  dsimp only
  split_ifs
  · exact .pure trivial
  refine .bind (near_access (a := .list _) .event) fun evs hevs => ?_
  refine .bind (near_access (a := .list _) .activity) fun acts hacts => ?_
  refine .bind (near_picked .request _) fun reqs hreqs => ?_
  refine .bind (near_triggerKeys _) fun trigs htrigs => ?_
  refine .bind (.forM fun key hkey => ?_) fun _ _ => .pure trivial
  refine (near_access (a := .del key) ?_).mono fun _ _ => trivial
  -- Every key deleted was listed below a prefix of the run, or is its entry or row.
  simp only [List.mem_append, List.mem_map, List.mem_cons, List.not_mem_nil, or_false] at hkey
  rcases hkey with (((⟨x, hx, rfl⟩ | ⟨x, hx, rfl⟩) | hkey) | hkey) | rfl | rfl
  · obtain ⟨s, hs⟩ := hevs x hx
    exact hs ▸ .event s
  · obtain ⟨s, hs⟩ := hacts x hx
    exact hs ▸ .activity s
  · exact hreqs key hkey
  · exact htrigs key hkey
  · exact .entry
  · exact .row

theorem near_dispatchActivityAttempt (seq : Int) (a : WorkflowActivity) :
    GivenOf Listed (Access.Near ns p) (fun _ => True)
      (dispatchActivityAttempt ns p.wf p.run seq a) := by
  refine .bind (Q := fun _ => True) ?_ fun _ _ =>
    (near_access (a := .call _) trivial).mono fun _ _ => trivial
  unfold putWorkflowActivity
  split_ifs
  · exact (near_access (a := .put _ _) (.activity _)).mono fun _ _ => trivial
  · exact .throw _

theorem near_scheduleWorkflowTask :
    GivenOf Listed (Access.Near ns p) (fun _ => True) (scheduleWorkflowTask ns p.wf p.run) := by
  refine .bind near_describeWorkflow fun found _ => ?_
  rcases found with _ | ⟨_, row⟩
  · exact .throw _
  dsimp only
  split_ifs
  · exact .pure trivial
  · exact .bind (near_listInto .event) fun hist _ =>
      (near_access (a := .call _) trivial).mono fun _ _ => trivial

theorem near_recoverRun :
    GivenOf Listed (Access.Near ns p) (fun _ => True) (recoverRun ns p.wf p.run) := by
  have hdrop : GivenOf Listed (Access.Near ns p) (fun _ => True)
      (access (.del (openKey ns p.wf p.run))) :=
    (near_access (a := .del _) .entry).mono fun _ _ => trivial
  refine .bind near_describeWorkflow fun found _ => ?_
  rcases found with _ | ⟨_, row⟩
  · exact hdrop
  dsimp only
  split_ifs
  · exact hdrop
  refine .bind (near_listInto .activity) fun acts _ =>
    .bind (.forM fun x _ => ?_) fun _ _ => near_scheduleWorkflowTask
  split_ifs
  · exact .pure trivial
  · exact near_dispatchActivityAttempt x.1 x.2

end Near

theorem run_listInto {α : Type} (decode : Body → Option α) (start : String) (n : Node) :
    (listInto decode start).run.run nodeHandler n =
      ((decodeAll decode (n.list start)).elim (.error "json: cannot unmarshal") .ok, n) := by
  cases hdecode : decodeAll decode (n.list start) with
  | none => simp [listInto, access, Program.perform, nodeHandler, hdecode]
  | some l => simp [listInto, access, Program.perform, nodeHandler, hdecode]

def Node.rows (n : Node) (ns id : String) : Option (List (RunRef × WorkflowExecution)) :=
  decodeAll (Body.run? ns) (n.list (rowPrefix ns id))

theorem run_describeWorkflow (ns id : String) (n : Node) :
    ((describeWorkflow ns id "").run.run nodeHandler n).1 =
      ((n.rows ns id).elim (.error "json: cannot unmarshal") fun rows =>
        .ok (Engine.currentRun rows)) := by
  rw [describeWorkflow, if_neg (by simp), ExceptT.run_bind, Program.run_bind, run_listInto]
  unfold Node.rows
  cases decodeAll (Body.run? ns) (n.list (rowPrefix ns id)) <;> rfl

theorem mem_of_decodeAll {α : Type} {decode : Body → Option α} {found : List (String × Body)}
    {l : List α} (h : decodeAll decode found = some l) {x : α} (hx : x ∈ l) :
    ∃ y ∈ found, decode y.2 = some x := by
  induction found generalizing l with
  | nil =>
    obtain rfl := Option.some.inj h
    cases hx
  | cons y rest ih =>
    grind [decodeAll, Option.pure_def, Option.bind_eq_bind,
      Option.bind_eq_some_iff, Option.some.injEq]

/-- The current run of a workflow id is one of that id, if the ids are plain. -/
theorem wf_of_describeWorkflow {ids : Set RunName} (hids : ∀ q ∈ ids, q.Plain)
    (hn : n.Holds ns ids) {id : String} {r : RunRef} {row : WorkflowExecution}
    (h : ((describeWorkflow ns id "").run.run nodeHandler n).1 = .ok (some (r, row))) :
    r.wf = id := by
  rw [run_describeWorkflow] at h
  cases hrows : n.rows ns id with
  | none =>
    rw [hrows] at h
    cases h
  | some rows =>
    rw [hrows] at h
    have hcurrent : Engine.currentRun rows = some (r, row) := Except.ok.inj h
    obtain ⟨⟨key, body⟩, hmem, hbody⟩ := mem_of_decodeAll hrows (Engine.currentRun_mem hcurrent)
    obtain ⟨hget, s, hkey⟩ := mem_list.mp hmem
    cases body with
    | run w run row' =>
      obtain ⟨rfl, rfl⟩ := Prod.mk.inj (Option.some.inj hbody)
      obtain ⟨p, hp, rfl, rfl, howned⟩ := hn key w run row' hget
      have howner : Owned ns p (rowPrefix ns id ++ s) := by
        rw [← hkey, howned]
        exact .row
      exact howner.wf_eq (hids p hp)
    | _ => cases hbody

def oneRow (ns : String) (p : RunName) (row : WorkflowExecution) (w : World) : Node :=
  { records := ({} : TreeMap String Body).insert (runKey ns p.wf p.run) (.run p.wf p.run row)
    world := w }

/-- The row of a run is found under every text that its ids begin with up to a slash. -/
theorem describeWorkflow_oneRow {p : RunName} {row : WorkflowExecution} {w : World}
    {id s : String} (h : p.wf ++ "/" ++ p.run = id ++ "/" ++ s) :
    ((describeWorkflow ns id "").run.run nodeHandler (oneRow ns p row w)).1 =
      .ok (some (⟨ns, p.wf, p.run⟩, row)) := by
  have hlist : (oneRow ns p row w).list (rowPrefix ns id) =
      [(runKey ns p.wf p.run, .run p.wf p.run row)] := by
    have hfound : (rowPrefix ns id).toList.isPrefixOf (runKey ns p.wf p.run).toList = true := by
      refine isPrefixOf_iff.mpr ⟨s, ?_⟩
      rw [runKey, h, rowPrefix, under_append]
    exact List.filter_cons_of_pos hfound
  rw [run_describeWorkflow, Node.rows, hlist]
  rfl

theorem exists_split {c : Char} {s : String} (h : c ∈ s.toList) :
    ∃ a b : String, s = a ++ String.singleton c ++ b := by
  obtain ⟨a, b, hab⟩ := List.append_of_mem h
  exact ⟨String.ofList a, String.ofList b, String.toList_inj.mp (by simp [hab])⟩

theorem append_slash_ne {a b : String} : a ≠ a ++ "/" ++ b := by
  intro h
  have hlen := congrArg (fun s : String => s.toList.length) h
  simp at hlen

/-- The runs of a namespace own disjoint data just when no id in it holds a slash. -/
theorem disjointRuns_iff (ns : String) (ids : Set RunName) :
    DisjointRuns ns ids ↔ ∀ p ∈ ids, p.Plain := by
  constructor
  · intro h p hp
    have hholds (row : WorkflowExecution) (w : World) : (oneRow ns p row w).Holds ns ids := by
      intro key wf run row' hget
      simp only [oneRow, TreeMap.getElem?_insert, LawfulEqCmp.compare_eq_iff_eq] at hget
      split_ifs at hget with hkey
      · obtain ⟨rfl, rfl, rfl⟩ := Body.run.inj (Option.some.inj hget)
        exact ⟨p, hp, rfl, rfl, hkey.symm⟩
      · simp at hget
    -- A text that the ids begin with up to a slash is the workflow id.
    have hwf (id s : String) (hsplit : p.wf ++ "/" ++ p.run = id ++ "/" ++ s) : p.wf = id :=
      h.current _ (hholds { type := "", startTime := 0, taskQueue := "" } Engine.emptyShard) id _ _
        (describeWorkflow_oneRow hsplit)
    constructor
    · intro hslash
      obtain ⟨a, b, hab⟩ := exists_split hslash
      have heq : p.wf = a := hwf a (b ++ "/" ++ p.run) (by
        simp [hab, slash_eq, String.append_assoc])
      exact append_slash_ne (heq.symm.trans hab)
    · intro hslash
      obtain ⟨a, b, hab⟩ := exists_split hslash
      exact append_slash_ne (hwf (p.wf ++ "/" ++ a) b (by
        simp [hab, slash_eq, String.append_assoc]))
  · intro hids
    exact
      { keys := fun p hp q hq key howned howned' => howned.eq (hids p hp) (hids q hq) howned'
        current := fun n hn id r row hrun => wf_of_describeWorkflow hids hn hrun
        purge := fun n p hp cutoff => (near_purgeWorkflowRun cutoff).meets listed
          (fun n a ha => ha.spares hids hp n) n
        recover := fun n p hp => near_recoverRun.meets listed
          (fun n a ha => ha.spares hids hp n) n }

/-- A shard with a closed run of the workflow `a` and an event of the workflow
`a/r/x`. -/
def nested : Node :=
  { records := ({} : TreeMap String Body)
      |>.insert (runKey "n" "a" "r")
        (.run "a" "r" { type := "T", startTime := 0, taskQueue := "q", status := .completed })
      |>.insert (runKey "n" "a/r/x" "s")
        (.run "a/r/x" "s" { type := "T", startTime := 1, taskQueue := "q" })
      |>.insert (historyKey "n" "a/r/x" "s" 1)
        (.event ⟨1, 1, .workflowStarted "T" "q" .null⟩)
    world := Engine.emptyShard }

/-- A start takes a workflow id with a slash. Its run is then the current run of the
workflow `a`, and the purge of a run of `a` deletes its history. -/
theorem slashed_ids_meet :
    ((Engine.startWorkflowFull { ns := "n", workflowId := "a/r/x", type := "T" }).run.run handler
        Engine.emptyShard).1.toOption.map (·.1.wf) = some "a/r/x" ∧
      ((describeWorkflow "n" "a" "").run.run nodeHandler nested).1.toOption.map
        (Option.map (·.1.wf)) = some (some "a/r/x") ∧
      ((purgeWorkflowRun "n" "a" "r" 10).run.run nodeHandler nested).1.toOption = some true ∧
      (((purgeWorkflowRun "n" "a" "r" 10).run.run nodeHandler nested).2.records[
        historyKey "n" "a/r/x" "s" 1]?).isSome = false := by
  decide +kernel

end DurableTasks.Keyspace
