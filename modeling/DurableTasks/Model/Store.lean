import DurableTasks.Listing.Pages
import DurableTasks.Model.Types

/-!
The store of one tenant: the keys the workflow core reads and writes, point
access by key, and the listings by prefix. Ids hold no slash, so a key is its
kind and its parts.
-/

namespace DurableTasks

open Std

def RunRef.path (r : RunRef) : List String := [r.ns, r.wf, r.run]

def RunRef.cmp (a b : RunRef) : Ordering := compareOn RunRef.path a b

instance : TransCmp RunRef.cmp := inferInstanceAs (TransCmp (compareOn RunRef.path))

instance : LawfulEqCmp RunRef.cmp where
  compare_self {a} := by
    simp only [RunRef.cmp, compareOn]
    exact ReflCmp.compare_self
  eq_of_compare {a b} h := by
    have hpath : a.path = b.path := LawfulEqCmp.eq_of_compare h
    cases a
    cases b
    simpa [RunRef.path] using hpath

/-- What is stored under one run: `wf/`, `wfh/`, `wfact/` and `wfopen/`. -/
structure RunData where
  row : Option WorkflowExecution := none
  hist : TreeMap Nat HistoryEvent := {}
  acts : TreeMap Int WorkflowActivity := {}
  entry : Option Unit := none

structure Store where
  namespaces : TreeMap String Namespace := {}
  runs : TreeMap RunRef RunData RunRef.cmp := {}
  indexed : TreeMap String Nat := {}
  idem : TreeMap (List String) String := {}
  sctrig : TreeMap (List String) (String × String) := {}

variable {s : Store} {r : RunRef} {row : WorkflowExecution} {after : Option RunRef}

inductive Key where
  | ns (name : String)
  | wf (r : RunRef)
  | wfh (r : RunRef) (id : Nat)
  | wfact (r : RunRef) (seq : Int)
  | wfopen (r : RunRef)
  | wfidx (ns : String)
  | idem (ns wf request : String)
  | sctrig (ns schedule request : String)
deriving DecidableEq

/-- The run a key belongs to. -/
@[simp] def Key.run : Key → Option RunRef
  | .wf r | .wfh r _ | .wfact r _ | .wfopen r => some r
  | _ => none

/-- What is stored under a key. An entry of the open-run index repeats its key,
so there is nothing in it but its presence; `sctrig/` holds the workflow id and
run id a manual trigger started. -/
abbrev Key.Val : Key → Type
  | ns _ => Namespace
  | wf _ => WorkflowExecution
  | wfh _ _ => HistoryEvent
  | wfact _ _ => WorkflowActivity
  | wfopen _ => Unit
  | wfidx _ => Nat
  | idem _ _ _ => String
  | sctrig _ _ _ => String × String

namespace Store

def run (s : Store) (r : RunRef) : RunData := s.runs.getD r {}

def setRun (s : Store) (r : RunRef) (d : RunData) : Store := { s with runs := s.runs.insert r d }

def get (s : Store) : (k : Key) → Option k.Val
  | .ns name => s.namespaces[name]?
  | .wf r => (s.run r).row
  | .wfh r id => (s.run r).hist[id]?
  | .wfact r seq => (s.run r).acts[seq]?
  | .wfopen r => (s.run r).entry
  | .wfidx ns => s.indexed[ns]?
  | .idem ns wf req => s.idem[[ns, wf, req]]?
  | .sctrig ns sid req => s.sctrig[[ns, sid, req]]?

def put (s : Store) : (k : Key) → k.Val → Store
  | .ns name, v => { s with namespaces := s.namespaces.insert name v }
  | .wf r, v => s.setRun r { s.run r with row := some v }
  | .wfh r id, v => s.setRun r { s.run r with hist := (s.run r).hist.insert id v }
  | .wfact r seq, v => s.setRun r { s.run r with acts := (s.run r).acts.insert seq v }
  | .wfopen r, v => s.setRun r { s.run r with entry := some v }
  | .wfidx ns, v => { s with indexed := s.indexed.insert ns v }
  | .idem ns wf req, v => { s with idem := s.idem.insert [ns, wf, req] v }
  | .sctrig ns sid req, v => { s with sctrig := s.sctrig.insert [ns, sid, req] v }

def del (s : Store) : Key → Store
  | .ns name => { s with namespaces := s.namespaces.erase name }
  | .wf r => s.setRun r { s.run r with row := none }
  | .wfh r id => s.setRun r { s.run r with hist := (s.run r).hist.erase id }
  | .wfact r seq => s.setRun r { s.run r with acts := (s.run r).acts.erase seq }
  | .wfopen r => s.setRun r { s.run r with entry := none }
  | .wfidx ns => { s with indexed := s.indexed.erase ns }
  | .idem ns wf req => { s with idem := s.idem.erase [ns, wf, req] }
  | .sctrig ns sid req => { s with sctrig := s.sctrig.erase [ns, sid, req] }

@[simp] theorem get_empty (k : Key) : ({} : Store).get k = none := by
  cases k <;> simp [get, run]

theorem run_setRun (s : Store) (r r' : RunRef) (d : RunData) :
    (s.setRun r d).run r' = if r' = r then d else s.run r' := by
  simp only [run, setRun, TreeMap.getD_insert, LawfulEqCmp.compare_eq_iff_eq]
  by_cases hr : r' = r
  · simp [hr]
  · simp [hr, Ne.symm hr]

@[simp] theorem get_put_self (s : Store) (k : Key) (v : k.Val) : (s.put k v).get k = some v := by
  cases k <;> simp [get, put, run_setRun]

theorem get_put_of_ne (s : Store) {k k' : Key} (v : k.Val) (hk : k' ≠ k) :
    (s.put k v).get k' = s.get k' := by
  cases k <;> cases k' <;>
    first
    | rfl
    | (simp only [get, put, run_setRun, TreeMap.getElem?_insert]
       grind)

@[simp] theorem get_del_self (s : Store) (k : Key) : (s.del k).get k = none := by
  cases k <;> simp [get, del, run_setRun]

theorem get_del_of_ne (s : Store) {k k' : Key} (hk : k' ≠ k) :
    (s.del k).get k' = s.get k' := by
  cases k <;> cases k' <;>
    first
    | rfl
    | (simp only [get, del, run_setRun, TreeMap.getElem?_erase]
       grind)

/-! ## Listings -/

def nsRows (s : Store) (ns : String) : List (RunRef × WorkflowExecution) :=
  s.runs.toList.filterMap fun p => if p.1.ns = ns then p.2.row.map (Prod.mk p.1) else none

def rows (s : Store) (ns wf : String) : List (RunRef × WorkflowExecution) :=
  (s.nsRows ns).filter fun p => p.1.wf = wf

def rowsAfter (s : Store) (ns : String) (after : Option RunRef) :
    List (RunRef × WorkflowExecution) :=
  (s.nsRows ns).filter fun p => after.all fun a => RunRef.cmp a p.1 = .lt

def page (s : Store) (ns : String) (after : Option RunRef) (limit : Nat) :
    List (RunRef × WorkflowExecution) :=
  (s.rowsAfter ns after).take limit

def events (s : Store) (r : RunRef) : List (Nat × HistoryEvent) := (s.run r).hist.toList

def acts (s : Store) (r : RunRef) : List (Int × WorkflowActivity) := (s.run r).acts.toList

def opens (s : Store) (ns : String) : List RunRef :=
  s.runs.toList.filterMap fun p => if p.1.ns = ns ∧ p.2.entry.isSome then some p.1 else none

def names (s : Store) : List String := s.namespaces.toList.map Prod.fst

def requests (s : Store) (ns wf : String) : List (String × String) :=
  s.idem.toList.filterMap fun p =>
    match p.1 with
    | [n, w, req] => if n = ns ∧ w = wf then some (req, p.2) else none
    | _ => none

def triggers (s : Store) (ns sid : String) : List (String × String × String) :=
  s.sctrig.toList.filterMap fun p =>
    match p.1 with
    | [n, i, req] => if n = ns ∧ i = sid then some (req, p.2) else none
    | _ => none

theorem mem_nsRows {ns : String} :
    (r, row) ∈ s.nsRows ns ↔ r.ns = ns ∧ s.get (.wf r) = some row :=
  Listing.mem_filterMap_toList s.runs (RunRef.ns · = ns) RunData.row rfl

theorem pairwise_nsRows (s : Store) (ns : String) :
    (s.nsRows ns).Pairwise fun p q => RunRef.cmp p.1 q.1 = .lt :=
  Listing.sorted_filterMap_toList s.runs (RunRef.ns · = ns) RunData.row

theorem nsRows_congr {s' : Store} (h : ∀ r, s'.get (.wf r) = s.get (.wf r)) (ns : String) :
    s'.nsRows ns = s.nsRows ns := by
  refine Listing.Sorted.eq_of_mem_iff (s'.pairwise_nsRows ns) (s.pairwise_nsRows ns) ?_
  rintro ⟨r, row⟩
  rw [mem_nsRows, mem_nsRows, h r]

def After (after : Option RunRef) (r : RunRef) : Prop :=
  ∀ a, after = some a → RunRef.cmp a r = .lt

theorem mem_rowsAfter {ns : String} :
    (r, row) ∈ s.rowsAfter ns after ↔ (r.ns = ns ∧ s.get (.wf r) = some row) ∧ After after r :=
  Listing.mem_entriesAfter.trans (and_congr_left' mem_nsRows)

theorem mem_page {ns : String} {limit : Nat} (h : (r, row) ∈ s.page ns after limit) :
    r.ns = ns ∧ s.get (.wf r) = some row :=
  (mem_rowsAfter.mp (List.mem_of_mem_take h)).1

theorem mem_page_or {ns : String} {limit : Nat} (h : (r, row) ∈ s.rowsAfter ns after) :
    (r, row) ∈ s.page ns after limit ∨ (s.page ns after limit).length = limit ∧
      ∀ p ∈ s.page ns after limit, RunRef.cmp p.1 r = .lt :=
  Listing.mem_page_or (s.pairwise_nsRows ns) h

theorem length_rowsAfter_page {ns : String} {limit : Nat} {p : RunRef × WorkflowExecution}
    (hlast : (s.page ns after limit).getLast? = some p) :
    (s.rowsAfter ns (some p.1)).length + (s.page ns after limit).length ≤
      (s.rowsAfter ns after).length :=
  Listing.length_entriesAfter_page (s.pairwise_nsRows ns) hlast

theorem mem_rows {ns wf : String} :
    (r, row) ∈ s.rows ns wf ↔ r.ns = ns ∧ r.wf = wf ∧ s.get (.wf r) = some row := by
  simp only [rows, List.mem_filter, mem_nsRows, decide_eq_true_eq]
  tauto

@[simp] theorem mem_events {id : Nat} {ev : HistoryEvent} :
    (id, ev) ∈ s.events r ↔ s.get (.wfh r id) = some ev :=
  TreeMap.mem_toList_iff_getElem?_eq_some

theorem ascending_events (s : Store) (r : RunRef) :
    (s.events r).Pairwise fun p q => p.1 < q.1 := by
  have hkeys := TreeMap.ordered_keys_toList (t := (s.run r).hist)
  simpa [events, Nat.compare_eq_lt] using hkeys

@[simp] theorem mem_acts {seq : Int} {a : WorkflowActivity} :
    (seq, a) ∈ s.acts r ↔ s.get (.wfact r seq) = some a :=
  TreeMap.mem_toList_iff_getElem?_eq_some

theorem opens_eq (s : Store) (ns : String) : s.opens ns = (s.runs.toList.filterMap fun p =>
    if p.1.ns = ns then p.2.entry.map (Prod.mk p.1) else none).map Prod.fst := by
  rw [List.map_filterMap]
  refine List.filterMap_congr fun p _ => ?_
  cases p.2.entry <;> simp

theorem mem_opens {ns : String} : r ∈ s.opens ns ↔ r.ns = ns ∧ s.get (.wfopen r) = some () := by
  rw [opens_eq, List.mem_map]
  refine Iff.trans ⟨?_, fun h => ⟨_, h, rfl⟩⟩
    (Listing.mem_filterMap_toList s.runs (RunRef.ns · = ns) RunData.entry rfl)
  rintro ⟨⟨r, u⟩, hmem, rfl⟩
  exact hmem

theorem nodup_opens (s : Store) (ns : String) : (s.opens ns).Nodup := by
  rw [opens_eq]
  exact (Listing.sorted_filterMap_toList s.runs (RunRef.ns · = ns) RunData.entry).nodup_keys

theorem nodup_acts (s : Store) (r : RunRef) : ((s.acts r).map Prod.fst).Nodup :=
  Listing.Sorted.nodup_keys TreeMap.ordered_keys_toList

theorem nodup_names (s : Store) : s.names.Nodup :=
  Listing.Sorted.nodup_keys TreeMap.ordered_keys_toList

theorem mem_names {ns : String} : ns ∈ s.names ↔ (s.get (.ns ns)).isSome := by
  simp only [names, List.mem_map, get]
  constructor
  · rintro ⟨⟨n, v⟩, hmem, rfl⟩
    simp [TreeMap.mem_toList_iff_getElem?_eq_some.mp hmem]
  · intro h
    obtain ⟨v, hv⟩ := Option.isSome_iff_exists.mp h
    exact ⟨(ns, v), TreeMap.mem_toList_iff_getElem?_eq_some.mpr hv, rfl⟩

end Store

end DurableTasks
