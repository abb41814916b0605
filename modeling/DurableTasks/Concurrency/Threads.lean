import DurableTasks.Effects.Interleave
import DurableTasks.Engine.Specs

/-!
Operations that run at the same time. Every access to the store, the dispatcher
or a timer is one step; the lock of a run excludes other threads only where the
engine takes it.

What an operation knows is a `View`: the rows and records it has read, and what
it is in the middle of. `View.guard` says what an operation does on the ground
of its view; it is all that the results about interleavings use of the engine.
-/

namespace DurableTasks

open Effects Engine

/-! ## The shared world -/

section Shared

variable {I M : Type}

/-- The world of several threads: `locks` says who holds the lock of a run, and
`mon` is a ghost that watches the steps. -/
structure Shared (I M : Type) where
  world : World
  locks : RunRef → Option I
  mon : M

def Shared.waits (s : Shared I M) : Effect → Bool
  | .lock r => (s.locks r).isSome
  | _ => false

def relock (i : I) (locks : RunRef → Option I) : Effect → RunRef → Option I
  | .lock r => Function.update locks r (some i)
  | .unlock r => Function.update locks r none
  | _ => locks

def Shared.after (observe : I → Effect → World → M → M) (i : I) (e : Effect) (s : Shared I M) :
    Shared I M where
  world := (handler e s.world).2
  locks := relock i s.locks e
  mon := observe i e s.world s.mon

def access (observe : I → Effect → World → M → M) : Act I Effect Effect.Answer (Shared I M) :=
  fun i e s => if s.waits e then none else some ((handler e s.world).1, s.after observe i e)

theorem access_eq_some {observe : I → Effect → World → M → M} {i : I} {e : Effect}
    {s s' : Shared I M}
    {a : e.Answer} (h : access observe i e s = some (a, s')) :
    s.waits e = false ∧ a = (handler e s.world).1 ∧ s' = s.after observe i e := by
  unfold access at h
  split_ifs at h with hwait
  obtain ⟨rfl, rfl⟩ := Prod.mk.inj (Option.some.inj h)
  exact ⟨by simpa using hwait, rfl, rfl⟩

def together (fuel : Nat) (w : World) (mon : M) (ops : I → Operation) :
    Pool I Effect Effect.Answer (Shared I M) :=
  ⟨⟨w, fun _ => none, mon⟩, fun i => program fuel (ops i)⟩

end Shared

/-- A shard with the run `n/wf/r`, whose first workflow task is handed out under
the token `0`. -/
def startedShard : World :=
  (system 1).turns [.whole startRun, .whole (.subscribe "n" "default")] emptyShard

theorem Store.run_of_single {s : Store} {ref r : RunRef}
    (hrefs : s.runs.toList.map Prod.fst = [ref]) (h : r ≠ ref) : s.run r = {} := by
  rw [Store.run, Std.TreeMap.getD_eq_getD_getElem?]
  cases hd : s.runs[r]? with
  | none => rfl
  | some d =>
    have hmem := List.mem_map_of_mem (f := Prod.fst)
      (Std.TreeMap.mem_toList_iff_getElem?_eq_some.mpr hd)
    rw [hrefs, List.mem_singleton] at hmem
    exact absurd hmem h

theorem Store.row_of_single {s : Store} {ref r : RunRef} {row : WorkflowExecution}
    (hrefs : s.runs.toList.map Prod.fst = [ref]) (h : s.get (.wf r) = some row) : r = ref := by
  by_contra hne
  rw [Store.get, Store.run_of_single hrefs hne] at h
  cases h

theorem startedShard_runs :
    startedShard.store.runs.toList.map Prod.fst = [⟨"n", "wf", "r"⟩] := by
  decide +kernel

theorem handler_write_get {x : Write} {k : Key} (hk : x.key ≠ some k) (w : World) :
    (handler (.write x) w).2.store.get k = w.store.get k :=
  Store.get_apply_of_ne _ hk

/-- A row is put: other rows stay, and so do index entries and events. -/
theorem Store.get_of_put_row {s s' : Store} {r : RunRef} {row : WorkflowExecution}
    (h : s' = s.put (.wf r) row) :
    s'.get (.wf r) = some row ∧ (∀ r', r' ≠ r → s'.get (.wf r') = s.get (.wf r')) ∧
      (∀ r', s'.get (.wfopen r') = s.get (.wfopen r')) ∧
      ∀ r' id, s'.get (.wfh r' id) = s.get (.wfh r' id) := by
  subst h
  exact ⟨s.get_put_self _ _, fun _ hr => s.get_put_of_ne _ (by simpa using hr),
    fun _ => s.get_put_of_ne _ (by simp), fun _ _ => s.get_put_of_ne _ (by simp)⟩

/-! ## Answers -/

def Query.Lists : (q : Query) → List q.Row → Prop
  | .rows ns wf, l => (∀ p ∈ l, p.1.ns = ns ∧ p.1.wf = wf) ∧ ∀ p ∈ l, l.lookup p.1 = some p.2
  | .acts _, l => (l.map Prod.fst).Nodup ∧ ∀ p ∈ l, l.lookup p.1 = some p.2
  | _, _ => True

/-- The answers the accesses give when the store does not fail. -/
def Effect.Sound : (e : Effect) → e.Answer → Prop
  | .get _, a => ∃ o, a = .ok o
  | .write _, a => a = .ok ()
  | .list q, a => ∃ l, a = .ok l ∧ q.Lists l
  | _, _ => True

theorem Store.nodup_rows (s : Store) (ns wf : String) : ((s.rows ns wf).map Prod.fst).Nodup := by
  have hsorted : Listing.Sorted RunRef.cmp (s.rows ns wf) := (s.pairwise_nsRows ns).filter _
  exact hsorted.nodup_keys

theorem Store.lookup_rows (s : Store) (r : RunRef) :
    (s.rows r.ns r.wf).lookup r = s.get (.wf r) := by
  refine Listing.lookup_eq (s.nodup_rows r.ns r.wf) fun row => ?_
  rw [Store.mem_rows]
  exact ⟨fun h => h.2.2, fun h => ⟨rfl, rfl, h⟩⟩

theorem Store.lookup_acts (s : Store) (r : RunRef) (seq : Int) :
    (s.acts r).lookup seq = s.get (.wfact r seq) :=
  Listing.lookup_eq (s.nodup_acts r) fun _ => Store.mem_acts

theorem Store.lists (s : Store) (q : Query) : q.Lists (s.list q) := by
  cases q with
  | rows ns wf =>
    refine ⟨fun p hp => ?_, fun p hp => Listing.lookup_of_nodup (s.nodup_rows ns wf) hp⟩
    obtain ⟨hns, hwf, -⟩ := Store.mem_rows.mp hp
    exact ⟨hns, hwf⟩
  | acts r => exact ⟨s.nodup_acts r, fun p hp => Listing.lookup_of_nodup (s.nodup_acts r) hp⟩
  | _ => trivial

theorem handler_sound (e : Effect) (w : World) : e.Sound (handler e w).1 := by
  cases e with
  | get k => exact ⟨_, rfl⟩
  | write x => rfl
  | list q => exact ⟨_, rfl, w.store.lists q⟩
  | _ => trivial

end DurableTasks
