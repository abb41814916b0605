import DurableTasks.Effects.Embed
import DurableTasks.Standalone.Engine

/-!
The retention purge of a namespace: a walk over its workflow runs and then its
standalone activities, a page per pass, from a cursor that is stored between
passes.
-/

namespace DurableTasks

open Std Effects

namespace Retention

inductive Phase where
  | workflows
  | activities
deriving DecidableEq

abbrev Cursor := Option (Phase × RunRef)

end Retention

open Retention

def ActivityStore.page (s : ActivityStore) (ns : String) (after : Option RunRef) (limit : Nat) :
    List (RunRef × StandaloneActivity) :=
  Listing.page RunRef.cmp (s.rows ns) after limit

/-- A tenant: a shard, and `purge/`, the cursors of its walks. -/
structure Tenant where
  shard : Shard
  cursors : String → Cursor := fun _ => none

namespace Tenant

def store (t : Tenant) : Store := t.shard.world.store

def acts (t : Tenant) : ActivityStore := t.shard.acts

def setShard (t : Tenant) (s : Shard) : Tenant := { t with shard := s }

def setWorld (t : Tenant) (w : World) : Tenant := { t with shard := { t.shard with world := w } }

def setCursor (t : Tenant) (ns : String) (c : Cursor) : Tenant :=
  { t with cursors := Function.update t.cursors ns c }

theorem setCursor_self (t : Tenant) (ns : String) : t.setCursor ns (t.cursors ns) = t := by
  rw [setCursor, Function.update_eq_self]

end Tenant

inductive TenantEffect where
  | workflow (e : Effect)
  | activity (e : ActivityEffect)
  | pageActivities (ns : String) (after : Option RunRef) (limit : Nat)
  | cursor (ns : String)
  | setCursor (ns : String) (c : Cursor)

abbrev TenantEffect.Answer : TenantEffect → Type
  | workflow e => e.Answer
  | activity e => e.Answer
  | pageActivities _ _ _ => Except String (List (RunRef × StandaloneActivity))
  | cursor _ => Except String Cursor
  | setCursor _ _ => Except String Unit

def tenantHandler : Handler TenantEffect TenantEffect.Answer Tenant
  | .workflow e, t => ((handler e t.shard.world).1, t.setWorld (handler e t.shard.world).2)
  | .activity e, t => ((activityHandler e t.shard).1, t.setShard (activityHandler e t.shard).2)
  | .pageActivities ns after limit, t => (.ok (t.acts.page ns after limit), t)
  | .cursor ns, t => (.ok (t.cursors ns), t)
  | .setCursor ns c, t => (.ok (), t.setCursor ns c)

namespace Retention

abbrev Purging (α : Type) := ExceptT String (Program TenantEffect TenantEffect.Answer) α

section Accesses

def onWorkflows {α : Type} (x : Go α) : Purging α :=
  ExceptT.mk (x.run.embed TenantEffect.workflow fun _ r => r)

def onActivities {α : Type} (x : Standalone.Act α) : Purging α :=
  ExceptT.mk (x.run.embed TenantEffect.activity fun _ r => r)

def pageActivities (ns : String) (after : Option RunRef) (limit : Nat) :
    Purging (List (RunRef × StandaloneActivity)) :=
  ExceptT.mk (Program.perform (TenantEffect.pageActivities ns after limit))

def getCursor (ns : String) : Purging Cursor :=
  ExceptT.mk (Program.perform (TenantEffect.cursor ns))

def setCursor (ns : String) (c : Cursor) : Purging Unit :=
  ExceptT.mk (Program.perform (TenantEffect.setCursor ns c))

def attempt {α : Type} (x : Purging α) : Purging (Except String α) := ExceptT.lift x.run

end Accesses

/-- `runRow`: whether a run is closed, and when it was, in seconds. -/
structure RunRow where
  ref : RunRef
  terminal : Bool
  closedAt : Nat

def RunRow.ofWorkflow (p : RunRef × WorkflowExecution) : RunRow :=
  ⟨p.1, p.2.status.isTerminal, Engine.closedAt p.2⟩

def RunRow.ofActivity (p : RunRef × StandaloneActivity) : RunRow :=
  ⟨p.1, p.2.status.isTerminal, Standalone.closedAt p.2⟩

def page (ns : String) (after : Option RunRef) (limit : Nat) : Phase → Purging (List RunRow)
  | .workflows => do return (← onWorkflows (Engine.page ns after limit)).map .ofWorkflow
  | .activities => do return (← pageActivities ns after limit).map .ofActivity

def retentionText (n : Namespace) : String :=
  if n.retention = "" then Engine.defaultRetention else n.retention

/-- `retentionOf`: how long a namespace keeps a closed run, in nanoseconds.
`parse` is `time.ParseDuration`. -/
def retentionOf (parse : String → Option Int) (n : Namespace) : Option Int :=
  (parse (retentionText n)).filter fun keep => 0 < keep

/-- A run or an activity is removed, if it is closed and was at `cutoff`. -/
def purgeRun (cutoff : Int) (r : RunRef) : Phase → Purging Bool
  | .workflows => onWorkflows (Engine.purgeWorkflowRun r (cutoff / Standalone.second).toNat)
  | .activities => onActivities (Standalone.purgeActivityRun r cutoff.toNat)

structure Outcome where
  purged : Nat := 0
  first : Option String := none

/-- One turn of the loop over a page. A run that fails to go is passed over. -/
def purgeRow (cutoff : Int) (phase : Phase) (out : Outcome) (row : RunRow) : Purging Outcome :=
  if row.terminal = false ∨ cutoff < row.closedAt * Standalone.second then return out
  else do
    match ← attempt (purgeRun cutoff row.ref phase) with
    | .ok gone => return { out with purged := out.purged + gone.toNat }
    | .error e =>
      return { out with first := out.first <|> some s!"purge {row.ref.wf}/{row.ref.run}: {e}" }

/-- The loop of a pass over the phases that are left, of which the first is
continued after the key `after`. It returns the cursor. -/
def walk (cutoff : Int) (ns : String) : List Phase → Option RunRef → Nat → Outcome →
    Purging (Cursor × Outcome)
  | [], _, _, out => return (none, out)
  | phase :: later, after, left, out => do
      let rows ← page ns after left phase
      let out ← rows.foldlM (purgeRow cutoff phase) out
      if rows.length < left then walk cutoff ns later none (left - rows.length) out
      else return ((rows.getLast?.map RunRow.ref <|> after).map (Prod.mk phase), out)

def phasesFrom : Cursor → List Phase
  | some (.activities, _) => [.activities]
  | _ => [.workflows, .activities]

/-- `purge`: one pass over at most `limit` rows. The purge of a namespace whose
retention cannot be read fails before it reads anything. -/
def purge (parse : String → Option Int) (ns : String) (n : Namespace) (now : Int) (limit : Nat) :
    Purging Outcome :=
  match retentionOf parse n with
  | none =>
    throw s!"namespace {ns.quote}: retention {(retentionText n).quote} is not a positive duration"
  | some keep => do
      let start ← getCursor ns
      let (cursor, out) ← walk (now - keep) ns (phasesFrom start) (start.map Prod.snd) limit {}
      if cursor = start then return out
      else do
        setCursor ns cursor
        return out

end Retention

end DurableTasks
