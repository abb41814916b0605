import DurableTasks.Effects.Fallible
import Std.Data.TreeMap.Lemmas

/-!
Deployments and their versions: the records, the keys they are stored under, and
what callers do to them, over a store any access of which may fail.
-/

namespace DurableTasks

open Std Effects

inductive DeploymentState where
  | draft
  | current
  | ramping
  | retired
deriving DecidableEq

structure DeploymentVersion where
  buildId : String
  state : DeploymentState
  description : String := ""
  compute : String := ""
  image : String := ""
  env : List (String × String) := []
  createTime : Nat
  updateTime : Option Nat := none

structure Deployment where
  name : String
  ns : String
  description : String := ""
  ownerEmail : String := ""
  defaultCompute : String := ""
  versions : List DeploymentVersion := []
  defaultBuildId : String := ""
  createTime : Nat
  updateTime : Option Nat := none

structure DeploymentPatch where
  description : Option String := none
  ownerEmail : Option String := none
  defaultCompute : Option String := none

structure DeploymentVersionPatch where
  description : Option String := none
  compute : Option String := none
  image : Option String := none
  env : Option (List (String × String)) := none

def DeploymentVersionPatch.apply (p : DeploymentVersionPatch) (t : Nat) (v : DeploymentVersion) :
    DeploymentVersion :=
  { v with
    description := p.description.getD v.description
    compute := p.compute.getD v.compute
    image := p.image.getD v.image
    env := p.env.getD v.env
    updateTime := some t }

/-- The rows `dp/<ns>/<name>` of a tenant, and how many accesses were made to
them. -/
structure DeploymentStore where
  rows : TreeMap String Deployment := {}
  accesses : Nat := 0
  clock : Nat → Nat
  ticks : Nat := 0

inductive DeploymentEffect where
  | get (key : String)
  | put (key : String) (d : Deployment)
  | del (key : String)
  | now

abbrev DeploymentEffect.Answer : DeploymentEffect → Type
  | get _ => Except String (Option Deployment)
  | put _ _ => Except String Unit
  | del _ => Except String Unit
  | now => Nat

/-- The accesses of a store, the `n`-th of which fails with the error `fails n`
if there is one and then changes nothing. -/
def deploymentHandler (fails : Nat → Option String) :
    Handler DeploymentEffect DeploymentEffect.Answer DeploymentStore
  | .get key, s =>
    (match fails s.accesses with
      | some err => .error err
      | none => .ok s.rows[key]?,
      { s with accesses := s.accesses + 1 })
  | .put key d, s =>
    match fails s.accesses with
    | some err => (.error err, { s with accesses := s.accesses + 1 })
    | none => (.ok (), { s with rows := s.rows.insert key d, accesses := s.accesses + 1 })
  | .del key, s =>
    match fails s.accesses with
    | some err => (.error err, { s with accesses := s.accesses + 1 })
    | none => (.ok (), { s with rows := s.rows.erase key, accesses := s.accesses + 1 })
  | .now, s => (s.clock s.ticks, { s with ticks := s.ticks + 1 })

namespace Deployments

abbrev Deploying (α : Type) :=
  ExceptT String (Program DeploymentEffect DeploymentEffect.Answer) α

section Accesses

def get (key : String) : Deploying (Option Deployment) :=
  ExceptT.mk (Program.perform (DeploymentEffect.get key))

def put (key : String) (d : Deployment) : Deploying Unit :=
  ExceptT.mk (Program.perform (DeploymentEffect.put key d))

def del (key : String) : Deploying Unit :=
  ExceptT.mk (Program.perform (DeploymentEffect.del key))

def now : Deploying Nat := ExceptT.lift (Program.perform DeploymentEffect.now)

/-- Run `x` and hand its error to the caller instead of returning it. -/
def attempt {α : Type} (x : Deploying α) : Deploying (Except String α) := ExceptT.lift x.run

def drop {α : Type} (x : Deploying α) : Deploying Unit := x >>= fun _ => pure ()

end Accesses

def key (ns name : String) : String := s!"dp/{ns}/{name}"

/-- The row under a key. Where it cannot be read it is not found: `ok` is looked
at before `err`. -/
def found (ns name : String) : Deploying Deployment := do
  match ← attempt (get (key ns name)) with
  | .ok (some d) => pure d
  | _ => throw "deployment not found"

/-- `CreateDeployment`. A failed read is taken for an absent row. -/
def createDeployment (ns name description ownerEmail defaultCompute : String) :
    Deploying Deployment := do
  if name = "" then throw "name required"
  if let .ok (some _) ← attempt (get (key ns name)) then
    throw s!"deployment {name.quote} already exists"
  let d : Deployment :=
    { name, ns, description, ownerEmail, defaultCompute, createTime := ← now }
  put (key ns name) d
  return d

def updateDeployment (ns name : String) (p : DeploymentPatch) : Deploying Deployment := do
  let d ← found ns name
  let d := { d with
    description := p.description.getD d.description
    ownerEmail := p.ownerEmail.getD d.ownerEmail
    defaultCompute := p.defaultCompute.getD d.defaultCompute
    updateTime := some (← now) }
  put (key ns name) d
  return d

def deleteDeployment (ns name : String) (force : Bool) : Deploying Unit := do
  let d ← found ns name
  if !force && 0 < d.versions.length then
    throw s!"deployment has {d.versions.length} versions; use force=true to delete"
  del (key ns name)

/-- `CreateVersion`. The first version becomes the default. -/
def createVersion (ns name buildId description compute image : String)
    (env : List (String × String)) : Deploying DeploymentVersion := do
  if buildId = "" then throw "buildId required"
  let d ← found ns name
  if d.versions.any (·.buildId = buildId) then
    throw s!"buildId {buildId.quote} already exists"
  let first := d.defaultBuildId = ""
  let v : DeploymentVersion :=
    { buildId, state := if first then .current else .draft, description, compute, image, env,
      createTime := ← now }
  let d := { d with
    defaultBuildId := if first then buildId else d.defaultBuildId
    versions := d.versions ++ [v]
    updateTime := some (← now) }
  put (key ns name) d
  return v

/-- The loop of `UpdateVersion`, which ends at the first version with the build
id. -/
def patchFirst (buildId : String) (f : DeploymentVersion → DeploymentVersion) :
    List DeploymentVersion → List DeploymentVersion
  | [] => []
  | v :: vs => if v.buildId = buildId then f v :: vs else v :: patchFirst buildId f vs

def updateVersion (ns name buildId : String) (p : DeploymentVersionPatch) :
    Deploying DeploymentVersion := do
  let d ← found ns name
  match d.versions.find? (·.buildId = buildId) with
  | none => throw s!"buildId {buildId.quote} not found"
  | some v =>
    let t ← now
    put (key ns name)
      { d with versions := patchFirst buildId (p.apply t) d.versions, updateTime := some t }
    return p.apply t v

def flip (buildId : String) (v : DeploymentVersion) : DeploymentVersion :=
  if v.buildId = buildId then { v with state := .current }
  else if v.state = .current then { v with state := .retired }
  else v

def setCurrentDeploymentVersion (ns name buildId : String) : Deploying Deployment := do
  if buildId = "" then throw "buildId required"
  let d ← found ns name
  if d.defaultBuildId = buildId then return d
  if !d.versions.any (·.buildId = buildId) then
    throw s!"buildId {buildId.quote} not in deployment"
  let d := { d with
    versions := d.versions.map (flip buildId)
    defaultBuildId := buildId
    updateTime := some (← now) }
  put (key ns name) d
  return d

def deleteDeploymentVersion (ns name buildId : String) : Deploying Deployment := do
  let d ← found ns name
  if d.defaultBuildId = buildId then
    throw "cannot delete current buildId; set-current to another first"
  if !d.versions.any (·.buildId = buildId) then
    throw s!"buildId {buildId.quote} not found"
  let d := { d with
    versions := d.versions.filter fun v => v.buildId ≠ buildId
    updateTime := some (← now) }
  put (key ns name) d
  return d

inductive Operation where
  | create (ns name description ownerEmail defaultCompute : String)
  | update (ns name : String) (p : DeploymentPatch)
  | delete (ns name : String) (force : Bool)
  | createVersion (ns name buildId description compute image : String)
      (env : List (String × String))
  | updateVersion (ns name buildId : String) (p : DeploymentVersionPatch)
  | setCurrent (ns name buildId : String)
  | deleteVersion (ns name buildId : String)

def Operation.program : Operation → Deploying Unit
  | .create ns name description ownerEmail defaultCompute =>
    drop (createDeployment ns name description ownerEmail defaultCompute)
  | .update ns name p => drop (updateDeployment ns name p)
  | .delete ns name force => deleteDeployment ns name force
  | .createVersion ns name buildId description compute image env =>
    drop (Deployments.createVersion ns name buildId description compute image env)
  | .updateVersion ns name buildId p => drop (Deployments.updateVersion ns name buildId p)
  | .setCurrent ns name buildId => drop (setCurrentDeploymentVersion ns name buildId)
  | .deleteVersion ns name buildId => drop (deleteDeploymentVersion ns name buildId)

def runAll (fails : Nat → Option String) : List Operation → DeploymentStore → DeploymentStore
  | [], s => s
  | o :: os, s => runAll fails os (o.program.run.run (deploymentHandler fails) s).2

end Deployments

end DurableTasks
