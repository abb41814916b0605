import DurableTasks.Deployments.Basic
import Mathlib.Data.List.Nodup

/-!
The versions of a deployment stay consistent with its default build, whatever is
called and wherever the store fails.
-/

namespace DurableTasks

open Std Effects Deployments

/-- The build ids are distinct, there is a default exactly when there are
versions, and the default is one of the versions and the only current one. -/
structure Deployment.Consistent (d : Deployment) : Prop where
  distinct : (d.versions.map (·.buildId)).Nodup
  defaulted : d.defaultBuildId ≠ "" ↔ d.versions ≠ []
  present : d.versions ≠ [] → ∃ v ∈ d.versions, v.buildId = d.defaultBuildId
  current : ∀ v ∈ d.versions, v.state = .current ↔ v.buildId = d.defaultBuildId

def DeploymentStore.Consistent (s : DeploymentStore) : Prop :=
  ∀ (key : String) (d : Deployment), s.rows[key]? = some d → d.Consistent

/-! ## One deployment -/

namespace Deployment.Consistent

variable {d : Deployment} {buildId : String} {t : Option Nat}

theorem of_new (hversions : d.versions = []) (hdefault : d.defaultBuildId = "") :
    d.Consistent := by
  constructor <;> simp [hversions, hdefault]

theorem first (hversions : d.versions = []) {v : DeploymentVersion} (hne : v.buildId ≠ "")
    (hstate : v.state = .current) :
    Deployment.Consistent { d with
      defaultBuildId := v.buildId, versions := d.versions ++ [v], updateTime := t } := by
  constructor <;> simp [hversions, hne, hstate]

theorem draft (hd : d.Consistent) (hdefault : d.defaultBuildId ≠ "") {v : DeploymentVersion}
    (hnew : ∀ u ∈ d.versions, u.buildId ≠ v.buildId) (hstate : v.state = .draft) :
    Deployment.Consistent { d with versions := d.versions ++ [v], updateTime := t } := by
  obtain ⟨u, hu, hu'⟩ := hd.present (hd.defaulted.mp hdefault)
  refine ⟨?_, by simp [hdefault], fun _ => ⟨u, by simp [hu], hu'⟩, fun u' hmem => ?_⟩
  · rw [List.map_append, List.nodup_append]
    refine ⟨hd.distinct, by simp, ?_⟩
    simpa using hnew
  · grind [hd.current]

/-- Versions may change in all but their build ids and states. -/
theorem of_keeps {versions : List DeploymentVersion} (hd : d.Consistent)
    (hkeeps : versions.map (fun v => (v.buildId, v.state)) =
      d.versions.map fun v => (v.buildId, v.state)) :
    Deployment.Consistent { d with versions, updateTime := t } := by
  have hids : versions.map (·.buildId) = d.versions.map (·.buildId) := by
    simpa [Function.comp_def] using congrArg (List.map Prod.fst) hkeeps
  have hnil : versions = [] ↔ d.versions = [] := by
    rw [← List.map_eq_nil_iff, hkeeps, List.map_eq_nil_iff]
  -- a version on one side has one with its build id and state on the other
  have hmem : ∀ {l l' : List DeploymentVersion} {v}, v ∈ l →
      l.map (fun v => (v.buildId, v.state)) = l'.map (fun v => (v.buildId, v.state)) →
      ∃ u ∈ l', u.buildId = v.buildId ∧ u.state = v.state := by
    intro l l' v hv heq
    have hpair : (v.buildId, v.state) ∈ l'.map fun v => (v.buildId, v.state) := by
      rw [← heq]
      exact List.mem_map_of_mem hv
    obtain ⟨u, hu, hpair⟩ := List.mem_map.mp hpair
    exact ⟨u, hu, (Prod.mk.inj hpair).1, (Prod.mk.inj hpair).2⟩
  refine ⟨hids ▸ hd.distinct, ?_, fun hsome => ?_, fun v hv => ?_⟩
  · rw [Ne.eq_def versions, hnil]
    exact hd.defaulted
  · obtain ⟨u, hu, hdefault⟩ := hd.present (mt hnil.mpr hsome)
    obtain ⟨v, hv, hid, -⟩ := hmem hu hkeeps.symm
    exact ⟨v, hv, hid.trans hdefault⟩
  · obtain ⟨u, hu, hid, hstate⟩ := hmem hv hkeeps
    rw [← hid, ← hstate]
    exact hd.current u hu

theorem flip (hd : d.Consistent) (hne : buildId ≠ "")
    (hsome : ∃ v ∈ d.versions, v.buildId = buildId) :
    Deployment.Consistent { d with
      versions := d.versions.map (Deployments.flip buildId)
      defaultBuildId := buildId, updateTime := t } := by
  have hid : ∀ v, (Deployments.flip buildId v).buildId = v.buildId := by
    intro v
    unfold Deployments.flip
    split_ifs <;> rfl
  have hcurrent : ∀ v, (Deployments.flip buildId v).state = .current ↔ v.buildId = buildId := by
    intro v
    unfold Deployments.flip
    split_ifs <;> simp_all
  obtain ⟨v, hv, hbuild⟩ := hsome
  refine ⟨?_, ?_, fun _ => ⟨_, List.mem_map_of_mem hv, (hid v).trans hbuild⟩, fun u hu => ?_⟩
  · rw [List.map_map]
    simpa [Function.comp_def, hid] using hd.distinct
  · simp [hne, List.ne_nil_of_mem hv]
  · obtain ⟨u, -, rfl⟩ := List.mem_map.mp hu
    rw [hcurrent, hid]

theorem drop (hd : d.Consistent) (hne : d.defaultBuildId ≠ buildId) :
    Deployment.Consistent { d with
      versions := d.versions.filter fun v => v.buildId ≠ buildId, updateTime := t } := by
  have hstays : d.versions ≠ [] →
      ∃ v ∈ d.versions.filter (fun v => v.buildId ≠ buildId), v.buildId = d.defaultBuildId := by
    intro hsome
    obtain ⟨v, hv, hdefault⟩ := hd.present hsome
    exact ⟨v, List.mem_filter.mpr ⟨hv, by simpa [hdefault] using hne⟩, hdefault⟩
  refine ⟨hd.distinct.sublist (List.filter_sublist.map _), ⟨fun hdefault => ?_, fun hleft => ?_⟩,
    fun hleft => ?_, fun v hv => hd.current v (List.mem_of_mem_filter hv)⟩
  · obtain ⟨v, hv, -⟩ := hstays (hd.defaulted.mp hdefault)
    exact List.ne_nil_of_mem hv
  · refine hd.defaulted.mpr ?_
    rintro hnil
    simp [hnil] at hleft
  · refine hstays ?_
    rintro hnil
    simp [hnil] at hleft

end Deployment.Consistent

theorem patchFirst_keeps {buildId : String} {f : DeploymentVersion → DeploymentVersion}
    (hf : ∀ v, (f v).buildId = v.buildId ∧ (f v).state = v.state) (vs : List DeploymentVersion) :
    (patchFirst buildId f vs).map (fun v => (v.buildId, v.state)) =
      vs.map fun v => (v.buildId, v.state) := by
  induction vs with
  | nil => rfl
  | cons v vs ih =>
    unfold patchFirst
    split_ifs
    · simp [hf v]
    · simp [ih]

/-! ## The calls -/

namespace Deployments

def Trusted : (e : DeploymentEffect) → e.Answer → Prop
  | .get _, .ok (some d) => d.Consistent
  | _, _ => True

def Stores : DeploymentEffect → Prop
  | .put _ d => d.Consistent
  | _ => True

/-- Called on a consistent store, `x` keeps it so. -/
abbrev Careful {α : Type} (Q : α → Prop) (x : Deploying α) : Prop := GivenOf Trusted Stores Q x

theorem careful_put {key : String} {d : Deployment} (hd : d.Consistent) :
    Careful (fun _ => True) (put key d) :=
  ⟨hd, fun _ _ _ _ => trivial⟩

/-- The last steps of a call that stores a deployment. -/
theorem careful_store {α : Type} {key : String} {d : Deployment} (hd : d.Consistent) (a : α) :
    Careful (fun _ => True) (do put key d; return a) :=
  (careful_put hd).bind fun _ _ => .pure trivial

theorem careful_del (key : String) : Careful (fun _ => True) (del key) :=
  ⟨trivial, fun _ _ _ _ => trivial⟩

theorem careful_now : Careful (fun _ => True) now :=
  ⟨trivial, fun _ _ _ _ => trivial⟩

theorem careful_found (ns name : String) : Careful Deployment.Consistent (found ns name) := by
  refine ⟨trivial, fun r hr => ?_⟩
  rcases r with err | ⟨_ | d⟩
  · exact GivenOf.throw _
  · exact GivenOf.throw _
  · exact GivenOf.pure hr

theorem careful_createDeployment (ns name description ownerEmail defaultCompute : String) :
    Careful (fun _ => True)
      (createDeployment ns name description ownerEmail defaultCompute) := by
  have hstore : Careful (fun _ => True) (do
      let d : Deployment :=
        { name, ns, description, ownerEmail, defaultCompute, createTime := ← now }
      put (key ns name) d
      return d) :=
    careful_now.bind fun _ _ => careful_store (.of_new rfl rfl) _
  unfold createDeployment
  split_ifs
  · exact .throw _
  · refine ⟨trivial, fun r _ => ?_⟩
    rcases r with err | ⟨_ | d⟩
    · exact hstore
    · exact hstore
    · exact GivenOf.throw _

theorem careful_updateDeployment (ns name : String) (p : DeploymentPatch) :
    Careful (fun _ => True) (updateDeployment ns name p) := by
  refine (careful_found ns name).bind fun d hd => careful_now.bind fun _ _ => ?_
  refine careful_store ?_ _
  exact ⟨hd.distinct, hd.defaulted, hd.present, hd.current⟩

theorem careful_deleteDeployment (ns name : String) (force : Bool) :
    Careful (fun _ => True) (deleteDeployment ns name force) := by
  refine (careful_found ns name).bind fun d _ => ?_
  split_ifs
  · exact .throw _
  · exact careful_del _

theorem careful_createVersion (ns name buildId description compute image : String)
    (env : List (String × String)) :
    Careful (fun _ => True) (createVersion ns name buildId description compute image env) := by
  unfold createVersion
  split_ifs with hempty
  · exact .throw _
  · refine (careful_found ns name).bind fun d hd => ?_
    split_ifs with hexists
    · exact .throw _
    · refine careful_now.bind fun _ _ => careful_now.bind fun _ _ => ?_
      refine careful_store ?_ _
      have hnew : ∀ u ∈ d.versions, u.buildId ≠ buildId := by simpa using hexists
      by_cases hfirst : d.defaultBuildId = ""
      · have hnone : d.versions = [] := by
          by_contra hsome
          exact hd.defaulted.mpr hsome hfirst
        simpa [hfirst] using Deployment.Consistent.first hnone hempty rfl
      · simpa [hfirst] using hd.draft hfirst hnew rfl

theorem careful_updateVersion (ns name buildId : String) (p : DeploymentVersionPatch) :
    Careful (fun _ => True) (updateVersion ns name buildId p) := by
  refine (careful_found ns name).bind fun d hd => ?_
  cases d.versions.find? (·.buildId = buildId) with
  | none => exact .throw _
  | some v =>
    refine careful_now.bind fun t _ => careful_store (hd.of_keeps ?_) _
    exact patchFirst_keeps (f := p.apply t) (fun _ => ⟨rfl, rfl⟩) d.versions

theorem careful_setCurrentDeploymentVersion (ns name buildId : String) :
    Careful (fun _ => True) (setCurrentDeploymentVersion ns name buildId) := by
  unfold setCurrentDeploymentVersion
  split_ifs with hempty
  · exact .throw _
  · refine (careful_found ns name).bind fun d hd => ?_
    split_ifs with hdefault hmissing
    · exact .pure trivial
    · exact .throw _
    · refine careful_now.bind fun _ _ => careful_store (hd.flip hempty ?_) _
      simpa using hmissing

theorem careful_deleteDeploymentVersion (ns name buildId : String) :
    Careful (fun _ => True) (deleteDeploymentVersion ns name buildId) := by
  refine (careful_found ns name).bind fun d hd => ?_
  by_cases hdefault : d.defaultBuildId = buildId
  · rw [if_pos hdefault]
    exact .throw _
  · rw [if_neg hdefault]
    split_ifs
    · exact .throw _
    · exact careful_now.bind fun _ _ => careful_store (hd.drop hdefault) _

theorem careful_drop {α : Type} {x : Deploying α} (hx : Careful (fun _ => True) x) :
    Careful (fun _ => True) (drop x) :=
  hx.bind fun _ _ => .pure trivial

theorem Operation.careful (o : Operation) : Careful (fun _ => True) o.program := by
  cases o with
  | create ns name description ownerEmail defaultCompute =>
    exact careful_drop (careful_createDeployment ns name description ownerEmail defaultCompute)
  | update ns name p => exact careful_drop (careful_updateDeployment ns name p)
  | delete ns name force => exact careful_deleteDeployment ns name force
  | createVersion ns name buildId description compute image env =>
    exact careful_drop (careful_createVersion ns name buildId description compute image env)
  | updateVersion ns name buildId p =>
    exact careful_drop (careful_updateVersion ns name buildId p)
  | setCurrent ns name buildId =>
    exact careful_drop (careful_setCurrentDeploymentVersion ns name buildId)
  | deleteVersion ns name buildId =>
    exact careful_drop (careful_deleteDeploymentVersion ns name buildId)

end Deployments

/-! ## Every sequence of calls -/

namespace DeploymentStore.Consistent

variable {fails : Nat → Option String} {s : DeploymentStore}

theorem trusted (hs : s.Consistent) (e : DeploymentEffect) :
    Trusted e (deploymentHandler fails e s).1 := by
  cases e with
  | get key =>
    cases hfails : fails s.accesses with
    | some err => simp [deploymentHandler, hfails, Trusted]
    | none =>
      cases hrow : s.rows[key]? with
      | none => simp [deploymentHandler, hfails, hrow, Trusted]
      | some d => simpa [deploymentHandler, hfails, hrow, Trusted] using hs key d hrow
  | _ => trivial

theorem effect (hs : s.Consistent) {e : DeploymentEffect} (he : Stores e) :
    (deploymentHandler fails e s).2.Consistent := by
  cases e with
  | get key => exact hs
  | now => exact hs
  | put key d =>
    cases hfails : fails s.accesses with
    | some err =>
      simp only [deploymentHandler, hfails]
      exact hs
    | none =>
      intro key' d' hrow
      simp only [deploymentHandler, hfails, TreeMap.getElem?_insert] at hrow
      split at hrow
      · obtain rfl := Option.some.inj hrow
        exact he
      · exact hs key' d' hrow
  | del key =>
    cases hfails : fails s.accesses with
    | some err =>
      simp only [deploymentHandler, hfails]
      exact hs
    | none =>
      intro key' d' hrow
      simp only [deploymentHandler, hfails, TreeMap.getElem?_erase] at hrow
      split at hrow
      · cases hrow
      · exact hs key' d' hrow

theorem call (hs : s.Consistent) (o : Operation) :
    (o.program.run.run (deploymentHandler fails) s).2.Consistent :=
  Program.Given.run (I := DeploymentStore.Consistent) (fun e _ hs => hs.trusted e)
    (fun _ _ he hs => hs.effect he) o.careful hs

theorem runAll (os : List Operation) (hs : s.Consistent) :
    (Deployments.runAll fails os s).Consistent := by
  induction os generalizing s with
  | nil => exact hs
  | cons o os ih => exact ih (hs.call o)

end DeploymentStore.Consistent

/-- After every sequence of calls, refused ones and ones on which the store
failed among them, every stored deployment is consistent. -/
theorem deployments_stay_consistent (fails : Nat → Option String) (clock : Nat → Nat)
    (os : List Operation) : (runAll fails os { clock }).Consistent := by
  refine DeploymentStore.Consistent.runAll os fun key d hrow => ?_
  simp at hrow

end DurableTasks
