import DurableTasks.Engine.Starts
import DurableTasks.Retention.Exact

/-!
Namespaces that are registered again. A registration writes the whole row, with
the default in each field its caller left empty, and the purge goes by the
retention of that row.
-/

namespace DurableTasks

open Effects Engine

/-! ## The configuration of a namespace -/

structure NamespaceConfig where
  state : String := ""
  createTime : Option Nat := none
  retention : String := ""
  apsLimit : Int := 0
  historyArchivalState : String := ""
  historyArchivalUri : String := ""
  visibilityArchivalState : String := ""
  visibilityArchivalUri : String := ""
deriving DecidableEq

def Namespace.config (n : Namespace) : NamespaceConfig :=
  { state := n.state, createTime := n.createTime, retention := n.retention
    apsLimit := n.apsLimit, historyArchivalState := n.historyArchivalState
    historyArchivalUri := n.historyArchivalUri
    visibilityArchivalState := n.visibilityArchivalState
    visibilityArchivalUri := n.visibilityArchivalUri }

/-- The configuration a registration at the time `t` gives where it names
none. -/
def NamespaceConfig.default (t : Nat) : NamespaceConfig :=
  { state := "NAMESPACE_STATE_REGISTERED", createTime := some t
    retention := defaultRetention, apsLimit := 400 }

theorem config_registeredRow {n : Namespace} (hn : n.config = {}) (t : Nat) :
    (registeredRow n t).config = .default t := by
  simp only [Namespace.config, NamespaceConfig.mk.injEq] at hn
  obtain ⟨hstate, htime, hretention, haps, h1, h2, h3, h4⟩ := hn
  simp [Namespace.config, NamespaceConfig.default, registeredRow, hstate, htime, hretention, haps,
    h1, h2, h3, h4]

/-! ## Registrations -/

namespace Engine

/-- A request to register a namespace: the nested form of the row, and the flat
one of the SDK client. -/
structure RegisterRequest where
  nestedName : String := ""
  nested : Namespace := {}
  name : String := ""
  description : String := ""
  ownerEmail : String := ""

def opRegisterNamespace (req : RegisterRequest) : Go Unit :=
  if req.nestedName = "" then
    registerNamespace req.name
      { req.nested with description := req.description, ownerEmail := req.ownerEmail }
  else registerNamespace req.nestedName req.nested

structure NamespaceMetadataPatch where
  description : Option String := none
  ownerEmail : Option String := none
  retention : Option String := none
  historyArchivalState : Option String := none
  historyArchivalUri : Option String := none
  visibilityArchivalState : Option String := none
  visibilityArchivalUri : Option String := none
  customData : Option (List (String × String)) := none

def NamespaceMetadataPatch.apply (p : NamespaceMetadataPatch) (n : Namespace) : Namespace :=
  { n with
    description := p.description.getD n.description
    ownerEmail := p.ownerEmail.getD n.ownerEmail
    retention := p.retention.getD n.retention
    historyArchivalState := p.historyArchivalState.getD n.historyArchivalState
    historyArchivalUri := p.historyArchivalUri.getD n.historyArchivalUri
    visibilityArchivalState := p.visibilityArchivalState.getD n.visibilityArchivalState
    visibilityArchivalUri := p.visibilityArchivalUri.getD n.visibilityArchivalUri
    customData := p.customData <|> n.customData }

def updateNamespaceMetadata (name : String) (p : NamespaceMetadataPatch) : Go Namespace := do
  match ← describeNamespace name with
  | none => throw s!"namespace {name.quote} not registered"
  | some n =>
    put (.ns name) (p.apply n)
    return p.apply n

/-- Who registers a namespace: its host at boot, an SDK client, or an operation
that needs it. -/
inductive Registration where
  | boot (n : Namespace)
  | sdk (req : RegisterRequest)
  | use

namespace Registration

def program (name : String) : Registration → Program Effect Effect.Answer Unit
  | boot n => drop (registerNamespace name n)
  | sdk req => drop (opRegisterNamespace req)
  | use => drop (namespaceOf name)

/-- A registration of the namespace `name` that leaves its configuration
empty. -/
def Again (name : String) : Registration → Prop
  | boot n => n.config = {}
  | sdk req =>
    (if req.nestedName = "" then req.name else req.nestedName) = name ∧ req.nested.config = {}
  | use => True

def explicit : Registration → Bool
  | use => false
  | _ => true

end Registration

end Engine

def World.registered (name : String) (ops : List Registration) (w : World) : World :=
  ops.foldl (fun w op => ((op.program name).run handler w).2) w

section Steps

variable {name : String} {w : World} {n : Namespace}

theorem run_registerNamespace (hname : name ≠ "") :
    ((drop (registerNamespace name n)).run handler w).2 =
      w.tick.write (.put (.ns name) (registeredRow n w.time)) := by
  rw [registerNamespace, if_neg hname]
  rfl

theorem run_explicit (hname : name ≠ "") {op : Registration} (hop : op.Again name)
    (hexp : op.explicit = true) : ∃ n, n.config = {} ∧
      ((op.program name).run handler w).2 =
        w.tick.write (.put (.ns name) (registeredRow n w.time)) := by
  cases op with
  | boot n => exact ⟨n, hop, run_registerNamespace hname⟩
  | sdk req =>
    obtain ⟨hreq, hconfig⟩ := hop
    simp only [Registration.program, opRegisterNamespace]
    split_ifs at hreq ⊢ with hnested
    · subst hreq
      refine ⟨_, ?_, run_registerNamespace hname⟩
      exact hconfig
    · subst hreq
      exact ⟨_, hconfig, run_registerNamespace hname⟩
  | use => cases hexp

theorem run_use (hn : w.store.get (.ns name) = some n) :
    ((Registration.use.program name).run handler w).2 = w := by
  refine Go.run_drop (G := fun _ _ => True) (Q := fun w' => w' = w) ?_
  rw [spec_namespaceOf]
  cases nameError w.orgs name with
  | some e => rfl
  | none => simp [useWrites, World.inUse, hn]

theorem run_nameless (hn : w.store.get (.ns "") = some n) {op : Registration} (hop : op.Again "") :
    ((op.program "").run handler w).2 = w := by
  cases op with
  | boot n => rfl
  | sdk req =>
    obtain ⟨hreq, -⟩ := hop
    simp only [Registration.program, opRegisterNamespace]
    split_ifs at hreq ⊢ with hnested
    · rw [hreq]
      rfl
    · exact absurd hreq hnested
  | use => exact run_use hn

theorem config_registered (hname : name ≠ "") {ops : List Registration}
    (hops : ∀ op ∈ ops, op.Again name) (hn : w.store.get (.ns name) = some n) :
    ∃ n', (w.registered name ops).store.get (.ns name) = some n' ∧
      n'.config = if ops.countP Registration.explicit = 0 then n.config
        else .default (w.clock (w.ticks + ops.countP Registration.explicit - 1)) := by
  induction ops generalizing w n with
  | nil => exact ⟨n, hn, rfl⟩
  | cons op ops ih =>
    have hrest : ∀ op ∈ ops, op.Again name := fun op hop => hops op (by simp [hop])
    cases hexp : op.explicit with
    | false =>
      obtain rfl : op = .use := by
        cases op with
        | use => rfl
        | _ => cases hexp
      obtain ⟨n', hn', hconfig⟩ := ih hrest hn
      refine ⟨n', ?_, ?_⟩
      · rw [World.registered, List.foldl_cons, run_use hn]
        exact hn'
      · rwa [List.countP_cons_of_neg (by simp [hexp])]
    | true =>
      obtain ⟨m, hm, hrun⟩ := run_explicit (w := w) hname (hops op (by simp)) hexp
      have hput : (w.tick.write (.put (.ns name) (registeredRow m w.time))).store.get
          (.ns name) = some (registeredRow m w.time) := Store.get_put_self w.store (.ns name) _
      obtain ⟨n', hn', hconfig⟩ := ih hrest hput
      refine ⟨n', ?_, ?_⟩
      · rw [World.registered, List.foldl_cons, hrun]
        exact hn'
      · rw [List.countP_cons_of_pos hexp, if_neg (Nat.succ_ne_zero _), hconfig]
        split_ifs with hlast
        · rw [hlast, config_registeredRow hm]
          rfl
        · refine congrArg (fun i => NamespaceConfig.default (w.clock i)) ?_
          show w.ticks + 1 + _ - 1 = _
          omega

theorem registered_nameless {ops : List Registration} (hops : ∀ op ∈ ops, op.Again "")
    (hn : w.store.get (.ns "") = some n) : w.registered "" ops = w := by
  induction ops with
  | nil => rfl
  | cons op ops ih =>
    rw [World.registered, List.foldl_cons, run_nameless hn (hops op (by simp))]
    exact ih fun op hop => hops op (by simp [hop])

end Steps

/-! ## The purge after it -/

open Retention

/-- In `w`, the namespace `name` is configured as `n` is, and no purge touches
what the retention of `n` keeps. -/
structure World.Configured (w : World) (name : String) (n : Namespace) : Prop where
  row : ∃ n', w.store.get (.ns name) = some n' ∧ n'.config = n.config
  purges : ∀ n', w.store.get (.ns name) = some n' → ∀ (p : Plan) (t u : Tenant),
    p.ns = name → p.row = n' → 0 < p.limit → t.shard.world = w → p.Reaches t u →
    (∀ r, (∀ keep, retentionOf p.parse n = some keep → ¬t.store.Expired name (p.now - keep) r) →
      ∀ k, t.store.Owns r k → u.store.get k = t.store.get k) ∧
    ∀ r, (∀ keep, retentionOf p.parse n = some keep → ¬t.acts.Expired name (p.now - keep) r) →
      ∀ k, t.acts.Owns r k → u.acts.get k = t.acts.get k

theorem retentionOf_congr {n n' : Namespace} (h : n'.config = n.config)
    (parse : String → Option Int) : retentionOf parse n' = retentionOf parse n := by
  have hretention : n'.retention = n.retention := congrArg NamespaceConfig.retention h
  rw [retentionOf, retentionOf, retentionText, retentionText, hretention]

theorem configured_of_row {w : World} {name : String} {n n' : Namespace}
    (hn' : w.store.get (.ns name) = some n') (hconfig : n'.config = n.config) :
    w.Configured name n := by
  refine ⟨⟨n', hn', hconfig⟩, ?_⟩
  rintro m hm p t u rfl hrow hlimit - hu
  obtain rfl := Option.some.inj (hn'.symm.trans hm)
  have hkeep := retentionOf_congr hconfig p.parse
  rw [← hrow] at hkeep
  cases hret : retentionOf p.parse n with
  | none =>
    rw [eq_of_reaches (hkeep.trans hret) hu]
    exact ⟨fun _ _ _ _ => rfl, fun _ _ _ _ => rfl⟩
  | some keep =>
    have hbetween := between_of_reaches (hkeep.trans hret) hlimit hu
    exact ⟨fun r hr k hk => hbetween.workflows.untouched (hr keep rfl) hk,
      fun r hr k hk => hbetween.activities.untouched (hr keep rfl) hk⟩

/-- Registrations that leave the configuration of a namespace empty keep the one
it has only where it has the default one, created at the time the last of them
reads, or where none of them is explicit. -/
theorem reregistration_keeps_config_iff (w : World) (name : String) (n : Namespace)
    (ops : List Registration) (hn : w.store.get (.ns name) = some n)
    (hops : ∀ op ∈ ops, op.Again name) :
    (w.registered name ops).Configured name n ↔
      name = "" ∨ (∀ op ∈ ops, op.explicit = false) ∨
        n.config = .default (w.clock (w.ticks + ops.countP Registration.explicit - 1)) := by
  by_cases hname : name = ""
  · subst hname
    rw [registered_nameless hops hn]
    exact ⟨fun _ => .inl rfl, fun _ => configured_of_row hn rfl⟩
  have hcount : ops.countP Registration.explicit = 0 ↔ ∀ op ∈ ops, op.explicit = false := by
    simp [List.countP_eq_zero]
  obtain ⟨n', hn', hconfig⟩ := config_registered hname hops hn
  constructor
  · intro h
    obtain ⟨m, hm, hsame⟩ := h.row
    obtain rfl := Option.some.inj (hn'.symm.trans hm)
    rw [hconfig] at hsame
    split_ifs at hsame with hnone
    · exact .inr (.inl (hcount.mp hnone))
    · exact .inr (.inr hsame.symm)
  · intro h
    refine configured_of_row hn' ?_
    rw [hconfig]
    rcases h with h | h | h
    · exact absurd h hname
    · rw [if_pos (hcount.mpr h)]
    · rw [← h, ite_self]

def yearly : World :=
  let row : WorkflowExecution :=
    { type := "Report", startTime := 5, closeTime := some 5, status := .completed,
      taskQueue := "default" }
  let w : World :=
    { store := (({} : Store).put (.ns "default") (registeredRow {} 0)).put
        (.wf ⟨"default", "report", "1"⟩) row
      clock := fun i => i, ids := fun _ => "", orgs := fun _ => true }
  ((updateNamespaceMetadata "default" { retention := some "8760h" }).run.run handler w).2

def parseHours : String → Option Int
  | "720h" => some (720 * 3600 * Standalone.second)
  | "8760h" => some (8760 * 3600 * Standalone.second)
  | _ => none

/-- An operation that needs the namespace leaves it as it is configured. -/
theorem reregistration_keeps_config_use :
    (yearly.registered "default" [.use]).Configured "default"
      { registeredRow {} 0 with retention := "8760h" } :=
  (reregistration_keeps_config_iff yearly "default" _ [.use] rfl (by simp [Registration.Again])).mpr
    (.inr (.inl (by simp [Registration.explicit])))

/-- An SDK client registers the namespace it is about to use. Sixty days after
the run closed, the purge removes it. -/
theorem reregistration_drops_retention :
    let w := yearly.registered "default" [.sdk { name := "default" }]
    let t : Tenant := { shard := { world := w, clock := fun _ => 0 } }
    let p : Plan :=
      { parse := parseHours, ns := "default", row := (w.store.get (.ns "default")).getD {}
        now := 60 * 86400 * Standalone.second, limit := 100 }
    (∃ n, yearly.store.get (.ns "default") = some n ∧ n.retention = "8760h") ∧
      (∃ n, w.store.get (.ns "default") = some n ∧ n.retention = "720h") ∧
      ¬t.store.Expired "default" (p.now - 8760 * 3600 * Standalone.second)
        ⟨"default", "report", "1"⟩ ∧
      (t.store.get (.wf ⟨"default", "report", "1"⟩)).isSome ∧
      ((p.pass t).store.get (.wf ⟨"default", "report", "1"⟩)).isNone := by
  refine ⟨⟨_, rfl, rfl⟩, ⟨_, rfl, rfl⟩, ?_, by decide +kernel, by decide +kernel⟩
  rintro ⟨-, row, -, -, hclosed⟩
  simp [Standalone.second] at hclosed
  omega

end DurableTasks
