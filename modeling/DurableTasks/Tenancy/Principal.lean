import DurableTasks.Engine.Process
import DurableTasks.Tenancy.Text

/-!
Principals as texts: the encoding that names a tenant's directory and routes a
replication frame, and its inverse.
-/

namespace DurableTasks

/-- `namespace.Org` of the shared layout: the id a name is stored under, or why it
cannot be. A name that is stored as it is written has no separator in it. -/
structure SegmentRule where
  org : String → Except String String
  noSlash : ∀ name, org name = .ok name → '/' ∉ name.toList

/-- `Sentinel`: how an unset leg is written. -/
def sentinel : String := "_"

def SegmentRule.validName (R : SegmentRule) (name : String) : Except String Unit :=
  if name = "" then .error "store: name required"
  else if name = sentinel then
    .error s!"store: {name.quote} is the unset-leg sentinel and cannot name a tenant"
  else if name.toList.contains '\x00' then .error s!"store: name {name.quote} contains a NUL"
  else
    match R.org name with
    | .error err => .error s!"store: {name.quote} cannot name a shard: {err}"
    | .ok id =>
      if id = name then .ok ()
      else .error (s!"store: name {name.quote} is not in its stored form ({id.quote}); " ++
        "it did not come through the door")

namespace Principal

def legs (p : Principal) : List String := [p.org, p.project, p.user]

/-- `String`: the legs joined by slashes, each unset one as the sentinel. -/
def text (p : Principal) : String :=
  joinText '/' (p.legs.map fun leg => if leg = "" then sentinel else leg)

/-- `Valid`: every set leg is a usable segment, and nothing is set without an
org. -/
def valid (R : SegmentRule) (p : Principal) : Except String Unit := do
  if p.org = "" ∧ (p.project ≠ "" ∨ p.user ≠ "") then
    throw s!"store: principal {p.text} narrows an unset org"
  p.legs.forM fun leg => if leg = "" then pure () else R.validName leg

abbrev Valid (R : SegmentRule) (p : Principal) : Prop := p.valid R = .ok ()

/-- `ParsePrincipal`. -/
def parse (R : SegmentRule) (s : String) : Except String Principal :=
  match (splitText '/' s).map fun leg => if leg = sentinel then "" else leg with
  | [org, project, user] =>
    match valid R ⟨org, project, user⟩ with
    | .error err => .error err
    | .ok () => .ok ⟨org, project, user⟩
  | _ => .error s!"store: principal {s.quote} must have 3 legs"

variable {R : SegmentRule} {p q : Principal}

theorem validName_ok {name : String} (h : R.validName name = .ok ()) :
    name ≠ "" ∧ name ≠ sentinel ∧ '/' ∉ name.toList := by
  unfold SegmentRule.validName at h
  split_ifs at h with hempty hsentinel hnul
  split at h
  · cases h
  · split_ifs at h with hid
    rename_i id horg
    exact ⟨hempty, hsentinel, R.noSlash name (hid ▸ horg)⟩

theorem Valid.leg (h : p.Valid R) {leg : String} (hleg : leg ∈ p.legs) :
    leg ≠ sentinel ∧ '/' ∉ leg.toList := by
  have hforM : p.legs.forM (fun leg => if leg = "" then pure () else R.validName leg) =
      .ok () := by
    unfold Valid valid at h
    split_ifs at h with hunset
    · cases h
    · exact h
  have hname : (if leg = "" then pure () else R.validName leg) = .ok () := by
    generalize p.legs = legs at hleg hforM
    induction legs with
    | nil => cases hleg
    | cons x xs ih =>
      rw [List.forM_eq_forM, List.forM_cons] at hforM
      cases hx : (if x = "" then pure () else R.validName x : Except String Unit) with
      | error err =>
        rw [hx] at hforM
        cases hforM
      | ok u =>
        rw [hx] at hforM
        rcases List.mem_cons.mp hleg with rfl | hmem
        · exact hx
        · exact ih hmem hforM
  by_cases hset : leg = ""
  · simp [hset, sentinel]
  · rw [if_neg hset] at hname
    exact (validName_ok hname).2

theorem Valid.text_free (h : p.Valid R) :
    ∀ leg ∈ p.legs.map (fun leg => if leg = "" then sentinel else leg), '/' ∉ leg.toList := by
  intro leg hleg
  obtain ⟨leg, hmem, rfl⟩ := List.mem_map.mp hleg
  split_ifs
  · simp [sentinel]
  · exact (h.leg hmem).2

theorem parse_text (h : p.Valid R) : parse R p.text = .ok p := by
  have hback : ∀ leg ∈ p.legs, (if (if leg = "" then sentinel else leg) = sentinel then ""
      else if leg = "" then sentinel else leg) = leg := by
    intro leg hleg
    by_cases hset : leg = ""
    · simp [hset]
    · simp [hset, (h.leg hleg).1]
  have hlegs : (splitText '/' p.text).map (fun leg => if leg = sentinel then "" else leg) =
      [p.org, p.project, p.user] := by
    rw [text, splitText_joinText (by simp [legs]) h.text_free, List.map_map]
    exact (List.map_congr_left hback).trans (List.map_id _)
  rw [parse, hlegs]
  simp only [show valid R ⟨p.org, p.project, p.user⟩ = .ok () from h]

theorem text_inj (hp : p.Valid R) (hq : q.Valid R) (h : p.text = q.text) : p = q :=
  Except.ok.inj ((parse_text hp).symm.trans ((congrArg (parse R) h).trans (parse_text hq)))

/-- What is parsed is the text again, with the sentinel for every leg that was
left empty. -/
theorem text_parse {s : String} (h : parse R s = .ok p) :
    p.Valid R ∧ p.text = joinText '/' ((splitText '/' s).map fun leg =>
      if leg = "" then sentinel else leg) := by
  unfold parse at h
  split at h
  · rename_i org project user hlegs
    split at h
    · cases h
    · rename_i hvalid
      obtain rfl := Except.ok.inj h
      refine ⟨hvalid, congrArg (joinText '/') ?_⟩
      rw [show legs ⟨org, project, user⟩ = [org, project, user] from rfl, ← hlegs, List.map_map]
      refine List.map_congr_left fun leg _ => ?_
      by_cases hunset : leg = sentinel
      · simp [hunset, sentinel]
      · simp [hunset]
  · cases h

/-- A valid principal is parsed back from its text, and an accepted text is the
text of its principal exactly when no leg of it is empty. -/
theorem one_encoding (R : SegmentRule) :
    (∀ p : Principal, p.Valid R → parse R p.text = .ok p) ∧
    ∀ s p, parse R s = .ok p → (p.text = s ↔ "" ∉ splitText '/' s) := by
  refine ⟨fun p => parse_text, fun s p h => ?_⟩
  obtain ⟨hvalid, htext⟩ := text_parse h
  constructor
  · intro hs hempty
    rw [← hs, text, splitText_joinText (by simp [legs]) hvalid.text_free] at hempty
    obtain ⟨leg, -, hleg⟩ := List.mem_map.mp hempty
    by_cases hset : leg = "" <;> simp [hset, sentinel] at hleg
  · intro hset
    have hkept : ∀ leg ∈ splitText '/' s, (if leg = "" then sentinel else leg) = leg :=
      fun leg hleg => if_neg fun hempty : leg = "" => hset (hempty ▸ hleg)
    rw [htext, List.map_congr_left hkept, List.map_id', joinText_splitText]

/-- A principal can be read off a longer text, up to a tag that has no slash. -/
theorem text_append_inj (hp : p.Valid R) (hq : q.Valid R) {tag b b' : String}
    (htag : '/' ∉ tag.toList)
    (h : p.text ++ tag ++ String.singleton '/' ++ b = q.text ++ tag ++ String.singleton '/' ++ b') :
    p = q ∧ b = b' := by
  have htext : ∀ p : Principal, ∃ x y z,
      p.legs.map (fun leg => if leg = "" then sentinel else leg) = [x, y, z] ∧
        p.text = x ++ String.singleton '/' ++ (y ++ String.singleton '/' ++ z) := by
    intro p
    refine ⟨_, _, _, rfl, ?_⟩
    simp [text, joinText, legs]
  obtain ⟨x, y, z, hlegs, hx⟩ := htext p
  obtain ⟨x', y', z', hlegs', hx'⟩ := htext q
  have hfree := hp.text_free
  have hfree' := hq.text_free
  rw [hlegs] at hfree
  rw [hlegs'] at hfree'
  have hslash : ∀ {c : String}, '/' ∉ c.toList → '/' ∉ (c ++ tag).toList := by
    intro c hc
    simpa using ⟨hc, htag⟩
  have hslashes : x ++ String.singleton '/' ++ (y ++ String.singleton '/' ++
        (z ++ tag ++ String.singleton '/' ++ b)) =
      x' ++ String.singleton '/' ++ (y' ++ String.singleton '/' ++
        (z' ++ tag ++ String.singleton '/' ++ b')) := by
    rw [hx, hx'] at h
    simpa [String.append_assoc] using h
  obtain ⟨rfl, hsecond⟩ := append_singleton_inj (hfree x (by simp)) (hfree' x' (by simp)) hslashes
  obtain ⟨rfl, hthird⟩ := append_singleton_inj (hfree y (by simp)) (hfree' y' (by simp)) hsecond
  obtain ⟨hz, rfl⟩ := append_singleton_inj (hslash (hfree z (by simp)))
    (hslash (hfree' z' (by simp))) hthird
  refine ⟨text_inj hp hq ?_, rfl⟩
  rw [hx, hx', (String.append_left_inj _).mp hz]

end Principal

/-- The door: the names callers hold, folded to the ones tenants are stored
under. `sanitize` is empty on a name it refuses. -/
structure Door where
  rule : SegmentRule
  sanitize : String → String

namespace Door

/-- A refused name is kept as it is, for `Valid` to turn away. -/
def fold (D : Door) (name : String) : String :=
  if name = "" then "" else if D.sanitize name ≠ "" then D.sanitize name else name

def orgProject (D : Door) (org project : String) : Principal :=
  { org := D.fold org, project := D.fold project }

/-- A name of an org that the door lets in. -/
def Accepts (D : Door) (name : String) : Prop :=
  name ≠ "" ∧ (D.orgProject name "").Valid D.rule

@[simp] theorem fold_empty (D : Door) : D.fold "" = "" := by
  simp [fold]

end Door

def plainNames : SegmentRule where
  org name := if '/' ∈ name.toList then .error "a slash" else .ok name
  noSlash name h := by
    split_ifs at h with hslash
    exact hslash

namespace Principal

theorem one_encoding_acme : parse plainNames (text ⟨"acme", "", ""⟩) = .ok ⟨"acme", "", ""⟩ :=
  (one_encoding plainNames).1 _ (by decide +kernel)

/-- Two texts of one tenant: a leg may be left empty. -/
theorem empty_legs_accepted :
    parse plainNames "acme//" = .ok ⟨"acme", "", ""⟩ ∧
      parse plainNames "acme/_/_" = .ok ⟨"acme", "", ""⟩ ∧
      text ⟨"acme", "", ""⟩ ≠ "acme//" := by
  decide +kernel

end Principal

end DurableTasks
