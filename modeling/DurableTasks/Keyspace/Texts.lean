import DurableTasks.Model.Store
import DurableTasks.Tenancy.Text
import Mathlib.Tactic.IntervalCases

/-!
The keys of a shard as they are written: ids joined by slashes. Ids without a
slash can be read back from a key, so that a key says whose it is, and a scan by
prefix finds the keys of one owner only.
-/

namespace DurableTasks.Keyspace

/-! ## Numbers -/

def padded (width n : Nat) : String :=
  String.ofList (((Nat.digits 10 n).reverse.map Nat.digitChar).leftpad width '0')

/-- `%0*d`: a sign counts for the width. -/
def numeral (width : Nat) (n : Int) : String :=
  if n < 0 then "-" ++ padded (width - 1) n.natAbs else padded width n.natAbs

def valueOf (s : String) : Nat := Nat.ofDigits 10 (s.toList.reverse.map fun c => c.toNat - 48)

theorem toNat_digitChar {d : Nat} (hd : d < 10) : (Nat.digitChar d).toNat - 48 = d := by
  interval_cases d <;> rfl

theorem valueOf_padded (width n : Nat) : valueOf (padded width n) = n := by
  have hdigits : (Nat.digits 10 n).map ((fun c : Char => c.toNat - 48) ∘ Nat.digitChar) =
      Nat.digits 10 n := by
    refine (List.map_congr_left fun d hd => ?_).trans (List.map_id _)
    exact toNat_digitChar (Nat.digits_lt_base (by decide) hd)
  simp only [valueOf, padded, String.toList_ofList, List.leftpad, List.reverse_append,
    List.map_append, List.reverse_replicate, List.map_replicate, List.map_reverse,
    List.reverse_reverse, List.map_map, hdigits]
  rw [show ('0' : Char).toNat - 48 = 0 from rfl, Nat.ofDigits_append_replicate_zero,
    Nat.ofDigits_digits]

theorem digit_of_mem_padded {width n : Nat} {c : Char} (hc : c ∈ (padded width n).toList) :
    ∃ d < 10, c = Nat.digitChar d := by
  simp only [padded, String.toList_ofList, List.leftpad, List.mem_append, List.mem_replicate,
    List.mem_map, List.mem_reverse] at hc
  rcases hc with ⟨-, rfl⟩ | ⟨d, hd, rfl⟩
  · exact ⟨0, by decide, rfl⟩
  · exact ⟨d, Nat.digits_lt_base (by decide) hd, rfl⟩

theorem not_mem_padded {width n : Nat} {c : Char} (hc : ∀ d < 10, c ≠ Nat.digitChar d) :
    c ∉ (padded width n).toList := by
  intro hmem
  obtain ⟨d, hd, heq⟩ := digit_of_mem_padded hmem
  exact hc d hd heq

theorem numeral_inj {width : Nat} {m n : Int} (h : numeral width m = numeral width n) : m = n := by
  have hsign {k l w w' : Nat} : "-" ++ padded w k ≠ padded w' l := by
    intro heq
    have hmem : '-' ∈ (padded w' l).toList := by simp [← heq]
    exact not_mem_padded (by decide) hmem
  have hvalue {k l w : Nat} (heq : padded w k = padded w l) : k = l := by
    rw [← valueOf_padded w k, heq, valueOf_padded]
  unfold numeral at h
  split_ifs at h with hm hn hn
  · have hsame : padded (width - 1) m.natAbs = padded (width - 1) n.natAbs := by
      simpa [String.ext_iff] using h
    have habs := hvalue hsame
    omega
  · exact absurd h hsign
  · exact absurd h.symm hsign
  · have habs := hvalue h
    omega

/-! ## Keys -/

def under (kind ns rest : String) : String := kind ++ "/" ++ (ns ++ "/" ++ rest)

def runKey (ns wf run : String) : String := under "wf" ns (wf ++ "/" ++ run)

def openKey (ns wf run : String) : String := under "wfopen" ns (wf ++ "/" ++ run)

def historyPrefix (ns wf run : String) : String := under "wfh" ns (wf ++ "/" ++ (run ++ "/"))

def historyKey (ns wf run : String) (id : Nat) : String :=
  historyPrefix ns wf run ++ numeral 20 id

def wfActPrefix (ns wf run : String) : String := under "wfact" ns (wf ++ "/" ++ (run ++ "/"))

def wfActKey (ns wf run : String) (seq : Int) : String :=
  wfActPrefix ns wf run ++ numeral 10 seq

def rowPrefix (ns wf : String) : String := under "wf" ns (wf ++ "/")

def idemPrefix (ns wf : String) : String := under "idem" ns (wf ++ "/")

def sctrigPrefix (ns sid : String) : String := under "sctrig" ns (sid ++ "/")

theorem slash_eq : ("/" : String) = String.singleton '/' := rfl

theorem under_inj {kind kind' ns rest rest' : String} (hkind : '/' ∉ kind.toList)
    (hkind' : '/' ∉ kind'.toList) (h : under kind ns rest = under kind' ns rest') :
    kind = kind' ∧ rest = rest' := by
  obtain ⟨hsame, htail⟩ := append_singleton_inj hkind hkind' h
  refine ⟨hsame, ?_⟩
  simpa [String.ext_iff] using htail

/-! ## Owners -/

/-- The ids of a run. A start never leaves the run id empty. -/
@[ext] structure RunName where
  wf : String
  run : String
  named : run ≠ ""
deriving DecidableEq

/-- Ids that a key can be read back from. -/
def RunName.Plain (p : RunName) : Prop := '/' ∉ p.wf.toList ∧ '/' ∉ p.run.toList

/-- The keys of a run: its row, its entry in the open-run index, its events and its
activity records. -/
inductive Owned (ns : String) (p : RunName) : String → Prop
  | row : Owned ns p (runKey ns p.wf p.run)
  | entry : Owned ns p (openKey ns p.wf p.run)
  | event (id : Nat) : Owned ns p (historyKey ns p.wf p.run id)
  | activity (seq : Int) : Owned ns p (wfActKey ns p.wf p.run seq)

theorem RunName.Plain.eq {p q : RunName} (hp : p.Plain) (hq : q.Plain)
    (h : p.wf ++ "/" ++ p.run = q.wf ++ "/" ++ q.run) : p = q := by
  obtain ⟨hwf, hrun⟩ := append_singleton_inj hp.1 hq.1 h
  exact RunName.ext hwf hrun

theorem RunName.Plain.eq_of_slash {p q : RunName} (hp : p.Plain) (hq : q.Plain) {x y : String}
    (h : p.wf ++ "/" ++ (p.run ++ "/" ++ x) = q.wf ++ "/" ++ (q.run ++ "/" ++ y)) : p = q := by
  obtain ⟨hwf, hrest⟩ := append_singleton_inj hp.1 hq.1 h
  exact RunName.ext hwf (append_singleton_inj hp.2 hq.2 hrest).1

theorem under_append (kind ns rest s : String) :
    under kind ns rest ++ s = under kind ns (rest ++ s) := by
  simp [under, String.append_assoc]

theorem Owned.rest {ns kind rest : String} {p : RunName} (hkind : '/' ∉ kind.toList)
    (h : Owned ns p (under kind ns rest)) :
    (kind = "wf" ∨ kind = "wfopen") ∧ rest = p.wf ++ "/" ++ p.run ∨
      (kind = "wfh" ∨ kind = "wfact") ∧ ∃ x, rest = p.wf ++ "/" ++ (p.run ++ "/" ++ x) := by
  generalize hkey : under kind ns rest = key at h
  cases h with
  | row =>
    obtain ⟨rfl, rfl⟩ := under_inj hkind (by decide) hkey
    exact .inl ⟨.inl rfl, rfl⟩
  | entry =>
    obtain ⟨rfl, rfl⟩ := under_inj hkind (by decide) hkey
    exact .inl ⟨.inr rfl, rfl⟩
  | event id =>
    rw [historyKey, historyPrefix, under_append] at hkey
    obtain ⟨rfl, rfl⟩ := under_inj hkind (by decide) hkey
    exact .inr ⟨.inl rfl, numeral 20 id, by simp [String.append_assoc]⟩
  | activity seq =>
    rw [wfActKey, wfActPrefix, under_append] at hkey
    obtain ⟨rfl, rfl⟩ := under_inj hkind (by decide) hkey
    exact .inr ⟨.inr rfl, numeral 10 seq, by simp [String.append_assoc]⟩

variable {ns : String} {p q : RunName}

theorem Owned.eq_of_row (hp : p.Plain) (hq : q.Plain) (h : Owned ns q (runKey ns p.wf p.run)) :
    q = p := by
  rcases h.rest (by decide) with ⟨-, hrest⟩ | ⟨hkind, -⟩
  · exact (hp.eq hq hrest).symm
  · simp at hkind

theorem Owned.eq_of_entry (hp : p.Plain) (hq : q.Plain)
    (h : Owned ns q (openKey ns p.wf p.run)) : q = p := by
  rcases h.rest (by decide) with ⟨-, hrest⟩ | ⟨hkind, -⟩
  · exact (hp.eq hq hrest).symm
  · simp at hkind

theorem Owned.eq_of_history (hp : p.Plain) (hq : q.Plain) {s : String}
    (h : Owned ns q (historyPrefix ns p.wf p.run ++ s)) : q = p := by
  rw [historyPrefix, under_append] at h
  rcases h.rest (by decide) with ⟨hkind, -⟩ | ⟨-, x, hrest⟩
  · simp at hkind
  · refine (hp.eq_of_slash hq (x := s) (y := x) ?_).symm
    simpa [String.append_assoc] using hrest

theorem Owned.eq_of_activity (hp : p.Plain) (hq : q.Plain) {s : String}
    (h : Owned ns q (wfActPrefix ns p.wf p.run ++ s)) : q = p := by
  rw [wfActPrefix, under_append] at h
  rcases h.rest (by decide) with ⟨hkind, -⟩ | ⟨-, x, hrest⟩
  · simp at hkind
  · refine (hp.eq_of_slash hq (x := s) (y := x) ?_).symm
    simpa [String.append_assoc] using hrest

theorem not_owned_request {wf s : String} : ¬ Owned ns q (idemPrefix ns wf ++ s) := by
  intro h
  rw [idemPrefix, under_append] at h
  rcases h.rest (by decide) with ⟨hkind, -⟩ | ⟨hkind, -⟩ <;> simp at hkind

theorem not_owned_trigger {sid s : String} : ¬ Owned ns q (sctrigPrefix ns sid ++ s) := by
  intro h
  rw [sctrigPrefix, under_append] at h
  rcases h.rest (by decide) with ⟨hkind, -⟩ | ⟨hkind, -⟩ <;> simp at hkind

theorem Owned.eq {key : String} (hp : p.Plain) (hq : q.Plain) (h : Owned ns p key)
    (h' : Owned ns q key) : q = p := by
  cases h with
  | row => exact h'.eq_of_row hp hq
  | entry => exact h'.eq_of_entry hp hq
  | event id => exact h'.eq_of_history hp hq
  | activity seq => exact h'.eq_of_activity hp hq

/-- A text with one slash has no slash on either side of it. -/
theorem eq_of_one_slash {a b x y : String} (ha : '/' ∉ a.toList) (hb : '/' ∉ b.toList)
    (h : x ++ "/" ++ y = a ++ "/" ++ b) : x = a := by
  have hcount := congrArg (fun s : String => s.toList.count '/') h
  simp only [slash_eq, String.toList_append, String.toList_singleton, List.count_append,
    List.count_singleton_self, List.count_eq_zero_of_not_mem ha,
    List.count_eq_zero_of_not_mem hb] at hcount
  have hx : '/' ∉ x.toList := List.count_eq_zero.mp (by omega)
  exact (append_singleton_inj hx ha h).1

/-- A scan by workflow id finds rows of that id only. -/
theorem Owned.wf_eq {id s : String} (hq : q.Plain) (h : Owned ns q (rowPrefix ns id ++ s)) :
    q.wf = id := by
  rw [rowPrefix, under_append] at h
  rcases h.rest (by decide) with ⟨-, hrest⟩ | ⟨hkind, -⟩
  · exact (eq_of_one_slash hq.1 hq.2 hrest).symm
  · simp at hkind

/-! ## Keys by kind and parts -/

end DurableTasks.Keyspace

namespace DurableTasks

open Keyspace

def Key.parts : Key → List String
  | .ns name => ["ns", name]
  | .wf r => ["wf", r.ns, r.wf, r.run]
  | .wfh r id => ["wfh", r.ns, r.wf, r.run, numeral 20 id]
  | .wfact r seq => ["wfact", r.ns, r.wf, r.run, numeral 10 seq]
  | .wfopen r => ["wfopen", r.ns, r.wf, r.run]
  | .wfidx name => ["wfidx", name]
  | .idem name id request => ["idem", name, id, request]
  | .sctrig name schedule request => ["sctrig", name, schedule, request]

def Key.text (k : Key) : String := joinText '/' k.parts

theorem Key.text_wf (r : RunRef) : (Key.wf r).text = runKey r.ns r.wf r.run := by
  simp [Key.text, Key.parts, joinText, runKey, under, slash_eq]

theorem Key.text_wfopen (r : RunRef) : (Key.wfopen r).text = openKey r.ns r.wf r.run := by
  simp [Key.text, Key.parts, joinText, openKey, under, slash_eq]

theorem Key.text_wfh (r : RunRef) (id : Nat) :
    (Key.wfh r id).text = historyKey r.ns r.wf r.run id := by
  simp [Key.text, Key.parts, joinText, historyKey, historyPrefix, under, String.ext_iff, slash_eq]

theorem Key.text_wfact (r : RunRef) (seq : Int) :
    (Key.wfact r seq).text = wfActKey r.ns r.wf r.run seq := by
  simp [Key.text, Key.parts, joinText, wfActKey, wfActPrefix, under, String.ext_iff, slash_eq]

/-- The keys a run owns are the texts of its keys in the store. -/
theorem owned_iff_text {ns key : String} {p : RunName} :
    Owned ns p key ↔ ∃ k : Key, k.run = some ⟨ns, p.wf, p.run⟩ ∧ k.text = key := by
  constructor
  · intro h
    cases h with
    | row => exact ⟨.wf _, rfl, Key.text_wf _⟩
    | entry => exact ⟨.wfopen _, rfl, Key.text_wfopen _⟩
    | event id => exact ⟨.wfh _ id, rfl, Key.text_wfh _ id⟩
    | activity seq => exact ⟨.wfact _ seq, rfl, Key.text_wfact _ seq⟩
  · rintro ⟨k, hrun, rfl⟩
    cases k with
    | wf r =>
      cases hrun
      exact Key.text_wf _ ▸ .row
    | wfopen r =>
      cases hrun
      exact Key.text_wfopen _ ▸ .entry
    | wfh r id =>
      cases hrun
      exact Key.text_wfh _ id ▸ .event id
    | wfact r seq =>
      cases hrun
      exact Key.text_wfact _ seq ▸ .activity seq
    | _ => cases hrun

/-- The parts of a key without a slash tell it apart from every other one. -/
theorem Key.text_inj {k k' : Key} (hk : ∀ part ∈ k.parts, '/' ∉ part.toList)
    (hk' : ∀ part ∈ k'.parts, '/' ∉ part.toList) (h : k.text = k'.text) : k = k' := by
  have hne : ∀ k : Key, k.parts ≠ [] := by
    intro k
    cases k <;> simp [Key.parts]
  have hparts : k.parts = k'.parts := joinText_inj (hne k) (hne k') hk hk' h
  have hnumber {width : Nat} {m n : Int} : numeral width m = numeral width n ↔ m = n :=
    ⟨numeral_inj, fun h => h ▸ rfl⟩
  have href {r r' : RunRef} : r = r' ↔ r.ns = r'.ns ∧ r.wf = r'.wf ∧ r.run = r'.run := by
    cases r
    cases r'
    simp
  cases k <;> cases k' <;> simp_all [Key.parts]

end DurableTasks
