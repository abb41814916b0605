import DurableTasks.Model.Json
import Mathlib.Tactic.SplitIfs

/-!
The JSON bodies of the SDK client's requests, and how the server's handlers read
them: as a map of `any`, field by field.
-/

namespace DurableTasks.Client

/-! ## What the client writes -/

structure ClientImpl where
  ns : String
  identity : String := ""

def omitEmpty (k : String) (empty : Bool) (v : Json) : List (String × Json) :=
  if empty then [] else [(k, v)]

def ClientImpl.served (c : ClientImpl) (defaultNS : String) : String :=
  if c.ns = "" then defaultNS else c.ns

/-! ## What the server reads -/

mutual

/-- What `json.Unmarshal` leaves of a value in an `any`. A number out of range
is reported, the report is dropped, and nothing stands in its place. -/
def readAny : Json → Json
  | .num q | .real q => ((Float64.ofRat q).map fun d => .num (Float64.shortest d)).getD .null
  | .arr elems => .arr (readAnyElems elems)
  | .obj fields => .obj (readAnyFields fields)
  | .null => .null
  | .bool b => .bool b
  | .str s => .str s

def readAnyElems : List Json → List Json
  | [] => []
  | j :: rest => readAny j :: readAnyElems rest

def readAnyFields : List (String × Json) → List (String × Json)
  | [] => []
  | (k, j) :: rest => (k, readAny j) :: readAnyFields rest

end

def str (req : List (String × Json)) (k : String) : String :=
  match (Json.obj req).field k with
  | some (.str s) => s
  | _ => ""

def strOr (req : List (String × Json)) (k d : String) : String :=
  if str req k = "" then d else str req k

def nameIn (req : List (String × Json)) (k : String) : String :=
  match (Json.obj req).field k with
  | some (.obj fields) => str fields "name"
  | _ => ""

def fieldsIn (req : List (String × Json)) (k : String) : List (String × Json) :=
  match (Json.obj req).field k with
  | some (.obj fields) => fields
  | _ => []

section Fields

variable {l l' : List (String × Json)} {k k' : String} {v : Json}

theorem field_append :
    (Json.obj (l ++ l')).field k = ((Json.obj l).field k).or ((Json.obj l').field k) := by
  simp only [Json.field, List.find?_append]
  cases l.find? fun f => f.1 = k <;> rfl

theorem field_cons :
    (Json.obj ((k', v) :: l)).field k = if k' = k then some v else (Json.obj l).field k := by
  simp only [Json.field, List.find?_cons]
  split_ifs with h <;> simp [h]

theorem field_nil : (Json.obj []).field k = none := rfl

theorem field_omitEmpty_of_ne {empty : Bool} (h : k' ≠ k) :
    (Json.obj (omitEmpty k' empty v)).field k = none := by
  unfold omitEmpty
  split_ifs
  · rfl
  · rw [field_cons, if_neg h, field_nil]

theorem field_readAny :
    (Json.obj (readAnyFields l)).field k = ((Json.obj l).field k).map readAny := by
  induction l with
  | nil => rfl
  | cons f l ih =>
    obtain ⟨k', j⟩ := f
    rw [readAnyFields, field_cons, field_cons, ih]
    split_ifs <;> rfl

theorem strOr_empty : strOr l k "" = str l k := by
  rw [strOr]
  split_ifs with h
  · exact h.symm
  · rfl

end Fields

end DurableTasks.Client
