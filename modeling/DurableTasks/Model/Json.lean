import Mathlib.Data.Rat.Floor
import Mathlib.Data.Nat.Digits.Defs

/-!
JSON values and what a trip through a Go `any` does to them. Decoding into
`any` turns every number into a `float64`, and encoding it again prints the
shortest decimal that reads back as that `float64`. A number of more than 53
bits therefore comes back changed, and one beyond the range of `float64` does
not decode at all.
-/

namespace DurableTasks

/-- A JSON value. Numbers are exact: `num` is one as an encoder writes it, `real`
one written with a fraction or an exponent it needs not have. The fields of an
object stand in the order of the text; a decoder into a map holds them in key
order. -/
inductive Json where
  | null
  | bool (b : Bool)
  | num (q : ℚ)
  | real (q : ℚ)
  | str (s : String)
  | arr (elems : List Json)
  | obj (fields : List (String × Json))

instance : Inhabited Json := ⟨.null⟩

namespace Float64

def scale (b : Nat) (e : Int) : ℚ :=
  if 0 ≤ e then (b ^ e.toNat : Nat) else 1 / (b ^ (-e).toNat : Nat)

def roundEven (q : ℚ) : Int :=
  let f := q.num / q.den
  let r := q - f
  if r < 1 / 2 then f
  else if 1 / 2 < r then f + 1
  else if f % 2 = 0 then f else f + 1

/-- The `float64` nearest to `q`: a significand of 53 bits (fewer below the
normal range). `none` is a value out of range. -/
def ofRat (q : ℚ) : Option ℚ :=
  if q = 0 then some 0
  else
    let a := |q|
    -- `a` lies between `2 ^ (l - 1)` and `2 ^ (l + 1)`
    let l : Int := (Nat.log2 a.num.toNat : Int) - Nat.log2 a.den
    let e := max (if scale 2 l ≤ a then l - 52 else l - 53) (-1074)
    let v := roundEven (a / scale 2 e) * scale 2 e
    if scale 2 1024 ≤ v then none
    else some (if q < 0 then -v else v)

def toDecimal (n : Nat) (d : ℚ) : ℚ :=
  let a := |d|
  let k : Int := ((Nat.toDigits 10 a.num.toNat).length : Int) - (Nat.toDigits 10 a.den).length
  let digits := if scale 10 k ≤ a then k + 1 else k
  let s := scale 10 (digits - n)
  roundEven (a / s) * s * (if d < 0 then -1 else 1)

/-- The decimal a `float64` is printed as: the fewest digits that read back as
`d`. Seventeen always do. -/
def shortest (d : ℚ) : ℚ :=
  if d = 0 then 0
  else
    (((List.range 17).map fun n => toDecimal (n + 1) d).find? fun c =>
      ofRat c = some d).getD d

end Float64

namespace Json

mutual

/-- What a value reads as after being decoded into `any` and encoded again;
`none` when it does not decode. -/
def throughAny : Json → Option Json
  | .num q | .real q => (Float64.ofRat q).map fun d => .num (Float64.shortest d)
  | .arr elems => (throughAnyElems elems).map .arr
  | .obj fields => (throughAnyFields fields).map .obj
  | .null => some .null
  | .bool b => some (.bool b)
  | .str s => some (.str s)

def throughAnyElems : List Json → Option (List Json)
  | [] => some []
  | j :: rest => do return (← j.throughAny) :: (← throughAnyElems rest)

def throughAnyFields : List (String × Json) → Option (List (String × Json))
  | [] => some []
  | (k, j) :: rest => do return (k, ← j.throughAny) :: (← throughAnyFields rest)

end

mutual

/-- How deep arrays and objects are nested. -/
def depth : Json → Nat
  | .arr elems => depthElems elems + 1
  | .obj fields => depthFields fields + 1
  | _ => 0

def depthElems : List Json → Nat
  | [] => 0
  | j :: rest => max j.depth (depthElems rest)

def depthFields : List (String × Json) → Nat
  | [] => 0
  | (_, j) :: rest => max j.depth (depthFields rest)

end

/-- The deepest that `encoding/json` scans. -/
def maxNesting : Nat := 10000

def field (j : Json) (k : String) : Option Json :=
  match j with
  | .obj fields => (fields.find? fun f => f.1 = k).map Prod.snd
  | _ => none

end Json

example : (Json.num 9007199254740993).throughAny = some (.num 9007199254740992) := by
  simp only [Json.throughAny]
  rw [show Float64.ofRat 9007199254740993 = some 9007199254740992 by decide +kernel]
  simp only [Option.map_some, Option.some.injEq, Json.num.injEq]
  decide +kernel

/-- Bytes a worker or a caller hands over as JSON: the text, and what it parses
to. `json` is `none` when the text is not JSON. -/
structure Raw where
  text : String
  json : Option Json

namespace Raw

def empty : Raw := ⟨"", none⟩

def isEmpty (r : Raw) : Bool := r.text.isEmpty

/-- Bytes hold JSON or nothing at all, so that they can stand as a
`json.RawMessage` field of a stored record. -/
def storable (r : Raw) : Bool := r.isEmpty || r.json.isSome

/-- The value a `json.RawMessage` is written as inside a larger document: a nil
one is `null`. -/
def value (r : Raw) : Json :=
  if r.isEmpty then .null else r.json.getD .null

def ofJson (text : String) (j : Json) : Raw := ⟨text, some j⟩

end Raw

end DurableTasks
