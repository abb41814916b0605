import DurableTasks.Model.Json

/-!
The failure model of the SDK: the one error type, how it is read back from the
bytes a worker reports, and the retry decision made from it.
-/

namespace DurableTasks.Temporal

/-- Sentinel codes carried on the wire. -/
def codeApplication : String := "ApplicationError"
def codeDecode : String := "DecodeError"

inductive Error where
  | mk (message code : String) (nonRetryable : Bool) (details : List Json) (cause : Option Error)

namespace Error

def code : Error → String
  | mk _ code _ _ _ => code

def nonRetryable : Error → Bool
  | mk _ _ nonRetryable _ _ => nonRetryable

/-- `NewError`: an empty code means `ApplicationError`. -/
def new (message code : String) (nonRetryable : Bool) : Error :=
  .mk message (if code = "" then codeApplication else code) nonRetryable [] none

end Error

def failureEnvelopeVersion : Int := 1

/-! ## Reading the envelope -/

/-- Letters that `encoding/json` takes for one: those that differ in case, the
long s and the Kelvin sign. -/
def foldRune (c : Char) : Char :=
  if c.toNat = 0x17f then 'S' else if c.toNat = 0x212a then 'K' else c.toUpper

/-- The field a key is read into: the one it names, or else the first it names up
to folding. -/
def fieldOf {α : Type} (names : List (String × α)) (key : String) : Option α :=
  ((names.find? fun n => n.1 = key).or
    (names.find? fun n => n.1.toList.map foldRune = key.toList.map foldRune)).map Prod.snd

inductive EnvelopeField where
  | version
  | payload

structure FailureEnvelope where
  version : Int := 0
  payload : Option Json := none

/-- Fields are set in the order they come, so that the last one counts. A version
is an integer by its text, and `null` leaves it as it is. -/
def readEnvelope : List (String × Json) → FailureEnvelope → Option FailureEnvelope
  | [], env => some env
  | (key, j) :: rest, env =>
    match fieldOf [("v", EnvelopeField.version), ("p", .payload)] key with
    | none => readEnvelope rest env
    | some .payload => readEnvelope rest { env with payload := some j }
    | some .version =>
      match j with
      | .null => readEnvelope rest env
      | .num q =>
        if q.den = 1 ∧ -2 ^ 63 ≤ q.num ∧ q.num < 2 ^ 63 then
          readEnvelope rest { env with version := q.num }
        else none
      | _ => none

/-- `json.Unmarshal` into a `failureEnvelope`. -/
def unmarshalEnvelope (j : Json) : Option FailureEnvelope :=
  if Json.maxNesting < j.depth then none
  else
    match j with
    | .null => some {}
    | .obj fields => readEnvelope fields {}
    | _ => none

inductive PayloadField where
  | message
  | code
  | nonRetryable
  | details
  | cause

def payloadField : String → Option PayloadField :=
  fieldOf [("message", .message), ("code", .code), ("nonRetryable", .nonRetryable),
    ("details", .details), ("cause", .cause)]

mutual

/-- `json.Unmarshal` into a `failurePayload`, held as the error it stands for.
`none` when a field has the wrong type. -/
def readPayload : Json → Error → Option Error
  | .null, p => some p
  | .obj fields, p => readFields fields p
  | _, _ => none

/-- A second `cause` is read into the first one; `null` takes away details and a
cause, and leaves a plain field as it is. -/
def readFields : List (String × Json) → Error → Option Error
  | [], p => some p
  | (key, j) :: rest, .mk m c n d k =>
    match payloadField key, j with
    | none, _ => readFields rest (.mk m c n d k)
    | some .message, .str s => readFields rest (.mk s c n d k)
    | some .code, .str s => readFields rest (.mk m s n d k)
    | some .nonRetryable, .bool b => readFields rest (.mk m c b d k)
    | some .details, .arr l => readFields rest (.mk m c n l k)
    | some .details, .null => readFields rest (.mk m c n [] k)
    | some .cause, .null => readFields rest (.mk m c n d none)
    | some .cause, j => do
        readFields rest (.mk m c n d (some (← readPayload j (k.getD (.mk "" "" false [] none)))))
    | some _, .null => readFields rest (.mk m c n d k)
    | some _, _ => none

end

/-- The default code is filled in at every level. A detail out of the range of
`any` stands as its text in the source, and as it is here. -/
def fromPayload : Error → Error
  | .mk m c n d none =>
    .mk m (if c = "" then codeApplication else c) n (d.map fun j => j.throughAny.getD j) none
  | .mk m c n d (some cause) =>
    .mk m (if c = "" then codeApplication else c) n (d.map fun j => j.throughAny.getD j)
      (some (fromPayload cause))

/-- `Decode`: reads the bytes of a failure. Bytes that are not a version 1
envelope read as a non-retryable `DecodeError`; the decoder's own wording after
the colon is not modelled. -/
def decode (b : Raw) : Error :=
  if b.isEmpty then Error.new "empty failure payload" codeDecode true
  else
    match b.json.bind unmarshalEnvelope with
    | none => Error.new "failure envelope unmarshal: " codeDecode true
    | some env =>
      if env.version ≠ failureEnvelopeVersion then
        Error.new s!"unsupported failure envelope version {env.version}" codeDecode true
      else
        match env.payload.bind (readPayload · (.mk "" "" false [] none)) with
        | none => Error.new "failure payload unmarshal: " codeDecode true
        | some p => fromPayload p

/-! ## Retries -/

structure RetryPolicyJSON where
  initialIntervalMs : Int := 0
  backoffCoefficient : ℚ := 0
  maximumIntervalMs : Int := 0
  maximumAttempts : Int := 0
  nonRetryableErrorTypes : List String := []

/-- Retry knobs, durations in nanoseconds. -/
structure RetryPolicy where
  initialInterval : Int := 0
  backoffCoefficient : ℚ := 0
  maximumInterval : Int := 0
  maximumAttempts : Int := 0
  nonRetryableErrorTypes : List String := []

def wrap (n : Int) : Int := n.bmod (2 ^ 64)

namespace RetryPolicy

def second : Int := 1000000000

/-- `Normalize`: zero fields take the defaults of `DefaultRetryPolicy`. -/
def normalize (p : RetryPolicy) : RetryPolicy :=
  let initial := if p.initialInterval ≤ 0 then second else p.initialInterval
  { initialInterval := initial
    backoffCoefficient := if p.backoffCoefficient < 1 then 2 else p.backoffCoefficient
    maximumInterval := if p.maximumInterval ≤ 0 then wrap (100 * initial) else p.maximumInterval
    maximumAttempts := if p.maximumAttempts < 0 then 0 else p.maximumAttempts
    nonRetryableErrorTypes := p.nonRetryableErrorTypes }

/-- `ShouldRetry`, for a failure at attempt `attempt` (the first is 1). -/
def shouldRetry (p : RetryPolicy) (err : Error) (attempt : Nat) : Bool :=
  let eff := p.normalize
  if 0 < eff.maximumAttempts ∧ eff.maximumAttempts ≤ attempt then false
  else if err.nonRetryable then false
  else !eff.nonRetryableErrorTypes.contains err.code

end RetryPolicy

/-- Attempts when the caller's policy leaves them unset. -/
def defaultMaxActivityAttempts : Int := 10

/-- The policy the server decides with: the wire policy normalized, with a
finite attempt bound. -/
def effectiveRetryPolicy (rp : Option RetryPolicyJSON) : RetryPolicy :=
  let pol : RetryPolicy :=
    match rp with
    | none => {}
    | some rp =>
      { initialInterval := wrap (rp.initialIntervalMs * 1000000)
        backoffCoefficient := rp.backoffCoefficient
        maximumInterval := wrap (rp.maximumIntervalMs * 1000000)
        maximumAttempts := rp.maximumAttempts
        nonRetryableErrorTypes := rp.nonRetryableErrorTypes }
  let eff := pol.normalize
  if eff.maximumAttempts ≤ 0 then { eff with maximumAttempts := defaultMaxActivityAttempts }
  else eff

theorem one_le_maximumAttempts (rp : Option RetryPolicyJSON) :
    1 ≤ (effectiveRetryPolicy rp).maximumAttempts := by
  unfold effectiveRetryPolicy
  dsimp only
  split_ifs with hpos
  · simp [defaultMaxActivityAttempts]
  · omega

theorem attempt_lt_of_shouldRetry {rp : Option RetryPolicyJSON} {err : Error} {attempt : Nat}
    (h : (effectiveRetryPolicy rp).shouldRetry err attempt = true) :
    attempt < (effectiveRetryPolicy rp).maximumAttempts := by
  have hpos := one_le_maximumAttempts rp
  by_contra hge
  have hnorm : (effectiveRetryPolicy rp).normalize.maximumAttempts =
      (effectiveRetryPolicy rp).maximumAttempts := by
    simp only [RetryPolicy.normalize]
    rw [if_neg (by omega)]
  rw [RetryPolicy.shouldRetry, hnorm, if_pos (by omega)] at h
  cases h

end DurableTasks.Temporal
