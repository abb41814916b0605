import DurableTasks.Sdk.Temporal

/-!
The failure envelope in Go and in TypeScript. Both JSON libraries are taken to be
right: Go's reads no document nested deeper than `maxNesting`, and `stack` is how
deep the calls of the TypeScript side, `JSON.stringify` among them, can nest. The
text JavaScript makes of a value is not modelled, but where it makes none.
-/

namespace DurableTasks

namespace Temporal

/-- An error as a decoder leaves it: every level has a code, and details are
read back as they are. -/
def Error.Decoded : Error → Prop
  | .mk _ code _ details none => code ≠ "" ∧ ∀ j ∈ details, j.throughAny = some j
  | .mk _ code _ details (some cause) =>
    (code ≠ "" ∧ ∀ j ∈ details, j.throughAny = some j) ∧ cause.Decoded

/-- The fields both encoders write, those that are empty left out. -/
def payloadFields (message code : String) (nonRetryable : Bool) (details : List Json) :
    List (String × Json) :=
  [("message", .str message), ("code", .str (if code = "" then codeApplication else code))] ++
    (if nonRetryable then [("nonRetryable", .bool true)] else []) ++
    if details.isEmpty then [] else [("details", .arr details)]

/-- `toPayload` of an `*Error`, encoded. Details that are JSON need no
replacement. -/
def toPayload : Error → Json
  | .mk m c n d none => .obj (payloadFields m c n d)
  | .mk m c n d (some cause) => .obj (payloadFields m c n d ++ [("cause", toPayload cause)])

/-- The document both sides write around a payload. -/
def envelope (payload : Json) : Json :=
  .obj [("v", .num failureEnvelopeVersion), ("p", payload)]

def Error.detailDepth : Error → Nat
  | .mk _ _ _ d none => Json.depthElems d
  | .mk _ _ _ d (some cause) => max (Json.depthElems d) cause.detailDepth

/-- `Encode`. What is marshalled already, a detail or the payload, is scanned once
more as part of what it stands in. -/
def encode (e : Error) : Except String Json :=
  let payload :=
    if Json.maxNesting < e.detailDepth then
      toPayload (.new "failed to encode failure: exceeded max depth" codeDecode true)
    else toPayload e
  if Json.maxNesting < payload.depth then throw "exceeded max depth"
  else return envelope payload

end Temporal

namespace TypeScript

open Temporal

/-- `TaskError`. What the decoder finds it takes over whatever its type, and
`Error` makes a text of the message. -/
inductive TaskError where
  | mk (message : Option Json) (code nonRetryable : Json) (details : List Json)
      (cause : Option TaskError)

def decodeError (message : String) : TaskError :=
  .mk (some (.str message)) (.str codeDecode) (.bool true) [] none

/-- A property after `JSON.parse`: of two with one name the last. -/
def property (j : Json) (k : String) : Option Json :=
  match j with
  | .obj fields => fields.foldl (fun found f => if f.1 = k then some f.2 else found) none
  | _ => none

/-- Numbers are `float64` values, `none` being infinite. -/
def truthy : Json → Bool
  | .null => false
  | .bool b => b
  | .num q | .real q => Float64.ofRat q ≠ some 0
  | .str s => s ≠ ""
  | _ => true

mutual

/-- A property `toString` of its own, which is not a function, leaves an object
without a text. -/
def hasText : Nat → Json → Bool
  | _, .obj fields => fields.all fun f => f.1 ≠ "toString"
  | 0, .arr _ => false
  | stack + 1, .arr elems => haveText stack elems
  | _, _ => true

def haveText : Nat → List Json → Bool
  | _, [] => true
  | stack, j :: rest => hasText stack j && haveText stack rest

end

/-- `none` where the stack overflows. -/
def toPayload : Nat → Error → Option Json
  | 0, _ => none
  | _ + 1, .mk m c n d none => some (.obj (payloadFields m c n d))
  | stack + 1, .mk m c n d (some cause) => do
      return .obj (payloadFields m c n d ++ [("cause", ← toPayload stack cause)])

def encodeFailure (stack : Nat) (e : Error) : Json :=
  (((toPayload stack e).map envelope).filter fun env => env.depth ≤ stack).getD
    (envelope (.obj (payloadFields "failed to encode failure" codeDecode true [])))

def fromPayload (stack : Nat) (payload : Option Json) : Except String (Option TaskError) :=
  match payload with
  | none => return none
  | some p =>
    if truthy p then
      match stack with
      | 0 => throw "Maximum call stack size exceeded"
      | stack + 1 => do
        let cause ← fromPayload stack (property p "cause")
        if (property p "message").all (hasText stack) then
          return some (.mk (property p "message")
            (((property p "code").filter truthy).getD (.str codeApplication))
            (match property p "nonRetryable" with
              | none | some .null => .bool false
              | some j => j)
            (match property p "details" with
              | some (.arr l) => l
              | _ => [])
            cause)
        else throw "Cannot convert object to primitive value"
    else return none

def isVersion : Option Json → Bool
  | some (.num q) | some (.real q) => Float64.ofRat q = some 1
  | _ => false

def decodeFailure (stack : Nat) (b : Raw) : Except String TaskError :=
  if b.isEmpty then return decodeError "empty failure payload"
  else
    match b.json with
    | none => return decodeError "failure envelope unmarshal: "
    | some .null => throw "Cannot read properties of null (reading 'v')"
    | some env =>
      if isVersion (property env "v") then do
        return (← fromPayload stack (property env "p")).getD (decodeError "nil failure payload")
      else if (property env "v").all (hasText stack) then
        return decodeError "unsupported failure envelope version "
      else throw "Cannot convert object to primitive value"

/-! ## Malformed bytes -/

/-- The messages along the chain of causes have a text, and the chain fits the
stack. -/
def Chained : Nat → Json → Bool
  | 0, _ => false
  | stack + 1, p =>
    (property p "message").all (hasText stack) &&
      ((property p "cause").filter truthy).all (Chained stack)

variable {stack : Nat} {b : Raw} {p env : Json} {o : Option Json}

theorem fromPayload_of_falsy (h : o.filter truthy = none) : fromPayload stack o = .ok none := by
  cases o with
  | none => cases stack <;> rfl
  | some p => cases stack <;> simp_all [fromPayload, Option.filter_eq_none_iff] <;> rfl

def ofError : Error → TaskError
  | .mk m c n d none => .mk (some (.str m)) (.str c) (.bool n) d none
  | .mk m c n d (some cause) => .mk (some (.str m)) (.str c) (.bool n) d (some (ofError cause))

theorem depthFields_append (l l' : List (String × Json)) :
    Json.depthFields (l ++ l') = max (Json.depthFields l) (Json.depthFields l') := by
  induction l with
  | nil => simp [Json.depthFields]
  | cons f l ih => simp [Json.depthFields, ih, max_assoc]

theorem depth_toPayload {m c : String} {n : Bool} {d : List Json} {cause : Error} :
    (Temporal.toPayload (.mk m c n d (some cause))).depth =
      max (Json.depthFields (payloadFields m c n d)) (Temporal.toPayload cause).depth + 1 := by
  simp [Temporal.toPayload, Json.depth, depthFields_append, Json.depthFields]

/-- The fields a payload is written with are read back, whatever follows them. -/
theorem readFields_payloadFields {m c : String} {n : Bool} {d : List Json} (hc : c ≠ "")
    (rest : List (String × Json)) :
    readFields (payloadFields m c n d ++ rest) (.mk "" "" false [] none) =
      readFields rest (.mk m c n d none) := by
  have hmessage : payloadField "message" = some .message := rfl
  have hcode : payloadField "code" = some .code := rfl
  have hretry : payloadField "nonRetryable" = some .nonRetryable := rfl
  have hdetails : payloadField "details" = some .details := rfl
  cases n <;> cases d <;> simp [payloadFields, readFields, *]

theorem read_toPayload {e : Error} (h : e.Decoded) :
    readPayload (Temporal.toPayload e) (.mk "" "" false [] none) = some e := by
  fun_induction Temporal.toPayload e with
  | case1 m c n d =>
    have hread := readFields_payloadFields (m := m) (n := n) (d := d) h.1 []
    simpa [readPayload, readFields] using hread
  | case2 m c n d cause ih =>
    obtain ⟨fields, hfields⟩ : ∃ fields, Temporal.toPayload cause = .obj fields := by
      unfold Temporal.toPayload
      split <;> exact ⟨_, rfl⟩
    have hread : readFields fields (.mk "" "" false [] none) = some cause := by
      rw [← ih h.2, hfields, readPayload]
    have hcause : payloadField "cause" = some .cause := rfl
    simp [hfields, readPayload, readFields_payloadFields h.1.1, readFields, hcause, hread]

theorem fromPayload_of_decoded {e : Error} (h : e.Decoded) : Temporal.fromPayload e = e := by
  have hd : ∀ {d : List Json}, (∀ j ∈ d, j.throughAny = some j) →
      (d.map fun j => j.throughAny.getD j) = d := by
    intro d hd
    exact (List.map_congr_left fun j hj => by rw [hd j hj]; rfl).trans (List.map_id d)
  fun_induction Temporal.fromPayload e with
  | case1 m c n d => rw [if_neg h.1, hd h.2]
  | case2 m c n d cause ih => rw [if_neg h.1.1, hd h.1.2, ih h.2]

theorem detailDepth_le (e : Error) : e.detailDepth ≤ (Temporal.toPayload e).depth := by
  have hd : ∀ (m c : String) (n : Bool) (d : List Json),
      Json.depthElems d ≤ Json.depthFields (payloadFields m c n d) := by
    intro m c n d
    cases n <;> cases d <;> simp [payloadFields, Json.depthFields, Json.depth, Json.depthElems]
  fun_induction Error.detailDepth e with
  | case1 m c n d => exact Nat.le_succ_of_le (hd m c n d)
  | case2 m c n d cause ih =>
    rw [depth_toPayload]
    have := hd m c n d
    omega

theorem fromPayload_payloadFields {m c : String} {n : Bool} {d : List Json} {k : Option TaskError}
    (hc : c ≠ "") (hk : fromPayload stack o = .ok k) :
    fromPayload (stack + 1) (some (.obj (payloadFields m c n d ++ o.toList.map ("cause", ·)))) =
      .ok (some (.mk (some (.str m)) (.str c) (.bool n) d k)) := by
  have hcode : (Option.filter truthy (some (.str c))).getD (.str codeApplication) = .str c := by
    rw [Option.filter_some_pos (by simpa [truthy] using hc)]
    rfl
  cases n <;> cases d <;> cases o <;>
    simp_all [fromPayload, payloadFields, property, truthy, hasText, bind, Except.bind, pure,
      Except.pure]

/-- TypeScript writes and reads a payload that the stack is deep enough for. -/
theorem payload_survives {e : Error} (h : e.Decoded) (hs : (Temporal.toPayload e).depth ≤ stack) :
    toPayload stack e = some (Temporal.toPayload e) ∧
      fromPayload stack (some (Temporal.toPayload e)) = .ok (some (ofError e)) := by
  fun_induction toPayload stack e with
  | case1 e =>
    unfold Temporal.toPayload at hs
    split at hs <;> simp [Json.depth] at hs
  | case2 stack m c n d =>
    have hnone : fromPayload stack none = .ok none := fromPayload_of_falsy rfl
    have hfrom := fromPayload_payloadFields (m := m) (n := n) (d := d) h.1 hnone
    exact ⟨rfl, by simpa [Temporal.toPayload, ofError] using hfrom⟩
  | case3 stack m c n d cause ih =>
    rw [depth_toPayload] at hs
    obtain ⟨hto, hfrom⟩ := ih h.2 (by omega)
    refine ⟨?_, fromPayload_payloadFields h.1.1 hfrom⟩
    simp [hto, Temporal.toPayload]

/-- Both sides can write and read the failure, and give it back the same
whichever side wrote it and whichever reads it. -/
def Survives (stack : Nat) (text : String) (e : Error) : Prop :=
  ∃ doc, encode e = .ok doc ∧
    (decode ⟨text, some doc⟩ = e ∧
      decodeFailure stack ⟨text, some (encodeFailure stack e)⟩ = .ok (ofError e)) ∧
    decode ⟨text, some (encodeFailure stack e)⟩ = e ∧
      decodeFailure stack ⟨text, some doc⟩ = .ok (ofError e)

theorem depth_envelope (p : Json) : (envelope p).depth = p.depth + 1 := by
  simp [envelope, Json.depth, Json.depthFields]

theorem decode_envelope {text : String} {e : Error} (ht : text ≠ "")
    (h : p.depth < Json.maxNesting)
    (hread : readPayload p (.mk "" "" false [] none) = some e) :
    decode ⟨text, some (envelope p)⟩ = Temporal.fromPayload e := by
  have henv : unmarshalEnvelope (envelope p) = some ⟨1, some p⟩ := by
    have hv : fieldOf [("v", EnvelopeField.version), ("p", .payload)] "v" = some .version := rfl
    have hp : fieldOf [("v", EnvelopeField.version), ("p", .payload)] "p" = some .payload := rfl
    have hfits : ¬Json.maxNesting < (envelope p).depth := by
      rw [depth_envelope]
      omega
    unfold unmarshalEnvelope
    rw [if_neg hfits]
    simp [envelope, readEnvelope, hv, hp, failureEnvelopeVersion]
  simp [decode, Raw.isEmpty, ht, henv, failureEnvelopeVersion, hread]

theorem decodeFailure_envelope {text : String} {e : TaskError} (ht : text ≠ "")
    (h : fromPayload stack (some p) = .ok (some e)) :
    decodeFailure stack ⟨text, some (envelope p)⟩ = .ok e := by
  have hone : Float64.ofRat 1 = some 1 := by decide +kernel
  simp [decodeFailure, Raw.isEmpty, ht, envelope, failureEnvelopeVersion, isVersion, property, hone,
    h]

/-- A failure survives if its envelope is nested no deeper than Go scans and than
the calls of TypeScript can nest. -/
theorem failures_survive {e : Error} (h : e.Decoded) (text : String) (ht : text ≠ "")
    {stack : Nat} (hgo : (Temporal.toPayload e).depth < Json.maxNesting)
    (hs : (Temporal.toPayload e).depth < stack) : Survives stack text e := by
  obtain ⟨hto, hfrom⟩ := payload_survives h hs.le
  have hdetails := detailDepth_le e
  have hencode : encode e = .ok (envelope (Temporal.toPayload e)) := by
    simp only [encode, if_neg (show ¬Json.maxNesting < e.detailDepth by omega),
      if_neg (show ¬Json.maxNesting < (Temporal.toPayload e).depth by omega)]
    rfl
  have hsame : encodeFailure stack e = envelope (Temporal.toPayload e) := by
    have hfits : (envelope (Temporal.toPayload e)).depth ≤ stack := by
      rw [depth_envelope]
      exact hs
    rw [encodeFailure, hto, Option.map_some, Option.filter_some_pos (by simpa using hfits),
      Option.getD_some]
  have hdecode : decode ⟨text, some (envelope (Temporal.toPayload e))⟩ = e := by
    rw [decode_envelope ht hgo (read_toPayload h), fromPayload_of_decoded h]
  have hfailure := decodeFailure_envelope ht hfrom
  refine ⟨_, hencode, ?_⟩
  rw [hsame]
  exact ⟨⟨hdecode, hfailure⟩, hdecode, hfailure⟩

def timeout : Error :=
  .mk "timed out" "TimeoutError" true [.str "heartbeat", .null]
    (some (.mk "no route" codeApplication false [] none))

theorem timeout_survives :
    (timeout.Decoded ∧ (Temporal.toPayload timeout).depth = 2) ∧
      Survives 5000 "bytes" timeout := by
  have h : timeout.Decoded := by
    simp [timeout, Error.Decoded, codeApplication, Json.throughAny]
  have hdepth : (Temporal.toPayload timeout).depth = 2 := by decide
  refine ⟨⟨h, hdepth⟩, failures_survive h "bytes" (by decide) ?_ ?_⟩
  · rw [hdepth]
    decide
  · rw [hdepth]
    decide

def chain : Nat → Error
  | 0 => .mk "m" codeApplication false [] none
  | n + 1 => .mk "m" codeApplication false [] (some (chain n))

theorem decoded_chain (n : Nat) : (chain n).Decoded := by
  induction n with
  | zero => simp [chain, Error.Decoded, codeApplication]
  | succ n ih => simp [chain, Error.Decoded, codeApplication, ih]

theorem toPayload_chain (stack : Nat) : toPayload stack (chain stack) = none := by
  induction stack with
  | zero => rfl
  | succ stack ih => simp [chain, toPayload, ih]

theorem depth_chain (n : Nat) : (Temporal.toPayload (chain n)).depth = n + 1 := by
  induction n with
  | zero => rfl
  | succ n ih =>
    rw [chain, depth_toPayload, ih]
    simp [payloadFields, Json.depthFields, Json.depth]

theorem detailDepth_chain (n : Nat) : (chain n).detailDepth = 0 := by
  induction n with
  | zero => rfl
  | succ n ih => simp [chain, Error.detailDepth, ih, Json.depthElems]

/-- A chain longer than the stack is written as a failure to write it, and Go
writes no chain beyond its limit. -/
theorem long_chains_lost :
    (∀ stack, (chain (stack + 1)).Decoded ∧
      decodeFailure (stack + 1) ⟨"bytes", some (encodeFailure (stack + 1) (chain (stack + 1)))⟩ =
        .ok (decodeError "failed to encode failure") ∧
      ¬Survives (stack + 1) "bytes" (chain (stack + 1))) ∧
    encode (chain Json.maxNesting) = .error "exceeded max depth" := by
  refine ⟨fun stack => ?_, ?_⟩
  · have hsame : encodeFailure (stack + 1) (chain (stack + 1)) =
        envelope (.obj (payloadFields "failed to encode failure" codeDecode true [])) := by
      rw [encodeFailure, toPayload_chain]
      rfl
    have hlost : decode ⟨"bytes", some (encodeFailure (stack + 1) (chain (stack + 1)))⟩ =
        .mk "failed to encode failure" codeDecode true [] none := by
      rw [hsame]
      rfl
    refine ⟨decoded_chain _, ?_, ?_⟩
    · rw [hsame]
      have hread := payload_survives
        (e := .mk "failed to encode failure" codeDecode true [] none) ⟨by decide, by simp⟩
        (Nat.succ_le_succ (Nat.zero_le stack))
      exact decodeFailure_envelope (by decide) hread.2
    · rintro ⟨_, -, -, hsurvives, -⟩
      have hmessage := hlost.symm.trans hsurvives
      simp [chain] at hmessage
  · simp [encode, detailDepth_chain, depth_chain, throw, throwThe, MonadExceptOf.throw]

end TypeScript

end DurableTasks
