import DurableTasks.Wire.Text
import DurableTasks.Wire.Zap

/-!
The TypeScript node: the handshake, and what a message that comes in is taken for.
An exception is an error.
-/

namespace DurableTasks.Wire

/-! ## The handshake -/

def encodeHandshake (nodeId : JsString) : Bytes :=
  let obj := (Builder.new 128).startObject 64
  let idBytes := toUtf8 nodeId
  let obj := (idBytes.take 60).zipIdx.foldl (fun obj x => obj.setUint8 x.2 x.1) obj
  (obj.setUint32 60 (.ofNat idBytes.length)).finishAsRoot.finish

def decodeHandshakePeer (frame : Bytes) : Except String JsString := do
  let root ← (← ZapMessage.parse frame).root
  let len := root.uint32 60
  if len = 0 ∨ len > 60 then pure []
  else pure (ofUtf8 ((List.range len).map root.uint8))

def idSection (id : Bytes) : Bytes :=
  pad (id.take 60) 60 ++ writeLE 4 (UInt32.ofNat id.length).toNat

@[simp] theorem length_idSection (id : Bytes) : (idSection id).length = 64 := by
  rw [idSection, List.length_append, length_writeLE, length_pad (List.length_take_le 60 id)]

theorem setUint8_is {o : ObjectBuilder} {rest : Bytes} (h : o.Is 16 64 (message 0 0 0 rest) [])
    (l : Bytes) :
    ((l.zipIdx rest.length).foldl (fun obj x => obj.setUint8 x.2 x.1) o).Is 16 64
      (message 0 0 0 (rest ++ l)) [] := by
  induction l generalizing o rest with
  | nil => simpa using h
  | cons b l ih =>
    have hset : (o.setUint8 rest.length b).Is 16 64 (message 0 0 0 (rest ++ [b])) [] := by
      have hpad := (h.ensureField (rest.length + 1)).write (show 16 + rest.length + [b].length ≤ _
        from le_length_pad _ _)
      rw [pad_message, patch_message] at hpad
      have hend := patch_pad (Nat.le_refl rest.length) [b]
      rw [show pad rest rest.length = rest by simp [pad]] at hend
      exact hend ▸ hpad
    rw [List.zipIdx_cons, List.foldl_cons]
    simpa using ih hset

theorem encodeHandshake_eq (id : JsString) :
    encodeHandshake id = message 0 16 80 (idSection (toUtf8 id)) := by
  have hid := setUint8_is (startObject_is 128 64) ((toUtf8 id).take 60)
  have hlen := hid.setUint32 60 (.ofNat (toUtf8 id).length)
  rw [pad_message, patch_message, List.nil_append,
    show 60 + 4 = 60 + (writeLE 4 (UInt32.ofNat (toUtf8 id).length).toNat).length from rfl,
    patch_pad (List.length_take_le 60 _)] at hlen
  have hsection : pad (idSection (toUtf8 id)) 64 = idSection (toUtf8 id) := by simp [pad]
  refine (hlen.finish (by simp [headerSize]) (by simp)).trans ?_
  dsimp only [List.foldl_nil]
  rw [pad_message, show pad (pad _ _ ++ _) 64 = _ from hsection, length_message, length_idSection]
  exact patch_header

theorem map_uint8 {flags root size n : Nat} {rest : Bytes} (h : n ≤ rest.length) :
    (List.range n).map (ZapObject.uint8 ⟨message flags root size rest, 16⟩) = rest.take n := by
  refine List.ext_getElem (by simpa using h) fun i hi hi' => ?_
  have hlt : i < rest.length := by
    rw [List.length_take] at hi'
    omega
  rw [List.getElem_map, List.getElem_range, List.getElem_take, ZapObject.uint8,
    List.getD_eq_getElem?_getD, Nat.add_comm]
  show rest[i]?.getD 0 = _
  rw [List.getElem?_eq_getElem hlt]
  rfl

theorem decodeHandshakePeer_eq (id : JsString) :
    let n := (toUtf8 id).length % 2 ^ 32
    decodeHandshakePeer (encodeHandshake id) =
      .ok (if n = 0 ∨ n > 60 then [] else ofUtf8 ((idSection (toUtf8 id)).take n)) := by
  have hlen : ZapObject.uint32 ⟨message 0 16 80 (idSection (toUtf8 id)), 16⟩ 60 =
      (toUtf8 id).length % 2 ^ 32 := by
    rw [ZapObject.uint32, if_neg (by simp), slice_message, slice, idSection,
      List.drop_left' (length_pad (List.length_take_le 60 _))]
    exact (readLE_writeLE 4 _).trans (Nat.mod_eq_of_lt (UInt32.toNat_lt _))
  rw [decodeHandshakePeer, encodeHandshake_eq, parse_message (by simp) (by decide)]
  simp only [root_message, bind, Except.bind, hlen]
  split_ifs with hn
  · rfl
  · rw [map_uint8 (by rw [length_idSection]; omega)]
    rfl

/-- The peer reads the id of the node exactly if it is well formed and has at
most 60 bytes. -/
theorem handshake_carries_id (id : JsString) :
    decodeHandshakePeer (encodeHandshake id) = .ok id ↔
      toWellFormed id = id ∧ (toUtf8 id).length ≤ 60 := by
  rw [decodeHandshakePeer_eq, Except.ok.injEq]
  have hback := ofUtf8_toUtf8 id
  by_cases hlong : (toUtf8 id).length ≤ 60
  · rw [Nat.mod_eq_of_lt (by omega), and_iff_left hlong, ← hback]
    split_ifs with hn
    · rw [List.eq_nil_of_length_eq_zero (hn.resolve_right (by omega)), ofUtf8]
    · rw [idSection, List.take_append_of_le_length
        (by rw [length_pad (List.length_take_le 60 _)]; exact hlong), List.take_of_length_le hlong,
        pad, List.take_left]
  · refine iff_of_false ?_ fun h => hlong h.2
    -- What is read is short, and the id is not.
    have hid := length_toUtf8_le id
    intro h
    have hlen := congrArg List.length h
    split_ifs at hlen with hn
    · simp only [List.length_nil] at hlen
      omega
    · have hread := length_ofUtf8_le ((idSection (toUtf8 id)).take ((toUtf8 id).length % 2 ^ 32))
      have htake := List.length_take_le ((toUtf8 id).length % 2 ^ 32) (idSection (toUtf8 id))
      omega

/-- Two nodes with ids of 61 bytes have no name. -/
theorem long_ids_nameless :
    decodeHandshakePeer (encodeHandshake (List.replicate 61 0x61)) = .ok [] ∧
      decodeHandshakePeer (encodeHandshake (List.replicate 61 0x62)) = .ok [] := by
  decide +kernel

/-! ## Routing -/

def reqFlagReq : Nat := 1

def reqFlagResp : Nat := 2

def ZapMessage.opcode (m : ZapMessage) : Except String Nat :=
  if m.data.length < 8 then .error "out of range" else .ok (readLE (slice m.data 6 2) >>> 8)

def envelopeBody (frame : Bytes) : Except String Bytes := do
  let root ← (← ZapMessage.parse frame).root
  pure (root.bytes 0)

inductive Routed where
  | resolved (reqId : Nat) (frame : Bytes)
  | handled (opcode : Nat) (body : Bytes)
  | acked (reqId opcode : Nat)

/-- A node: the requests that wait, the opcodes with a handler, whether there is a
socket to write to, and what was done. What a handler throws is dropped. -/
structure ZapNode where
  pending : List Nat
  handlers : Nat → Bool
  connected : Bool
  done : List Routed := []
  handshakeDone : Bool := false
  peerId : JsString := []
  destroyed : Bool := false

namespace ZapNode

def resolve (n : ZapNode) (reqId : Nat) (frame : Bytes) : ZapNode :=
  if reqId ∈ n.pending then
    { n with pending := n.pending.filter (· ≠ reqId), done := n.done ++ [.resolved reqId frame] }
  else n

/-- The handler of an opcode is called; a frame that has no body hands over none. -/
def handle (n : ZapNode) (opcode : Nat) (frame : Bytes) : ZapNode :=
  if n.handlers opcode then
    { n with done := n.done ++ [.handled opcode ((envelopeBody frame).toOption.getD [])] }
  else n

def ack (n : ZapNode) (opcode : Nat) : Option Nat → Except String ZapNode
  | none => .ok n
  | some reqId =>
    if n.connected then .ok { n with done := n.done ++ [.acked reqId opcode] }
    else .error "zap: not connected"

def dispatch (n : ZapNode) (frame : Bytes) (reqId : Option Nat) : Except String ZapNode :=
  match ZapMessage.parse frame with
  | .error _ => .ok n
  | .ok msg => msg.opcode.bind fun opcode => (n.handle opcode frame).ack opcode reqId

def route (n : ZapNode) (data : Bytes) : Except String ZapNode :=
  let reqId := readLE (slice data 0 4)
  let flag := readLE (slice data 4 4)
  if 8 ≤ data.length ∧ flag = reqFlagResp then .ok (n.resolve reqId (data.drop 8))
  else if 8 ≤ data.length ∧ flag = reqFlagReq then n.dispatch (data.drop 8) (some reqId)
  else n.dispatch data none

end ZapNode

/-- The bytes at a place of the data. A read outside it fails. -/
def within (data : Bytes) (pos n : Nat) : Except String Bytes :=
  if pos + n > data.length then .error "out of range" else .ok (slice data pos n)

theorem within_eq {data : Bytes} {pos n : Nat} (h : pos + n ≤ data.length) :
    within data pos n = .ok (slice data pos n) := if_neg (Nat.not_lt.2 h)

namespace ZapObject

variable (o : ZapObject) (n fieldOffset : Nat)

/-- `uint8`, `uint16` and `uint32`, with `n` bytes, read by read. -/
def uintWithin : Except String Nat :=
  if o.offset + fieldOffset + n > o.data.length then .ok 0
  else (within o.data (o.offset + fieldOffset) n).map readLE

/-- `bytes`, read by read. -/
def bytesWithin : Except String Bytes := do
  let pos := o.offset + fieldOffset
  if pos + 4 > o.data.length then pure []
  else
    let relOffset := toInt32 (readLE (← within o.data pos 4))
    if relOffset = 0 then pure []
    else if pos + 8 > o.data.length then pure []
    else
      let length := readLE (← within o.data (pos + 4) 4)
      if (pos : Int) + relOffset < 0 ∨ (pos : Int) + relOffset + length > o.data.length then pure []
      else within o.data ((pos : Int) + relOffset).toNat length

theorem uintWithin_eq : o.uintWithin n fieldOffset =
    .ok (if o.offset + fieldOffset + n > o.data.length then 0
      else readLE (slice o.data (o.offset + fieldOffset) n)) := by
  unfold uintWithin
  split_ifs with h
  · rfl
  · rw [within_eq (Nat.not_lt.1 h)]
    rfl

theorem uint8Within_eq : o.uintWithin 1 fieldOffset = .ok (o.uint8 fieldOffset).toNat := by
  rw [uintWithin_eq, uint8, List.getD_eq_getElem?_getD]
  split_ifs with h
  · rw [List.getElem?_eq_none (by omega)]
    rfl
  · have hlt : o.offset + fieldOffset < o.data.length := by omega
    rw [List.getElem?_eq_getElem hlt, slice, List.drop_eq_getElem_cons hlt]
    rfl

theorem bytesWithin_eq : o.bytesWithin fieldOffset = .ok (o.bytes fieldOffset) := by
  unfold bytesWithin bytes
  by_cases h4 : o.offset + fieldOffset + 4 > o.data.length
  · simp only [if_pos h4]
    rfl
  simp only [if_neg h4, within_eq (Nat.not_lt.1 h4), bind, Except.bind]
  by_cases h8 : o.offset + fieldOffset + 8 > o.data.length
  · simp only [if_pos h8, ite_self]
    rfl
  have hlength : o.offset + fieldOffset + 4 + 4 ≤ o.data.length := by omega
  simp only [if_neg h8, within_eq hlength]
  split_ifs with h0 hout
  · rfl
  · rfl
  · exact within_eq (by omega)

end ZapObject

namespace ZapNode

/-- A frame that is accepted declares at least the bytes of its opcode, and a
request comes while there is a socket. -/
def Takes (n : ZapNode) (frame : Bytes) (reqId : Option Nat) : Prop :=
  ∀ msg, ZapMessage.parse frame = .ok msg →
    8 ≤ readLE (slice frame 12 4) ∧ (reqId = none ∨ n.connected = true)

/-- The condition on the message as a whole; a response is not opened. -/
def Withstands (n : ZapNode) (data : Bytes) : Prop :=
  let reqId := readLE (slice data 0 4)
  let flag := readLE (slice data 4 4)
  if 8 ≤ data.length ∧ flag = reqFlagResp then True
  else if 8 ≤ data.length ∧ flag = reqFlagReq then n.Takes (data.drop 8) (some reqId)
  else n.Takes data none

theorem handle_kept (n : ZapNode) (opcode : Nat) (frame : Bytes) :
    (n.handle opcode frame).connected = n.connected ∧
      (n.handle opcode frame).handshakeDone = n.handshakeDone := by
  unfold handle
  split <;> exact ⟨rfl, rfl⟩

theorem ack_ok (n : ZapNode) (opcode : Nat) (reqId : Option Nat) :
    (∃ n', n.ack opcode reqId = .ok n') ↔ reqId = none ∨ n.connected = true := by
  cases reqId with
  | none => simp [ack]
  | some reqId => cases h : n.connected <;> simp [ack, h]

theorem parse_ok {frame : Bytes} {msg : ZapMessage} (h : ZapMessage.parse frame = .ok msg) :
    msg.data = frame.take (readLE (slice frame 12 4)) ∧
      msg.data.length = readLE (slice frame 12 4) := by
  unfold ZapMessage.parse at h
  dsimp only at h
  split_ifs at h with hheader hmagic hversion hsize
  cases h
  exact ⟨rfl, List.length_take_of_le (Nat.not_lt.1 hsize)⟩

theorem dispatch_ok (n : ZapNode) (frame : Bytes) (reqId : Option Nat) :
    (∃ n', n.dispatch frame reqId = .ok n') ↔ n.Takes frame reqId := by
  unfold dispatch Takes
  cases hparse : ZapMessage.parse frame with
  | error e => simp
  | ok msg =>
    have hlength := (parse_ok hparse).2
    simp only [Except.ok.injEq, forall_eq']
    unfold ZapMessage.opcode
    by_cases h : msg.data.length < 8
    · simp [h, Except.bind]
      omega
    · simp only [if_neg h, Except.bind, ack_ok, (n.handle_kept _ _).1]
      exact ⟨fun hack => ⟨by omega, hack⟩, fun htakes => htakes.2⟩

theorem hostile_frames (n : ZapNode) (data : Bytes) :
    ((∃ n', n.route data = .ok n') ↔ n.Withstands data) ∧
    ∀ frame msg, ZapMessage.parse frame = .ok msg →
      msg.data = frame.take (readLE (slice frame 12 4)) ∧
      msg.data.length = readLE (slice frame 12 4) ∧
      ∀ o : ZapObject, o.data = msg.data → ∀ fieldOffset,
        (∀ k, ∃ v, o.uintWithin k fieldOffset = .ok v) ∧
        o.uintWithin 1 fieldOffset = .ok (o.uint8 fieldOffset).toNat ∧
        o.uintWithin 4 fieldOffset = .ok (o.uint32 fieldOffset) ∧
        o.bytesWithin fieldOffset = .ok (o.bytes fieldOffset) := by
  refine ⟨?_, fun frame msg hparse => ⟨(parse_ok hparse).1, (parse_ok hparse).2,
    fun o _ fieldOffset => ⟨fun k => ⟨_, o.uintWithin_eq k fieldOffset⟩,
      o.uint8Within_eq fieldOffset, o.uintWithin_eq 4 fieldOffset, o.bytesWithin_eq fieldOffset⟩⟩⟩
  unfold route Withstands
  dsimp only
  split_ifs
  · simp
  · exact n.dispatch_ok _ _
  · exact n.dispatch_ok _ _

/-- A header that declares no bytes is accepted, and its opcode is not there. -/
theorem empty_message_throws :
    ZapNode.route ⟨[], fun _ => false, true, [], true, [], false⟩
      [0x5a, 0x41, 0x50, 0, 1, 0, 0, 1, 0, 0, 0, 0, 0, 0, 0, 0] = .error "out of range" :=
  rfl

end ZapNode

end DurableTasks.Wire
