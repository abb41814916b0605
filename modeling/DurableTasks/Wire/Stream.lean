import DurableTasks.Wire.Node

/-!
How a node puts messages together from the chunks of a socket.
-/

namespace DurableTasks.Wire

variable {n n' : ZapNode} {reqId : Option Nat}

theorem slice_append {a b : Bytes} {off n : Nat} (h : off + n ≤ a.length) :
    slice (a ++ b) off n = slice a off n := by
  rw [← slice_take h, List.take_left]

def maxMessage : Nat := 10 * 1024 * 1024

namespace ZapNode

def accept (n : ZapNode) (payload : Bytes) : Except String ZapNode :=
  if n.handshakeDone then n.route payload
  else .ok { n with
    handshakeDone := true
    peerId := (decodeHandshakePeer payload).toOption.getD [] }

/-- The loop of `onData`, with the bytes that are left in `acc`. -/
def drain (n : ZapNode) (acc : Bytes) : Except String (ZapNode × Bytes) :=
  let len := readLE (slice acc 0 4)
  if acc.length < 4 then .ok (n, acc)
  else if len > maxMessage then .ok ({ n with destroyed := true }, acc)
  else if acc.length < 4 + len then .ok (n, acc)
  else (n.accept (slice acc 4 len)).bind fun n => n.drain (acc.drop (4 + len))
termination_by acc.length
decreasing_by rw [List.length_drop]; omega

def onData (s : ZapNode × Bytes) (chunk : Bytes) : Except String (ZapNode × Bytes) :=
  s.1.drain (s.2 ++ chunk)

theorem drain_next (n : ZapNode) {acc : Bytes} {len : Nat} (hread : readLE (slice acc 0 4) = len)
    (hlimit : len ≤ maxMessage) (hle : 4 + len ≤ acc.length) :
    n.drain acc = (n.accept (slice acc 4 len)).bind fun n => n.drain (acc.drop (4 + len)) := by
  rw [drain, if_neg (by omega), if_neg (by omega), if_neg (by omega), hread]

/-- What came first is drained first. -/
theorem drain_append (n : ZapNode) (a b : Bytes) :
    n.drain (a ++ b) = (n.drain a).bind fun s => onData s b := by
  fun_induction drain n a with
  | case1 => rfl
  | case2 n a len h4 hlarge =>
    have hread : readLE (slice (a ++ b) 0 4) = len := by rw [slice_append (by omega)]
    have hle : ¬ (a ++ b).length < 4 := by rw [List.length_append]; omega
    have hdestroyed (n : ZapNode) :
        n.drain (a ++ b) = .ok ({ n with destroyed := true }, a ++ b) := by
      rw [drain, if_neg hle, hread, if_pos hlarge]
    exact (hdestroyed n).trans (hdestroyed { n with destroyed := true }).symm
  | case3 => rfl
  | case4 n a len h4 hlimit hle ih =>
    have hread : readLE (slice (a ++ b) 0 4) = len := by rw [slice_append (by omega)]
    have hshort : 4 + len ≤ a.length := by omega
    rw [drain_next n hread (by omega) (by rw [List.length_append]; omega), slice_append hshort,
      List.drop_append_of_le_length hshort]
    cases n.accept (slice a 4 len) with
    | error e => rfl
    | ok n' => exact ih n'

theorem foldlM_onData (n : ZapNode) (a : Bytes) (chunks : List Bytes) :
    (n.drain a).bind (fun s => chunks.foldlM onData s) = n.drain (a ++ chunks.flatten) := by
  induction chunks generalizing a with
  | nil =>
    rw [List.flatten_nil, List.append_nil]
    exact bind_pure (n.drain a)
  | cons c cs ih =>
    rw [List.flatten_cons, ← List.append_assoc, ← ih, drain_append]
    exact (bind_assoc (n.drain a) (fun s => onData s c) fun s => cs.foldlM onData s).symm

def writeFrame (data : Bytes) : Bytes := writeLE 4 data.length ++ data

theorem drain_writeFrame (n : ZapNode) {data : Bytes} (hlimit : data.length ≤ maxMessage)
    (rest : Bytes) :
    n.drain (writeFrame data ++ rest) = (n.accept data).bind fun n => n.drain rest := by
  have hread : readLE (slice (writeFrame data ++ rest) 0 4) = data.length := by
    have hlt : data.length < 256 ^ 4 := lt_of_le_of_lt hlimit (by decide)
    exact (readLE_writeLE 4 data.length).trans (Nat.mod_eq_of_lt hlt)
  have hle : 4 + data.length ≤ (writeFrame data ++ rest).length := by
    rw [writeFrame, List.length_append, List.length_append, length_writeLE]
    omega
  have hslice : slice (writeFrame data ++ rest) 4 data.length = data := List.take_left
  have hdrop : (writeFrame data ++ rest).drop (4 + data.length) = rest := by
    rw [← List.drop_drop]
    exact List.drop_left
  rw [n.drain_next hread hlimit hle, hslice, hdrop]

end ZapNode

/-- What a peer sends after its handshake. -/
inductive Sent where
  | response (reqId : UInt32) (frame : Bytes)
  | request (reqId : UInt32) (frame : Bytes)
  | push (frame : Bytes)

namespace Sent

def data : Sent → Bytes
  | response reqId frame => writeLE 4 reqId.toNat ++ writeLE 4 reqFlagResp ++ frame
  | request reqId frame => writeLE 4 reqId.toNat ++ writeLE 4 reqFlagReq ++ frame
  | push frame => frame

def deliver (n : ZapNode) : Sent → Except String ZapNode
  | response reqId frame => .ok (n.resolve reqId.toNat frame)
  | request reqId frame => n.dispatch frame (some reqId.toNat)
  | push frame => n.dispatch frame none

/-- A push is a message with an opcode of at least one. -/
def HasOpcode : Sent → Prop
  | push frame => ∃ msg opcode, ZapMessage.parse frame = .ok msg ∧ msg.opcode = .ok opcode ∧
      1 ≤ opcode
  | _ => True

/-- The frame of a request declares the bytes of its opcode. -/
def Complete : Sent → Prop
  | request _ frame => 8 ≤ readLE (slice frame 12 4)
  | _ => True

theorem readLE_le_append (a b : Bytes) : readLE b ≤ readLE (a ++ b) := by
  induction a with
  | nil => exact le_rfl
  | cons x a ih =>
    rw [List.cons_append, readLE]
    omega

theorem readLE_reqId (reqId : UInt32) : readLE (writeLE 4 reqId.toNat) = reqId.toNat :=
  (readLE_writeLE 4 reqId.toNat).trans (Nat.mod_eq_of_lt reqId.toNat_lt)

/-- The opcode of a message is the last byte of the word that a flag would be in. -/
theorem flag_of_opcode {frame : Bytes} {msg : ZapMessage} {opcode : Nat}
    (hparse : ZapMessage.parse frame = .ok msg) (hopcode : msg.opcode = .ok opcode)
    (hone : 1 ≤ opcode) : reqFlagResp < readLE (slice frame 4 4) := by
  obtain ⟨hdata, hlength⟩ := ZapNode.parse_ok hparse
  unfold ZapMessage.opcode at hopcode
  split_ifs at hopcode with h8
  obtain rfl := Except.ok.inj hopcode
  rw [hdata, slice_take (by omega), Nat.shiftRight_eq_div_pow] at hone
  have hword : slice frame 4 4 = slice frame 4 2 ++ slice frame 6 2 := by
    rw [slice, List.take_add (i := 2) (j := 2), List.drop_drop]
    rfl
  have hle := readLE_le_append (slice frame 4 2) (slice frame 6 2)
  rw [← hword] at hle
  exact lt_of_lt_of_le (b := 256) (by decide) (by omega)

theorem route_data (n : ZapNode) {m : Sent} (h : m.HasOpcode) :
    n.route m.data = m.deliver n := by
  cases m with
  | response reqId frame =>
    have hflag : readLE (slice (response reqId frame).data 4 4) = reqFlagResp := rfl
    have hid : readLE (slice (response reqId frame).data 0 4) = reqId.toNat := readLE_reqId reqId
    unfold ZapNode.route
    rw [if_pos ⟨by simp [data]; omega, hflag⟩, hid]
    rfl
  | request reqId frame =>
    have hflag : readLE (slice (request reqId frame).data 4 4) = reqFlagReq := rfl
    have hid : readLE (slice (request reqId frame).data 0 4) = reqId.toNat := readLE_reqId reqId
    unfold ZapNode.route
    rw [if_neg fun h => absurd (hflag.symm.trans h.2) (by decide),
      if_pos ⟨by simp [data]; omega, hflag⟩, hid]
    rfl
  | push frame =>
    obtain ⟨msg, opcode, hparse, hopcode, hone⟩ := h
    have hflag := flag_of_opcode hparse hopcode hone
    unfold ZapNode.route
    exact (if_neg fun h => absurd h.2 hflag.ne').trans
      (if_neg fun h => absurd h.2 (Nat.lt_trans (by decide) hflag).ne')

theorem ack_kept {opcode : Nat} (h : n.ack opcode reqId = .ok n') :
    n'.connected = n.connected ∧ n'.handshakeDone = n.handshakeDone := by
  unfold ZapNode.ack at h
  split at h
  · obtain rfl := Except.ok.inj h
    exact ⟨rfl, rfl⟩
  · split_ifs at h
    obtain rfl := Except.ok.inj h
    exact ⟨rfl, rfl⟩

theorem dispatch_kept {frame : Bytes} (h : n.dispatch frame reqId = .ok n') :
    n'.connected = n.connected ∧ n'.handshakeDone = n.handshakeDone := by
  unfold ZapNode.dispatch at h
  cases hparse : ZapMessage.parse frame with
  | error e =>
    rw [hparse] at h
    obtain rfl := Except.ok.inj h
    exact ⟨rfl, rfl⟩
  | ok msg =>
    rw [hparse] at h
    cases hopcode : msg.opcode with
    | error e => simp [hopcode, Except.bind] at h
    | ok opcode =>
      simp only [hopcode, Except.bind] at h
      have hhandle := n.handle_kept opcode frame
      have hack := ack_kept h
      exact ⟨hack.1.trans hhandle.1, hack.2.trans hhandle.2⟩

theorem deliver_kept {m : Sent} (h : m.deliver n = .ok n') :
    n'.connected = n.connected ∧ n'.handshakeDone = n.handshakeDone := by
  cases m with
  | response reqId frame =>
    obtain rfl := Except.ok.inj h
    unfold ZapNode.resolve
    split <;> exact ⟨rfl, rfl⟩
  | request reqId frame => exact dispatch_kept h
  | push frame => exact dispatch_kept h

theorem deliver_ok (hconnected : n.connected = true) {m : Sent} (h : m.Complete)
    (hopcode : m.HasOpcode) : ∃ n', m.deliver n = .ok n' := by
  cases m with
  | response reqId frame => exact ⟨_, rfl⟩
  | request reqId frame => exact (n.dispatch_ok frame _).2 fun _ _ => ⟨h, .inr hconnected⟩
  | push frame =>
    obtain ⟨msg, opcode, hparse, hop, -⟩ := hopcode
    refine ⟨n.handle opcode frame, ?_⟩
    simp [deliver, ZapNode.dispatch, hparse, hop, Except.bind, ZapNode.ack]

/-- Messages after the handshake are delivered one by one. -/
theorem drain_sent (n : ZapNode) (hdone : n.handshakeDone = true) (msgs : List Sent)
    (hlimit : ∀ m ∈ msgs, m.data.length ≤ maxMessage) (hopcode : ∀ m ∈ msgs, m.HasOpcode) :
    n.drain (msgs.flatMap fun m => ZapNode.writeFrame m.data) =
      (msgs.foldlM deliver n).map fun n' => (n', []) := by
  induction msgs generalizing n with
  | nil =>
    rw [List.flatMap_nil, ZapNode.drain]
    rfl
  | cons m msgs ih =>
    rw [List.flatMap_cons, ZapNode.drain_writeFrame n (hlimit m List.mem_cons_self), ZapNode.accept,
      if_pos hdone, route_data n (hopcode m List.mem_cons_self), List.foldlM_cons]
    cases hdeliver : m.deliver n with
    | error e => rfl
    | ok n' =>
      exact ih n' ((deliver_kept hdeliver).2.trans hdone)
        (fun m hm => hlimit m (List.mem_cons_of_mem _ hm))
        (fun m hm => hopcode m (List.mem_cons_of_mem _ hm))

theorem foldlM_deliver_ok (hconnected : n.connected = true) {msgs : List Sent}
    (h : ∀ m ∈ msgs, m.Complete) (hopcode : ∀ m ∈ msgs, m.HasOpcode) :
    ∃ n', msgs.foldlM deliver n = .ok n' := by
  induction msgs generalizing n with
  | nil => exact ⟨n, rfl⟩
  | cons m msgs ih =>
    obtain ⟨n', hn'⟩ :=
      deliver_ok hconnected (h m List.mem_cons_self) (hopcode m List.mem_cons_self)
    rw [List.foldlM_cons, hn']
    exact ih ((deliver_kept hn').1.trans hconnected)
      (fun m hm => h m (List.mem_cons_of_mem _ hm))
      (fun m hm => hopcode m (List.mem_cons_of_mem _ hm))

end Sent

/-- The bytes of a connection: the handshake and the messages, each with its length. -/
def stream (handshake : Bytes) (msgs : List Sent) : Bytes :=
  ZapNode.writeFrame handshake ++ msgs.flatMap fun m => ZapNode.writeFrame m.data

/-- However the bytes of a connection are cut, the first message is the handshake and
the others are delivered as they were sent, in order. They all are if there is a
socket to acknowledge on and the requests declare their opcodes. -/
theorem reassembles (n : ZapNode) (hstart : n.handshakeDone = false) (handshake : Bytes)
    (msgs : List Sent) (hhandshake : handshake.length ≤ maxMessage)
    (hlimit : ∀ m ∈ msgs, m.data.length ≤ maxMessage) (hopcode : ∀ m ∈ msgs, m.HasOpcode)
    (chunks : List Bytes) (hchunks : chunks.flatten = stream handshake msgs) :
    let greeted := { n with
      handshakeDone := true
      peerId := (decodeHandshakePeer handshake).toOption.getD [] }
    chunks.foldlM ZapNode.onData (n, []) =
        (msgs.foldlM Sent.deliver greeted).map (fun n' => (n', [])) ∧
      (n.connected = true → (∀ m ∈ msgs, m.Complete) →
        ∃ n', msgs.foldlM Sent.deliver greeted = .ok n') := by
  refine ⟨?_, fun hconnected hcomplete =>
    Sent.foldlM_deliver_ok (by exact hconnected) hcomplete hopcode⟩
  have hempty : n.drain [] = .ok (n, []) := by rw [ZapNode.drain]; rfl
  have hfold := n.foldlM_onData [] chunks
  rw [hempty, List.nil_append, hchunks, stream, n.drain_writeFrame hhandshake, ZapNode.accept,
    hstart] at hfold
  exact hfold.trans (Sent.drain_sent _ rfl msgs hlimit hopcode)

/-- A response and a push behind a handshake, cut within the first length. -/
theorem reassembles_cut :
    let n : ZapNode := ⟨[7], fun _ => true, true, [], false, [], false⟩
    let msgs := [.response 7 [], .push (message 0x100 0 16 [])]
    let bytes := stream (encodeHandshake []) msgs
    ([bytes.take 3, bytes.drop 3].foldlM ZapNode.onData (n, [])).toOption.map (·.1.done) =
      some [.resolved 7 [], .handled 1 []] := by
  intro n msgs bytes
  have hpush : (Sent.push (message 0x100 0 16 [])).HasOpcode := ⟨_, 1, rfl, rfl, le_rfl⟩
  have hopcode : ∀ m ∈ msgs, m.HasOpcode := by
    simp only [msgs, List.forall_mem_cons]
    exact ⟨trivial, hpush, by simp⟩
  rw [(reassembles n rfl (encodeHandshake []) msgs (by decide +kernel) (by decide) hopcode
    [bytes.take 3, bytes.drop 3] (by simp [bytes])).1]
  rfl

/-! ## The calls of a node -/

def Routed.call? : Routed → Option Nat
  | .resolved reqId _ => some reqId
  | _ => none

namespace ZapNode

variable {n n' n'' : ZapNode} {s : ZapNode × Bytes} {acc data frame : Bytes} {chunks : List Bytes}

/-- The calls that were resolved, and those that wait. -/
def calls (n : ZapNode) : List Nat := n.done.filterMap Routed.call? ++ n.pending

/-- A call that waited waits still or was resolved, once. -/
def Accounts (n n' : ZapNode) : Prop :=
  n'.pending.Sublist n.pending ∧ (n.pending.Nodup → n'.calls.Perm n.calls)

theorem Accounts.trans (h : Accounts n n') (h' : Accounts n' n'') : Accounts n n'' :=
  ⟨h'.1.trans h.1, fun hn => (h'.2 (hn.sublist h.1)).trans (h.2 hn)⟩

end ZapNode

end DurableTasks.Wire
