import DurableTasks.Wire.Zap

/-!
The acknowledgement of a worker's request. The server writes it with the fields
of an envelope and the workers read the reply of a heartbeat from it, with a
field table of their own: the flag of a cancel request and the status stand at
the same offset.
-/

namespace DurableTasks.Wire

def envelopeStatus : Nat := 8

def envelopeError : Nat := 12

def envelopeObjectSize : Nat := 24

def fieldRespCancelRequested : Nat := 8

def ackFrame (cancelRequested : UInt8) (errMsg : Bytes) (status : UInt32) : Bytes :=
  let obj := (Builder.new 64).startObject envelopeObjectSize
  let obj := obj.setUint32 envelopeStatus status
  let obj := if cancelRequested ≠ 0 then obj.setBytes fieldRespCancelRequested [cancelRequested]
    else obj
  let obj := if errMsg ≠ [] then obj.setBytes envelopeError errMsg else obj
  obj.finishAsRoot.finish

def objectAck (cancelRequested : UInt8) (errMsg : Bytes) (status : UInt32) :
    Except String ZapMessage :=
  ZapMessage.parse (ackFrame cancelRequested errMsg status)

/-- `heartbeatHandler`: never a request to cancel. -/
def heartbeatHandler : Except String ZapMessage := objectAck 0 [] 200

/-- `decodeHeartbeatResp` of the Go worker. An error is a panic: a frame that
does not parse reads as no request. -/
def decodeHeartbeatResp (frame : Bytes) : Except String Bool :=
  match ZapMessage.parse frame with
  | .error _ => .ok false
  | .ok msg => msg.root.map fun root => root.bool fieldRespCancelRequested

def decodeHeartbeatResponse (frame : Bytes) : Except String Bool :=
  (ZapMessage.parse frame).bind fun msg =>
    msg.root.map fun root => root.bool fieldRespCancelRequested

structure Envelope where
  status : Nat
  detail : Bytes

def decodeEnvelope (frame : Bytes) : Except String Envelope :=
  (ZapMessage.parse frame).bind fun msg =>
    msg.root.map fun root =>
      { status := root.uint32 envelopeStatus, detail := root.bytes envelopeError }

/-! ## The bytes of an acknowledgement -/

/-- A message with the fixed section of an envelope without a body: the words at
the status, at the offset of the error and at its length. -/
def words (root size status offset length : Nat) (data : Bytes) : Bytes :=
  zapMagic ++ writeLE 2 zapVersion ++ writeLE 2 0 ++ writeLE 4 root ++ writeLE 4 size ++
    writeLE 8 0 ++ writeLE 4 status ++ writeLE 4 offset ++ writeLE 4 length ++ writeLE 4 0 ++ data

def flagBytes (flag : UInt8) : Bytes := if flag = 0 then [] else [flag]

/-- The word at the status: the offset of the flag's bytes takes its place. -/
def statusWord (flag : UInt8) (status : UInt32) : Nat := if flag = 0 then status.toNat else 16

/-- The word at the error's offset: without an error text, the length of the
flag's bytes. -/
def errorWord (flag : UInt8) (err : Bytes) : Nat :=
  if err = [] then (flagBytes flag).length else 12 + (flagBytes flag).length

def ackSize (flag : UInt8) (err : Bytes) : Nat := 40 + (flagBytes flag ++ err).length

def statusSection (status : Nat) : Bytes :=
  zapMagic ++ writeLE 2 zapVersion ++ writeLE 10 0 ++ writeLE 8 0 ++ writeLE 4 status

@[simp] theorem length_statusSection (status : Nat) : (statusSection status).length = 28 := rfl

theorem setStatus_is (status : UInt32) :
    (((Builder.new 64).startObject envelopeObjectSize).setUint32 envelopeStatus status).Is 16 24
      (statusSection status.toNat) [] :=
  (startObject_is 64 envelopeObjectSize).setUint32 envelopeStatus status

theorem length_words (root size status offset length : Nat) (data : Bytes) :
    (words root size status offset length data).length = 40 + data.length := by
  simp only [words, List.length_append, length_writeLE]
  rfl

theorem words_append (root size status offset length : Nat) (data more : Bytes) :
    words root size status offset length data ++ more =
      words root size status offset length (data ++ more) :=
  List.append_assoc _ _ _

theorem pad_statusSection (status offset length : Nat) :
    pad (statusSection status ++ writeLE 4 offset ++ writeLE 4 length) 40 =
      words 0 0 status offset length [] := rfl

theorem flushed_flag (flag : UInt8) (status offset length : Nat) :
    ObjectBuilder.flushed 16 (words 0 0 status offset length [])
        (fieldRespCancelRequested, [flag]) = words 0 0 16 offset length [flag] := by
  rw [ObjectBuilder.flushed, length_words, words_append]
  rfl

/-- The bytes of an error go after those of the flag. -/
theorem flushed_error (status offset length : Nat) (data err : Bytes) :
    ObjectBuilder.flushed 16 (words 0 0 status offset length data) (envelopeError, err) =
      words 0 0 status (12 + data.length) length (data ++ err) := by
  have hoffset : 40 + data.length - (16 + envelopeError) = 12 + data.length := by
    unfold envelopeError
    omega
  rw [ObjectBuilder.flushed, length_words, words_append, hoffset]
  rfl

theorem ObjectBuilder.Is.words {o : ObjectBuilder} {c data : Bytes} {later : List (Nat × Bytes)}
    {status offset length : Nat} (h : o.Is 16 24 c later) (hc : headerSize ≤ c.length)
    (hlater : ∀ e ∈ later, 16 + e.1 + 4 ≤ c.length)
    (hwhole : later.foldl (flushed 16) (pad c 40) = Wire.words 0 0 status offset length data) :
    o.finishAsRoot.finish = Wire.words 16 (40 + data.length) status offset length data := by
  rw [h.finish hc hlater]
  dsimp only
  rw [hwhole, length_words]
  rfl

/-- The flag and the status share their place, and so do the length of the
flag's bytes and the offset of the error. -/
theorem ackFrame_eq (flag : UInt8) (err : Bytes) (status : UInt32) :
    ackFrame flag err status =
      words 16 (ackSize flag err) (statusWord flag status) (errorWord flag err) err.length
        (flagBytes flag ++ err) := by
  have hstatus := setStatus_is status
  unfold ackFrame ackSize errorWord flagBytes statusWord
  by_cases hflag : flag = 0
  · simp only [hflag, ne_eq, not_true_eq_false, if_false, if_true]
    cases err with
    | nil =>
      simp only [not_true_eq_false, if_false, if_true]
      exact hstatus.words (by simp [headerSize]) (by simp) rfl
    | cons c err =>
      have herr : (ObjectBuilder.setBytes _ envelopeError (c :: err)).Is 16 24
          (statusSection status.toNat ++ writeLE 4 0 ++ writeLE 4 (err.length + 1))
          [(envelopeError, c :: err)] := hstatus.setBytes envelopeError (List.cons_ne_nil c err)
      simp only [reduceCtorEq, not_false_eq_true, if_true, if_false]
      refine herr.words (by simp [headerSize]) (by simp [envelopeError]) ?_
      rw [pad_statusSection, List.foldl_cons, flushed_error]
      rfl
  · have hcancel : (ObjectBuilder.setBytes _ fieldRespCancelRequested [flag]).Is 16 24
        (statusSection status.toNat ++ writeLE 4 1) [(fieldRespCancelRequested, [flag])] :=
      hstatus.setBytes fieldRespCancelRequested (List.cons_ne_nil flag [])
    simp only [hflag, ne_eq, not_false_eq_true, if_true, if_false]
    cases err with
    | nil =>
      simp only [not_true_eq_false, if_false, if_true]
      refine hcancel.words (by simp [headerSize]) (by simp [fieldRespCancelRequested]) ?_
      exact flushed_flag flag status.toNat 1 0
    | cons c err =>
      have herr : (ObjectBuilder.setBytes _ envelopeError (c :: err)).Is 16 24
          (statusSection status.toNat ++ writeLE 4 1 ++ writeLE 4 (err.length + 1))
          [(fieldRespCancelRequested, [flag]), (envelopeError, c :: err)] :=
        hcancel.setBytes envelopeError (List.cons_ne_nil c err)
      simp only [reduceCtorEq, not_false_eq_true, if_true, if_false]
      refine herr.words (by simp [headerSize])
        (by simp [fieldRespCancelRequested, envelopeError]) ?_
      rw [pad_statusSection, List.foldl_cons, List.foldl_cons, flushed_flag, flushed_error]
      rfl

/-! ## What the workers read -/

section Read

variable {size status offset length : Nat} {data : Bytes}

/-- What is left of a message once it is cut to the size it declares, in 32
bits. -/
def cut (size status offset length : Nat) (data : Bytes) : Bytes :=
  (words 16 size status offset length data).take (size % 2 ^ 32)

theorem parse_words (hsize : size = 40 + data.length) :
    ZapMessage.parse (words 16 size status offset length data) =
      .ok ⟨cut size status offset length data⟩ := by
  have hlen : (words 16 size status offset length data).length = size := by
    rw [length_words, hsize]
  refine ZapMessage.parse_eq (by unfold headerSize; omega) rfl (by exact List.mem_cons_self)
    (readLE_writeLE 4 size) ?_
  rw [hlen]
  exact Nat.mod_le _ _

theorem length_cut (hsize : size = 40 + data.length) :
    (cut size status offset length data).length = size % 2 ^ 32 := by
  rw [cut, List.length_take_of_le]
  rw [length_words, ← hsize]
  exact Nat.mod_le _ _

theorem slice_cut {off n : Nat} (h : off + n ≤ size % 2 ^ 32) :
    slice (cut size status offset length data) off n =
      slice (words 16 size status offset length data) off n :=
  slice_take h

theorem parse_cut_short (hsize : size = 40 + data.length) (h : size % 2 ^ 32 < headerSize) :
    ZapMessage.parse (cut size status offset length data) = .error "zap: buffer too small" := by
  rw [ZapMessage.parse]
  simp only [length_cut hsize]
  rw [if_pos h]

theorem parse_cut (hsize : size = 40 + data.length) (h : headerSize ≤ size % 2 ^ 32) :
    ZapMessage.parse (cut size status offset length data) =
      .ok ⟨cut size status offset length data⟩ := by
  have hlen : (cut size status offset length data).length = size % 2 ^ 32 := length_cut hsize
  have hheader : 16 ≤ size % 2 ^ 32 := h
  have hmagic : slice (cut size status offset length data) 0 4 = zapMagic := by
    rw [slice_cut (by omega)]
    rfl
  have hversion : readLE (slice (cut size status offset length data) 4 2) = 1 := by
    rw [slice_cut (by omega)]
    rfl
  have hdeclared : readLE (slice (cut size status offset length data) 12 4) = size % 2 ^ 32 := by
    rw [slice_cut (by omega)]
    exact readLE_writeLE 4 size
  rw [ZapMessage.parse_eq (by omega) hmagic (by simp [hversion, zapVersionsAccepted]) hdeclared
    (by omega), List.take_of_length_le (by omega)]

theorem root_cut (hsize : size = 40 + data.length) (h : headerSize ≤ size % 2 ^ 32) :
    ZapMessage.root ⟨cut size status offset length data⟩ =
      .ok ⟨cut size status offset length data, 16⟩ := by
  unfold headerSize at h
  rw [ZapMessage.root]
  simp only [length_cut hsize]
  rw [if_neg (by omega), slice_cut (by omega)]
  rfl

/-- The flag a worker reads is the low byte of the word at the status. -/
theorem bool_cut :
    ZapObject.bool ⟨cut size status offset length data, 16⟩ fieldRespCancelRequested =
      (decide (24 < size % 2 ^ 32) && (UInt8.ofNat status != 0)) := by
  rw [ZapObject.bool, ZapObject.uint8, List.getD_eq_getElem?_getD, cut]
  rw [show 16 + fieldRespCancelRequested = 24 from rfl, List.getElem?_take]
  split_ifs with h
  · rw [decide_eq_true h]
    rfl
  · rw [decide_eq_false h]
    rfl

theorem uint32_cut (hsize : size = 40 + data.length) (h : 28 ≤ size % 2 ^ 32) :
    ZapObject.uint32 ⟨cut size status offset length data, 16⟩ envelopeStatus =
      status % 2 ^ 32 := by
  rw [ZapObject.uint32]
  simp only [length_cut hsize]
  rw [if_neg (by unfold envelopeStatus; omega), slice_cut (by unfold envelopeStatus; omega)]
  exact readLE_writeLE 4 status

/-- The error a client reads, which is nothing when it does not lie within the
message. -/
theorem bytes_cut (hsize : size = 40 + data.length) (hoffset : 0 < offset)
    (hsmall : offset < 2 ^ 31) :
    ZapObject.bytes ⟨cut size status offset length data, 16⟩ envelopeError =
      if 36 ≤ size % 2 ^ 32 ∧ 28 + offset + length % 2 ^ 32 ≤ size % 2 ^ 32 then
        slice (cut size status offset length data) (28 + offset) (length % 2 ^ 32)
      else [] := by
  rw [ZapObject.bytes]
  simp only [length_cut hsize, show 16 + envelopeError = 28 from rfl]
  by_cases h : 36 ≤ size % 2 ^ 32
  · have hrel : readLE (slice (cut size status offset length data) 28 4) = offset := by
      rw [slice_cut (by omega)]
      exact (readLE_writeLE 4 offset).trans (Nat.mod_eq_of_lt (by omega))
    have hlength : readLE (slice (cut size status offset length data) (28 + 4) 4) =
        length % 2 ^ 32 := by
      rw [slice_cut (by omega)]
      exact readLE_writeLE 4 length
    rw [hrel, hlength, toInt32, if_pos hsmall, if_neg (by omega), if_neg (by omega),
      if_neg (by omega)]
    split_ifs with hout hin
    · omega
    · rfl
    · rfl
    · omega
  · split_ifs <;> first | rfl | omega

end Read

/-! ## The acknowledgement of a heartbeat -/

/-- A frame means what was passed to `objectAck`: both workers read the flag,
and with the flag set the status and the error text survive. -/
structure Conveys (flag : UInt8) (err : Bytes) (status : UInt32) (frame : Bytes) : Prop where
  go : decodeHeartbeatResp frame = .ok (flag != 0)
  typescript : decodeHeartbeatResponse frame = .ok (flag != 0)
  envelope : flag ≠ 0 → decodeEnvelope frame = .ok ⟨status.toNat, err⟩

section Ack

variable (flag : UInt8) (err : Bytes) (status : UInt32)

theorem ackSize_eq : ackSize flag err = 40 + (flagBytes flag ++ err).length := rfl

def ackCut : Bytes :=
  cut (ackSize flag err) (statusWord flag status) (errorWord flag err) err.length
    (flagBytes flag ++ err)

theorem objectAck_eq : objectAck flag err status = .ok ⟨ackCut flag err status⟩ := by
  rw [objectAck, ackFrame_eq]
  exact parse_words (ackSize_eq flag err)

variable {flag err}

theorem decode_short (h : ackSize flag err % 2 ^ 32 < headerSize) :
    decodeHeartbeatResponse (ackCut flag err status) = .error "zap: buffer too small" := by
  rw [decodeHeartbeatResponse, ackCut, parse_cut_short (ackSize_eq flag err) h]
  rfl

theorem decode_ack (h : headerSize ≤ ackSize flag err % 2 ^ 32) :
    let read := decide (24 < ackSize flag err % 2 ^ 32) &&
      UInt8.ofNat (statusWord flag status) != 0
    decodeHeartbeatResp (ackCut flag err status) = .ok read ∧
      decodeHeartbeatResponse (ackCut flag err status) = .ok read := by
  have hsize := ackSize_eq flag err
  rw [decodeHeartbeatResp, decodeHeartbeatResponse, ackCut, parse_cut hsize h]
  simp only [Except.bind, root_cut hsize h, Except.map, bool_cut, and_self]

theorem decode_envelope (h : headerSize ≤ ackSize flag err % 2 ^ 32) :
    decodeEnvelope (ackCut flag err status) =
      .ok ⟨ZapObject.uint32 ⟨ackCut flag err status, 16⟩ envelopeStatus,
        ZapObject.bytes ⟨ackCut flag err status, 16⟩ envelopeError⟩ := by
  have hsize := ackSize_eq flag err
  rw [decodeEnvelope, ackCut, parse_cut hsize h]
  simp only [Except.bind, root_cut hsize h, Except.map]

/-- With the flag set a client reads the error text as long as the message is
counted in 32 bits. -/
theorem decode_error (hflag : flag ≠ 0) :
    ZapObject.bytes ⟨ackCut flag err status, 16⟩ envelopeError = err ↔
      ackSize flag err < 2 ^ 32 := by
  have hbytes : flagBytes flag = [flag] := if_neg hflag
  have hsize : ackSize flag err = 41 + err.length := by
    rw [ackSize, hbytes]
    simp only [List.length_append, List.length_singleton]
    omega
  cases err with
  | nil =>
    have hword : errorWord flag [] = 1 := by rw [errorWord, if_pos rfl, hbytes]; rfl
    rw [ackCut, bytes_cut (ackSize_eq flag []) (by omega) (by omega)]
    simp [slice, hsize]
  | cons c err =>
    have hword : errorWord flag (c :: err) = 13 := by
      rw [errorWord, if_neg (List.cons_ne_nil c err), hbytes]
      rfl
    rw [ackCut, bytes_cut (ackSize_eq flag (c :: err)) (by omega) (by omega), hword]
    constructor
    · intro h
      split_ifs at h with hin
      have hle : (c :: err).length ≤ (c :: err).length % 2 ^ 32 :=
        Nat.le_trans (Nat.le_of_eq (congrArg List.length h).symm) (List.length_take_le _ _)
      omega
    · intro h
      rw [if_pos (by omega), slice_cut (by omega), hbytes, Nat.mod_eq_of_lt (by omega)]
      exact List.take_length

end Ack

theorem ofNat_bne_zero (n : Nat) : (UInt8.ofNat n != 0) = false ↔ n % 256 = 0 := by
  rw [bne_eq_false_iff_eq, ← UInt8.toNat_inj]
  exact Iff.rfl

/-- Without the flag: no worker may read one. -/
theorem conveys_unset (err : Bytes) (status : UInt32) :
    Conveys 0 err status (ackCut 0 err status) ↔
      16 ≤ (40 + err.length) % 2 ^ 32 ∧
        ((40 + err.length) % 2 ^ 32 ≤ 24 ∨ status.toNat % 256 = 0) := by
  have hsize : ackSize 0 err = 40 + err.length := rfl
  rw [← hsize]
  by_cases hheader : headerSize ≤ ackSize 0 err % 2 ^ 32
  · obtain ⟨hgo, hts⟩ := decode_ack status hheader
    have hread : (decide (24 < ackSize 0 err % 2 ^ 32) &&
        UInt8.ofNat (statusWord 0 status) != 0) = false ↔
          ackSize 0 err % 2 ^ 32 ≤ 24 ∨ status.toNat % 256 = 0 := by
      rw [Bool.and_eq_false_iff, decide_eq_false_iff_not, Nat.not_lt, ofNat_bne_zero]
      exact Iff.rfl
    rw [← hread]
    constructor
    · intro h
      exact ⟨hheader, Except.ok.inj (hgo.symm.trans h.go)⟩
    · intro h
      rw [h.2] at hgo hts
      exact ⟨hgo, hts, fun hne => absurd rfl hne⟩
  · constructor
    · intro h
      have hshort := decode_short status (Nat.lt_of_not_le hheader)
      cases hshort.symm.trans h.typescript
    · intro h
      exact absurd h.1 hheader

/-- With the flag: its offset is read as the flag and as the status. -/
theorem conveys_set {flag : UInt8} (hflag : flag ≠ 0) (err : Bytes) (status : UInt32) :
    Conveys flag err status (ackCut flag err status) ↔
      status = 16 ∧ 41 + err.length < 2 ^ 32 := by
  have hsize : ackSize flag err = 41 + err.length := by
    rw [ackSize, flagBytes, if_neg hflag]
    simp only [List.length_append, List.length_singleton]
    omega
  have hword : statusWord flag status = 16 := if_neg hflag
  have hbne : (flag != 0) = true := by simpa using hflag
  constructor
  · intro h
    have hheader : headerSize ≤ ackSize flag err % 2 ^ 32 := by
      by_contra hheader
      have hshort := decode_short status (Nat.lt_of_not_le hheader)
      cases hshort.symm.trans h.typescript
    have henv := Except.ok.inj ((decode_envelope status hheader).symm.trans (h.envelope hflag))
    have hsmall := (decode_error status hflag).mp (congrArg Envelope.detail henv)
    refine ⟨?_, hsize ▸ hsmall⟩
    have hstatus := congrArg Envelope.status henv
    dsimp only at hstatus
    rw [ackCut, uint32_cut (ackSize_eq flag err) (by omega), hword] at hstatus
    exact UInt32.toNat_inj.mp hstatus.symm
  · rintro ⟨rfl, hsmall⟩
    have hsmall' : ackSize flag err < 2 ^ 32 := hsize ▸ hsmall
    have hheader : headerSize ≤ ackSize flag err % 2 ^ 32 := by
      unfold headerSize
      omega
    obtain ⟨hgo, hts⟩ := decode_ack 16 hheader
    rw [decide_eq_true (by omega), hword] at hgo hts
    refine ⟨hbne ▸ hgo, hbne ▸ hts, fun _ => ?_⟩
    rw [decode_envelope 16 hheader, (decode_error 16 hflag).mpr hsmall', ackCut,
      uint32_cut (ackSize_eq flag err) (by omega), hword]
    rfl

/-- The acknowledgement means what it says for exactly these arguments. Without
the flag the low byte of the status is zero or cut off, and the frame is long
enough to parse; with it the status is the offset of the flag's byte. -/
theorem heartbeat_ack_conveys_iff (flag : UInt8) (err : Bytes) (status : UInt32) :
    (∃ msg, objectAck flag err status = .ok msg ∧ Conveys flag err status msg.data) ↔
      if flag = 0 then
        16 ≤ (40 + err.length) % 2 ^ 32 ∧
          ((40 + err.length) % 2 ^ 32 ≤ 24 ∨ status.toNat % 256 = 0)
      else status = 16 ∧ 41 + err.length < 2 ^ 32 := by
  rw [objectAck_eq]
  simp only [Except.ok.injEq, exists_eq_left']
  split_ifs with hflag
  · subst hflag
    exact conveys_unset err status
  · exact conveys_set hflag err status

/-- The acknowledgement of every heartbeat asks both workers to cancel; and with
the flag set a status of 500 is read as 16. -/
theorem heartbeat_ack_requests_cancel :
    (∃ msg, heartbeatHandler = .ok msg ∧ decodeHeartbeatResp msg.data = .ok true ∧
      decodeHeartbeatResponse msg.data = .ok true) ∧
    ∃ msg, objectAck 1 [] 500 = .ok msg ∧ decodeEnvelope msg.data = .ok ⟨16, []⟩ := by
  refine ⟨⟨_, objectAck_eq 0 [] 200, ?_, ?_⟩, _, objectAck_eq 1 [] 500, ?_⟩
  · rfl
  · rfl
  · rfl

end DurableTasks.Wire
