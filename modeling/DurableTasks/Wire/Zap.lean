import DurableTasks.Wire.Bytes

/-!
The message format of the wire. A message is a header of sixteen bytes and one
object: a fixed section in which a number stands at its own offset and a string
of bytes as an offset, counted from the field itself, and a length, with the
bytes after the section.
-/

namespace DurableTasks.Wire

def zapMagic : Bytes := [0x5a, 0x41, 0x50, 0x00]

def zapVersion : Nat := 1

def zapVersionsAccepted : List Nat := [1, 2]

def headerSize : Nat := 16

/-! ## Writing -/

/-- `Builder`. Past `pos` the buffer is spare room. -/
structure Builder where
  buf : Bytes
  pos : Nat
  rootOffset : Nat := 0
  within : pos ≤ buf.length

namespace Builder

def content (b : Builder) : Bytes := b.buf.take b.pos

def new (capacity : Nat) : Builder :=
  let capacity := if capacity < headerSize then 256 else capacity
  { buf := patch (List.replicate capacity 0) 0 (zapMagic ++ writeLE 2 zapVersion)
    pos := headerSize
    within := by
      simp only [length_patch, List.length_replicate, capacity]
      split_ifs with h
      · decide
      · omega }

def grow (b : Builder) (n : Nat) : Builder :=
  if b.pos + n ≤ b.buf.length then b
  else
    { b with
      buf := b.content ++ List.replicate (max (b.buf.length * 2) (b.pos + n) - b.pos) 0
      within := by
        simp only [content, List.length_append, List.length_take_of_le b.within]
        omega }

def push (b : Builder) (d : Bytes) : Builder :=
  { b with
    buf := patch (b.grow d.length).buf b.pos d
    pos := b.pos + d.length
    within := by
      rw [length_patch, grow]
      split_ifs with h
      · exact h
      · simp only [content, List.length_append, List.length_take_of_le b.within,
          List.length_replicate]
        omega }

/-- `ensureAbs`: zeros up to the position `needed`. -/
def ensureAbs (b : Builder) (needed : Nat) : Builder :=
  if needed > b.pos then b.push (List.replicate (needed - b.pos) 0) else b

def align (b : Builder) (a : Nat) : Builder :=
  b.push (List.replicate ((a - b.pos % a) % a) 0)

def write (b : Builder) (off : Nat) (d : Bytes) : Builder :=
  { b with
    buf := patch b.buf off d
    within := by rw [length_patch]; exact b.within }

def finish (b : Builder) : Bytes :=
  ((b.write 8 (writeLE 4 b.rootOffset)).write 12 (writeLE 4 b.pos)).content

theorem length_content (b : Builder) : b.content.length = b.pos :=
  List.length_take_of_le b.within

theorem take_grow (b : Builder) (n : Nat) : (b.grow n).buf.take b.pos = b.content := by
  unfold grow
  split_ifs
  · rfl
  · exact List.take_left' b.length_content

theorem length_grow (b : Builder) (n : Nat) : b.pos + n ≤ (b.grow n).buf.length := by
  unfold grow
  split_ifs with h
  · exact h
  · simp only [List.length_append, length_content, List.length_replicate]
    omega

/-- However much room there was, what is pushed follows what was written. -/
theorem content_push (b : Builder) (d : Bytes) : (b.push d).content = b.content ++ d := by
  rw [← b.take_grow d.length]
  exact take_patch_end (b.length_grow d.length)

theorem content_write (b : Builder) {off : Nat} {d : Bytes} (h : off + d.length ≤ b.pos) :
    (b.write off d).content = patch b.content off d :=
  take_patch h b.within

theorem content_ensureAbs (b : Builder) (n : Nat) : (b.ensureAbs n).content = pad b.content n := by
  unfold ensureAbs pad
  rw [length_content]
  split_ifs with h
  · exact content_push _ _
  · rw [Nat.sub_eq_zero_of_le (by omega), List.replicate_zero, List.append_nil]

theorem content_new (capacity : Nat) :
    (new capacity).content = zapMagic ++ writeLE 2 zapVersion ++ writeLE 10 0 := by
  unfold new content
  set capacity' := if capacity < headerSize then 256 else capacity
  have hroom : headerSize ≤ capacity' := by
    by_cases h : capacity < headerSize
    · rw [show capacity' = 256 from if_pos h]
      decide
    · rw [show capacity' = capacity from if_neg h]
      exact Nat.le_of_not_lt h
  simp only
  rw [take_patch (by decide) (by simpa using hroom), List.take_replicate, Nat.min_eq_left hroom]
  rfl

theorem finish_eq (b : Builder) (h : headerSize ≤ b.pos) :
    b.finish = patch (patch b.content 8 (writeLE 4 b.rootOffset)) 12 (writeLE 4 b.pos) := by
  unfold headerSize at h
  rw [finish, content_write _ (by exact h), content_write _ (by rw [length_writeLE]; omega)]

end Builder

/-- `ObjectBuilder`. The bytes of its fields wait in `deferred`. -/
structure ObjectBuilder where
  b : Builder
  startPos : Nat
  dataSize : Nat
  deferred : List (Nat × Bytes) := []

def alignment : Nat := 8

def Builder.startObject (b : Builder) (dataSize : Nat) : ObjectBuilder :=
  { b := b.align alignment, startPos := (b.align alignment).pos, dataSize := dataSize }

namespace ObjectBuilder

def ensureField (o : ObjectBuilder) (endOffset : Nat) : ObjectBuilder :=
  { o with b := o.b.ensureAbs (o.startPos + endOffset) }

def write (o : ObjectBuilder) (off : Nat) (d : Bytes) : ObjectBuilder :=
  { o with b := o.b.write (o.startPos + off) d }

def setUint8 (o : ObjectBuilder) (fieldOffset : Nat) (v : UInt8) : ObjectBuilder :=
  (o.ensureField (fieldOffset + 1)).write fieldOffset [v]

def setUint32 (o : ObjectBuilder) (fieldOffset : Nat) (v : UInt32) : ObjectBuilder :=
  (o.ensureField (fieldOffset + 4)).write fieldOffset (writeLE 4 v.toNat)

/-- `setBytes`. The offset of the bytes is filled in by `finish`. -/
def setBytes (o : ObjectBuilder) (fieldOffset : Nat) (v : Bytes) : ObjectBuilder :=
  let o := o.ensureField (fieldOffset + 8)
  if v.isEmpty then (o.write fieldOffset (writeLE 4 0)).write (fieldOffset + 4) (writeLE 4 0)
  else
    { o.write (fieldOffset + 4) (writeLE 4 v.length) with
      deferred := o.deferred ++ [(fieldOffset, v)] }

/-- One deferred field: its bytes go to the end. They come after the field, so
that the offset is not negative. -/
def flush (startPos : Nat) (b : Builder) (e : Nat × Bytes) : Builder :=
  (b.push e.2).write (startPos + e.1) (writeLE 4 (b.pos - (startPos + e.1)))

def finishAsRoot (o : ObjectBuilder) : Builder :=
  { o.deferred.foldl (flush o.startPos) (o.ensureField o.dataSize).b with rootOffset := o.startPos }

structure Is (o : ObjectBuilder) (start size : Nat) (c : Bytes) (later : List (Nat × Bytes)) :
    Prop where
  startPos : o.startPos = start
  dataSize : o.dataSize = size
  content : o.b.content = c
  deferred : o.deferred = later

variable {o : ObjectBuilder} {start size : Nat} {c : Bytes} {later : List (Nat × Bytes)}

theorem Is.ensureField (h : o.Is start size c later) (n : Nat) :
    (o.ensureField n).Is start size (pad c (start + n)) later := by
  refine ⟨h.startPos, h.dataSize, ?_, h.deferred⟩
  rw [ObjectBuilder.ensureField, Builder.content_ensureAbs, h.content, h.startPos]

theorem Is.write (h : o.Is start size c later) {off : Nat} {d : Bytes}
    (hd : start + off + d.length ≤ c.length) :
    (o.write off d).Is start size (patch c (start + off) d) later := by
  refine ⟨h.startPos, h.dataSize, ?_, h.deferred⟩
  rw [ObjectBuilder.write, Builder.content_write, h.content, h.startPos]
  rwa [h.startPos, ← Builder.length_content, h.content]

theorem Is.setUint32 (h : o.Is start size c later) (off : Nat) (v : UInt32) :
    (o.setUint32 off v).Is start size
      (patch (pad c (start + (off + 4))) (start + off) (writeLE 4 v.toNat)) later := by
  refine (h.ensureField (off + 4)).write ?_
  rw [length_writeLE]
  exact le_length_pad _ _

theorem Is.setBytes (h : o.Is start size c later) (off : Nat) {v : Bytes} (hv : v ≠ []) :
    (o.setBytes off v).Is start size
      (patch (pad c (start + (off + 8))) (start + (off + 4)) (writeLE 4 v.length))
      (later ++ [(off, v)]) := by
  have hwrite : ((o.ensureField (off + 8)).write (off + 4) (writeLE 4 v.length)).Is start size
      (patch (pad c (start + (off + 8))) (start + (off + 4)) (writeLE 4 v.length)) later := by
    refine (h.ensureField (off + 8)).write ?_
    rw [length_writeLE]
    exact le_length_pad _ _
  rw [ObjectBuilder.setBytes, if_neg (by simpa using hv)]
  refine ⟨hwrite.startPos, hwrite.dataSize, hwrite.content, ?_⟩
  rw [(h.ensureField (off + 8)).deferred]

def flushed (start : Nat) (c : Bytes) (e : Nat × Bytes) : Bytes :=
  patch (c ++ e.2) (start + e.1) (writeLE 4 (c.length - (start + e.1)))

theorem content_flush (b : Builder) (e : Nat × Bytes) (h : start + e.1 + 4 ≤ b.pos) :
    (flush start b e).content = flushed start b.content e := by
  rw [flush, Builder.content_write, Builder.content_push, flushed, Builder.length_content]
  rw [length_writeLE, Builder.push]
  exact Nat.le_trans h (Nat.le_add_right _ _)

theorem content_foldl_flush (b : Builder) (h : ∀ e ∈ later, start + e.1 + 4 ≤ b.pos) :
    (later.foldl (flush start) b).content = later.foldl (flushed start) b.content := by
  induction later generalizing b with
  | nil => rfl
  | cons e later ih =>
    rw [List.foldl_cons, List.foldl_cons, ← content_flush b e (h e (by simp))]
    refine ih _ fun e' he' => ?_
    exact Nat.le_trans (h e' (by simp [he'])) (Nat.le_add_right _ _)

theorem le_pos_foldl_flush (b : Builder) : b.pos ≤ (later.foldl (flush start) b).pos := by
  induction later generalizing b with
  | nil => exact Nat.le_refl _
  | cons e later ih => exact Nat.le_trans (Nat.le_add_right b.pos e.2.length) (ih (flush start b e))

theorem Is.finish (h : o.Is start size c later) (hc : headerSize ≤ c.length)
    (hlater : ∀ e ∈ later, start + e.1 + 4 ≤ c.length) :
    o.finishAsRoot.finish =
      let whole := later.foldl (flushed start) (pad c (start + size))
      patch (patch whole 8 (writeLE 4 start)) 12 (writeLE 4 whole.length) := by
  set b := (o.ensureField o.dataSize).b
  have hb : b.content = pad c (start + size) := by
    rw [← h.dataSize]
    exact (h.ensureField o.dataSize).content
  have hlen : c.length ≤ b.pos := by
    rw [← b.length_content, hb]
    exact length_le_length_pad _ _
  have hcontent : o.finishAsRoot.content = later.foldl (flushed start) (pad c (start + size)) := by
    have hfields : ∀ e ∈ later, start + e.1 + 4 ≤ b.pos :=
      fun e he => Nat.le_trans (hlater e he) hlen
    rw [← hb, ← content_foldl_flush b hfields, ← h.startPos, ← h.deferred]
    rfl
  have hpos : headerSize ≤ o.finishAsRoot.pos :=
    Nat.le_trans (Nat.le_trans hc hlen) (le_pos_foldl_flush b)
  rw [Builder.finish_eq _ hpos, ← Builder.length_content, hcontent]
  exact congrArg (fun n => patch (patch _ 8 (writeLE 4 n)) 12 _) h.startPos

end ObjectBuilder

/-! ## Reading -/

structure ZapMessage where
  data : Bytes

structure ZapObject where
  data : Bytes
  offset : Nat

namespace ZapMessage

def parse (data : Bytes) : Except String ZapMessage :=
  let version := readLE (slice data 4 2)
  let size := readLE (slice data 12 4)
  if data.length < headerSize then .error "zap: buffer too small"
  else if slice data 0 4 ≠ zapMagic then .error "zap: invalid magic"
  else if version ∉ zapVersionsAccepted then .error s!"zap: unsupported version {version}"
  else if size > data.length then .error "zap: declared size exceeds buffer"
  else .ok ⟨data.take size⟩

theorem parse_eq {data : Bytes} {size : Nat} (hheader : headerSize ≤ data.length)
    (hmagic : slice data 0 4 = zapMagic) (hversion : readLE (slice data 4 2) ∈ zapVersionsAccepted)
    (hsize : readLE (slice data 12 4) = size) (hle : size ≤ data.length) :
    parse data = .ok ⟨data.take size⟩ := by
  rw [parse]
  simp only [hsize]
  rw [if_neg (by omega), if_neg (not_not_intro hmagic), if_neg (not_not_intro hversion),
    if_neg (by omega)]

/-- `root`. The read of the offset is checked against the end of the data. -/
def root (m : ZapMessage) : Except String ZapObject :=
  if m.data.length < 12 then .error "out of range"
  else .ok ⟨m.data, readLE (slice m.data 8 4)⟩

end ZapMessage

def toInt32 (x : Nat) : Int := if x < 2 ^ 31 then x else x - 2 ^ 32

namespace ZapObject

def uint8 (o : ZapObject) (fieldOffset : Nat) : UInt8 := o.data.getD (o.offset + fieldOffset) 0

def uint32 (o : ZapObject) (fieldOffset : Nat) : Nat :=
  if o.offset + fieldOffset + 4 > o.data.length then 0
  else readLE (slice o.data (o.offset + fieldOffset) 4)

def bool (o : ZapObject) (fieldOffset : Nat) : Bool := o.uint8 fieldOffset != 0

def bytes (o : ZapObject) (fieldOffset : Nat) : Bytes :=
  let pos := o.offset + fieldOffset
  let relOffset := toInt32 (readLE (slice o.data pos 4))
  let length := readLE (slice o.data (pos + 4) 4)
  let absPos : Int := pos + relOffset
  if pos + 4 > o.data.length then []
  else if relOffset = 0 then []
  else if pos + 8 > o.data.length then []
  else if absPos < 0 ∨ absPos + length > o.data.length then []
  else slice o.data absPos.toNat length

end ZapObject

/-! ## Whole messages -/

/-- A message whose object begins right after the header, with its fixed section
and the bytes after it in `rest`. -/
def message (flags root size : Nat) (rest : Bytes) : Bytes :=
  zapMagic ++ writeLE 2 zapVersion ++ writeLE 2 flags ++ writeLE 4 root ++ writeLE 4 size ++ rest

section Message

variable {flags root size : Nat} {rest : Bytes}

@[simp] theorem length_message : (message flags root size rest).length = 16 + rest.length := by
  simp only [message, List.length_append, length_writeLE]
  rfl

theorem message_append (d : Bytes) :
    message flags root size rest ++ d = message flags root size (rest ++ d) :=
  List.append_assoc _ _ _

theorem pad_message (n : Nat) :
    pad (message flags root size rest) (16 + n) = message flags root size (pad rest n) := by
  rw [pad, length_message, message_append, Nat.add_sub_add_left]
  rfl

theorem patch_message (off : Nat) (d : Bytes) :
    patch (message flags root size rest) (16 + off) d =
      message flags root size (patch rest off d) := by
  unfold patch
  rw [length_message, Nat.add_sub_add_left, Nat.add_assoc, Nat.add_comm 16, Nat.add_comm 16]
  rfl

theorem slice_message (off n : Nat) :
    slice (message flags root size rest) (16 + off) n = slice rest off n := by
  unfold slice
  rw [Nat.add_comm]
  rfl

theorem patch_header : patch (patch (message flags 0 0 rest) 8 (writeLE 4 root)) 12
    (writeLE 4 size) = message flags root size rest := by
  have hlen : ∀ n, 16 ≤ (message flags n 0 rest).length := fun n => by
    rw [length_message]
    exact Nat.le_add_right 16 _
  rw [patch_eq (Nat.le_trans (show 12 ≤ 16 by decide) (hlen 0))]
  exact patch_eq (l := message flags root 0 rest) (hlen root)

theorem parse_message (hsize : size = 16 + rest.length) (hlt : size < 2 ^ 32) :
    ZapMessage.parse (message flags root size rest) = .ok ⟨message flags root size rest⟩ := by
  have hdeclared : readLE (slice (message flags root size rest) 12 4) = size :=
    (readLE_writeLE 4 size).trans (Nat.mod_eq_of_lt hlt)
  rw [ZapMessage.parse_eq (by simp [headerSize]) rfl (by exact List.mem_cons_self) hdeclared
    (by simp [hsize]), List.take_of_length_le (by simp [hsize])]

theorem root_message :
    ZapMessage.root ⟨message flags 16 size rest⟩ = .ok ⟨message flags 16 size rest, 16⟩ := by
  rw [ZapMessage.root, if_neg (by simp only [length_message]; omega)]
  rfl

/-- An empty object right after the header. -/
theorem startObject_is (capacity size : Nat) :
    ((Builder.new capacity).startObject size).Is 16 size (message 0 0 0 []) [] := by
  refine ⟨?_, rfl, ?_, rfl⟩
  · simp [Builder.startObject, Builder.align, Builder.push, Builder.new, headerSize, alignment]
  · refine (Builder.content_push _ _).trans ?_
    rw [Builder.content_new capacity]
    simp [Builder.new, headerSize, alignment, message, writeLE]

end Message
end DurableTasks.Wire
