import Mathlib.Algebra.Order.Ring.Nat
import Mathlib.Data.List.Basic

/-!
Strings of bytes: little-endian numbers, windows, and writing over a part.
-/

namespace DurableTasks.Wire

abbrev Bytes := List UInt8

/-- The low `n` bytes of `x`, lowest first. -/
def writeLE : Nat → Nat → Bytes
  | 0, _ => []
  | n + 1, x => UInt8.ofNat x :: writeLE n (x / 256)

def readLE : Bytes → Nat
  | [] => 0
  | b :: l => b.toNat + 256 * readLE l

@[simp] theorem length_writeLE (n x : Nat) : (writeLE n x).length = n := by
  induction n generalizing x with
  | zero => rfl
  | succ n ih => simp [writeLE, ih]

theorem readLE_writeLE (n x : Nat) : readLE (writeLE n x) = x % 256 ^ n := by
  induction n generalizing x with
  | zero => simp [writeLE, readLE, Nat.mod_one]
  | succ n ih =>
    rw [writeLE, readLE, ih, Nat.pow_succ', Nat.mod_mul]
    rfl

/-- The `n` bytes from `off` on, as far as they are there. -/
def slice (l : Bytes) (off n : Nat) : Bytes := (l.drop off).take n

theorem slice_take {l : Bytes} {off n k : Nat} (h : off + n ≤ k) :
    slice (l.take k) off n = slice l off n := by
  rw [slice, slice, List.drop_take, List.take_take]
  congr 1
  omega

/-- Write `d` over the bytes from `off` on, within the bounds of `l`. -/
def patch (l : Bytes) (off : Nat) (d : Bytes) : Bytes :=
  l.take off ++ d.take (l.length - off) ++ l.drop (off + d.length)

@[simp] theorem length_patch (l : Bytes) (off : Nat) (d : Bytes) :
    (patch l off d).length = l.length := by
  simp only [patch, List.length_append, List.length_take, List.length_drop]
  omega

theorem patch_eq {l : Bytes} {off : Nat} {d : Bytes} (h : off + d.length ≤ l.length) :
    patch l off d = l.take off ++ (d ++ l.drop (off + d.length)) := by
  rw [patch, List.append_assoc, List.take_of_length_le (l := d) (by omega)]

theorem take_patch {l : Bytes} {off k : Nat} {d : Bytes} (h : off + d.length ≤ k)
    (hk : k ≤ l.length) : (patch l off d).take k = patch (l.take k) off d := by
  have hoff : (l.take off).length = off := List.length_take_of_le (by omega)
  have hlen : (l.take k).length = k := List.length_take_of_le hk
  rw [patch_eq (l := l) (by omega), patch_eq (l := l.take k) (by omega), List.take_append,
    List.take_append, hoff, List.take_of_length_le (l := l.take off) (by omega),
    List.take_of_length_le (l := d) (by omega), List.take_take, Nat.min_eq_left (by omega),
    List.drop_take, Nat.sub_sub]

theorem take_patch_end {l : Bytes} {off : Nat} {d : Bytes} (h : off + d.length ≤ l.length) :
    (patch l off d).take (off + d.length) = l.take off ++ d := by
  have hoff : (l.take off).length = off := List.length_take_of_le (by omega)
  rw [patch_eq h, ← List.append_assoc, List.take_left' (by simp [hoff])]

def pad (l : Bytes) (n : Nat) : Bytes := l ++ List.replicate (n - l.length) 0

theorem le_length_pad (l : Bytes) (n : Nat) : n ≤ (pad l n).length := by
  simp only [pad, List.length_append, List.length_replicate]
  omega

theorem length_le_length_pad (l : Bytes) (n : Nat) : l.length ≤ (pad l n).length := by
  simp only [pad, List.length_append]
  omega

theorem length_pad {l : Bytes} {n : Nat} (h : l.length ≤ n) : (pad l n).length = n := by
  rw [pad, List.length_append, List.length_replicate, Nat.add_sub_cancel' h]

theorem pad_add {l : Bytes} {n : Nat} (h : l.length ≤ n) (k : Nat) :
    pad l (n + k) = pad l n ++ List.replicate k 0 := by
  rw [pad, pad, List.append_assoc, List.replicate_append_replicate, Nat.sub_add_comm h]

/-- Behind what is there, a write goes to the end. -/
theorem patch_pad {l : Bytes} {off : Nat} (h : l.length ≤ off) (d : Bytes) :
    patch (pad l (off + d.length)) off d = pad l off ++ d := by
  have hlen : (pad l off).length = off := length_pad h
  rw [pad_add h, patch_eq (by simp [hlen]), List.take_left' hlen,
    List.drop_eq_nil_of_le (by simp [hlen]), List.append_nil]

end DurableTasks.Wire
