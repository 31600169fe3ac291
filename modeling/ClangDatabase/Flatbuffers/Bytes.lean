import Mathlib.Data.List.Basic
import Mathlib.Algebra.Group.Nat.Basic
import Mathlib.Algebra.Group.Int

namespace ClangDatabase.Flatbuffers

/-- A Go `[]byte`. Go strings are modelled by their bytes: every string of the schema is an
opaque byte sequence. -/
abbrev Bytes := List UInt8

/-- The runtime panics the modelled code can raise, with the text Go prints for each. -/
inductive Fault where
  /-- `assertNotNested`: "Incorrect creation order: object must not be nested." -/
  | nested
  /-- `assertNested`: "Incorrect creation order: must be inside object." -/
  | notNested
  /-- `PrependUOffsetT`: "unreachable: off <= b.Offset()". -/
  | offsetAbove
  /-- `growByteBuffer`: "cannot grow buffer beyond 2 gigabytes". -/
  | cannotGrow
  /-- `FinishedBytes`: "Incorrect use of FinishedBytes(): must call 'Finish' first." -/
  | notFinished
  /-- "index out of range" or "slice bounds out of range". -/
  | outOfRange
  /-- "invalid memory address or nil pointer dereference". -/
  | nilDereference
  /-- "assignment to entry in nil map". -/
  | nilMap
  deriving DecidableEq, Repr

def leValue : Bytes → Nat
  | [] => 0
  | b :: bs => b.toNat + 256 * leValue bs

/-- The `w` low little-endian bytes of `n` (`binary.LittleEndian.PutUint*`). -/
def leBytes : Nat → Nat → Bytes
  | 0, _ => []
  | w + 1, n => UInt8.ofNat n :: leBytes w (n / 256)

/-- `buf[pos:pos+w]` read as a little-endian number; reading past the end panics. -/
def getLE (buf : Bytes) (pos w : Nat) : Except Fault Nat :=
  if pos + w ≤ buf.length then .ok (leValue ((buf.drop pos).take w)) else .error .outOfRange

def getByte (buf : Bytes) (pos : Nat) : Except Fault Nat := getLE buf pos 1

def getUint16 (buf : Bytes) (pos : Nat) : Except Fault Nat := getLE buf pos 2

def getUint32 (buf : Bytes) (pos : Nat) : Except Fault Nat := getLE buf pos 4

def getVOffsetT (buf : Bytes) (pos : Nat) : Except Fault Nat := getUint16 buf pos

def getUOffsetT (buf : Bytes) (pos : Nat) : Except Fault Nat := getUint32 buf pos

def toInt32 (n : Nat) : Int := if n < 2 ^ 31 then n else (n : Int) - 2 ^ 32

def getSOffsetT (buf : Bytes) (pos : Nat) : Except Fault Int := toInt32 <$> getLE buf pos 4

def getInt64 (buf : Bytes) (pos : Nat) : Except Fault (BitVec 64) :=
  BitVec.ofNat 64 <$> getLE buf pos 8

/-- `buf[lo:hi]`. -/
def slice (buf : Bytes) (lo hi : Nat) : Except Fault Bytes :=
  if lo ≤ hi ∧ hi ≤ buf.length then .ok ((buf.drop lo).take (hi - lo)) else .error .outOfRange

def At (buf : Bytes) (o : Nat) (w : Bytes) : Prop :=
  o ≤ buf.length ∧ w <+: buf.drop (buf.length - o)

theorem toNat_ofNat_byte (n : Nat) : (UInt8.ofNat n).toNat = n % 256 := by
  simp [UInt8.toNat, UInt8.ofNat, BitVec.toNat_ofNat]

@[simp] theorem length_leBytes (w n : Nat) : (leBytes w n).length = w := by
  induction w generalizing n <;> simp [leBytes, *]

theorem leValue_leBytes (w n : Nat) : leValue (leBytes w n) = n % 256 ^ w := by
  induction w generalizing n with
  | zero => simp [leBytes, leValue, Nat.mod_one]
  | succ w ih =>
    rw [leBytes, leValue, ih, toNat_ofNat_byte, Nat.pow_succ, Nat.mul_comm _ 256, Nat.mod_mul]

theorem leValue_lt (bs : Bytes) : leValue bs < 256 ^ bs.length := by
  induction bs with
  | nil => simp [leValue]
  | cons b bs ih =>
    have hb : b.toNat < 256 := b.toNat_lt_size
    have : leValue bs + 1 ≤ 256 ^ bs.length := ih
    simp only [leValue, List.length_cons, Nat.pow_succ]
    omega

theorem leValue_append (xs ys : Bytes) :
    leValue (xs ++ ys) = leValue xs + 256 ^ xs.length * leValue ys := by
  induction xs with
  | nil => simp [leValue]
  | cons b bs ih =>
    rw [List.cons_append, leValue, leValue, ih, List.length_cons, Nat.pow_succ, Nat.mul_add,
      Nat.add_assoc, Nat.mul_comm (256 ^ _) 256, Nat.mul_assoc]

theorem leValue_leBytes_of_lt {w n : Nat} (h : n < 256 ^ w) : leValue (leBytes w n) = n := by
  rw [leValue_leBytes, Nat.mod_eq_of_lt h]

theorem toInt32_mod (v : Int) (h : -2 ^ 31 ≤ v) (h' : v < 2 ^ 31) :
    toInt32 (v % 2 ^ 32).toNat = v := by
  unfold toInt32
  split <;> omega

theorem At.length_le (h : At buf o w) : w.length ≤ o := by
  have := h.2.length_le
  simp only [List.length_drop] at this
  omega

theorem At.prepend (h : At buf o w) (pre : Bytes) : At (pre ++ buf) o w := by
  have := h.1
  refine ⟨by simp only [List.length_append]; omega, ?_⟩
  have : (pre ++ buf).length - o = pre.length + (buf.length - o) := by
    simp only [List.length_append]; omega
  rw [this, ← List.drop_drop, List.drop_left]
  exact h.2

theorem at_front (w rest : Bytes) : At (w ++ rest) (w ++ rest).length w :=
  ⟨le_rfl, by simp⟩

theorem At.left (h : At buf o (w₁ ++ w₂)) : At buf o w₁ :=
  ⟨h.1, (List.prefix_append w₁ w₂).trans h.2⟩

theorem At.right (h : At buf o (w₁ ++ w₂)) : At buf (o - w₁.length) w₂ := by
  have hl := h.length_le
  simp only [List.length_append] at hl
  refine ⟨by have := h.1; omega, ?_⟩
  obtain ⟨t, ht⟩ := h.2
  have : buf.length - (o - w₁.length) = (buf.length - o) + w₁.length := by have := h.1; omega
  rw [this, ← List.drop_drop, ← ht, List.append_assoc, List.drop_left]
  exact List.prefix_append _ _

theorem At.drop_eq (h : At buf o w) : (buf.drop (buf.length - o)).take w.length = w :=
  (List.prefix_iff_eq_take.mp h.2).symm

theorem At.get_eq (h : At buf o w) : getLE buf (buf.length - o) w.length = .ok (leValue w) := by
  have := h.length_le
  have := h.1
  unfold getLE
  rw [if_pos (by omega), h.drop_eq]

theorem At.slice_eq (h : At buf o w) :
    slice buf (buf.length - o) (buf.length - o + w.length) = .ok w := by
  have := h.length_le
  have := h.1
  unfold slice
  rw [if_pos ⟨by omega, by omega⟩, Nat.add_sub_cancel_left, h.drop_eq]

theorem At.get_leBytes {w n : Nat} (h : At buf o (leBytes w n)) (hn : n < 256 ^ w) :
    getLE buf (buf.length - o) w = .ok n := by
  simpa [leValue_leBytes_of_lt hn] using h.get_eq

end ClangDatabase.Flatbuffers
