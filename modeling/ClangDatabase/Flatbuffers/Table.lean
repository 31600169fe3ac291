import ClangDatabase.Flatbuffers.Bytes

namespace ClangDatabase.Flatbuffers

/-- A `flatbuffers.Table`: a buffer and the position of a table in it. -/
structure Table where
  bytes : Bytes
  pos : Nat
  deriving DecidableEq

namespace Table

/-- `Offset(vtableOffset)`: the position of a field relative to the table, or zero when the
table's vtable does not record it. A negative vtable position is, as a `UOffsetT`, past the end
of any buffer of at most 2^31 bytes. -/
def offset (t : Table) (vtableOffset : Nat) : Except Fault Nat := do
  let vtable := (t.pos : Int) - (← getSOffsetT t.bytes t.pos)
  if vtable < 0 then throw .outOfRange
  if vtableOffset < (← getVOffsetT t.bytes vtable.toNat) then
    getVOffsetT t.bytes (vtable.toNat + vtableOffset)
  else pure 0

def indirect (t : Table) (off : Nat) : Except Fault Nat := do
  return off + (← getUOffsetT t.bytes off)

def byteVector (t : Table) (off : Nat) : Except Fault Bytes := do
  let off := off + (← getUOffsetT t.bytes off)
  let start := off + 4
  let length ← getUOffsetT t.bytes off
  slice t.bytes start (start + length)

def vectorLen (t : Table) (off : Nat) : Except Fault Nat := do
  let off := off + t.pos
  let off := off + (← getUOffsetT t.bytes off)
  getUOffsetT t.bytes off

def vector (t : Table) (off : Nat) : Except Fault Nat := do
  let off := off + t.pos
  let x := off + (← getUOffsetT t.bytes off)
  return x + 4

/-- The generated accessor of a string field, such as `File.Name()`; Go's `nil` is `[]`. -/
def readString (t : Table) (vo : Nat) : Except Fault Bytes := do
  let o ← t.offset vo
  if o ≠ 0 then t.byteVector (o + t.pos) else pure []

/-- The generated `XLength()` of a vector field. -/
def readVectorLen (t : Table) (vo : Nat) : Except Fault Nat := do
  let o ← t.offset vo
  if o ≠ 0 then t.vectorLen o else pure 0

/-- The generated `X(j)` of a vector of strings, such as `File.Flags(j)`. -/
def readStringAt (t : Table) (vo j : Nat) : Except Fault Bytes := do
  let o ← t.offset vo
  if o ≠ 0 then do
    let a ← t.vector o
    t.byteVector (a + j * 4)
  else pure []

/-- The generated `X(obj, j)` of a vector of tables: the table `obj` is set to, or `none` where
Go returns `false`. -/
def readTableAt (t : Table) (vo j : Nat) : Except Fault (Option Table) := do
  let o ← t.offset vo
  if o ≠ 0 then do
    let x ← t.vector o
    let x ← t.indirect (x + j * 4)
    pure (some ⟨t.bytes, x⟩)
  else pure none

/-- The generated `X(obj)` of a table field, such as `Info.Def(obj)`. -/
def readTable (t : Table) (vo : Nat) : Except Fault (Option Table) := do
  let o ← t.offset vo
  if o ≠ 0 then do
    let x ← t.indirect (o + t.pos)
    pure (some ⟨t.bytes, x⟩)
  else pure none

def readUint32 (t : Table) (vo : Nat) : Except Fault UInt32 := do
  let o ← t.offset vo
  if o ≠ 0 then UInt32.ofNat <$> getUint32 t.bytes (o + t.pos) else pure 0

def readInt64 (t : Table) (vo : Nat) : Except Fault (BitVec 64) := do
  let o ← t.offset vo
  if o ≠ 0 then getInt64 t.bytes (o + t.pos) else pure 0

def readByte (t : Table) (vo : Nat) : Except Fault UInt8 := do
  let o ← t.offset vo
  if o ≠ 0 then UInt8.ofNat <$> getByte t.bytes (o + t.pos) else pure 0

end Table

/-- The generated `GetRootAsX(buf, offset)`. -/
def getRoot (buf : Bytes) (offset : Nat) : Except Fault Table := do
  return ⟨buf, (← getUOffsetT buf offset) + offset⟩

def RefAt (buf : Bytes) (q x : Nat) : Prop :=
  x ≤ q ∧ q < 2 ^ 32 ∧ At buf q (leBytes 4 (q - x))

def StringAt (buf : Bytes) (o : Nat) (s : Bytes) : Prop :=
  s.length < 2 ^ 32 ∧ At buf o (leBytes 4 s.length ++ s)

def VectorAt (buf : Bytes) (v : Nat) (xs : List Nat) : Prop :=
  xs.length < 2 ^ 32 ∧ At buf v (leBytes 4 xs.length) ∧
    ∀ j (h : j < xs.length), RefAt buf (v - 4 - 4 * j) xs[j]

def vtableBytes (es : List Nat) : Bytes := (es.map (leBytes 2)).flatten

def VtableAt (buf : Bytes) (v : Nat) (es : List Nat) : Prop :=
  (∃ objectSize, At buf v (leBytes 2 ((es.length + 2) * 2) ++ leBytes 2 objectSize ++
    vtableBytes es)) ∧ (es.length + 2) * 2 < 2 ^ 16 ∧ ∀ e ∈ es, e < v ∧ e < 2 ^ 16

def ObjectAt (buf : Bytes) (o : Nat) (es : List Nat) : Prop :=
  ∃ v, VtableAt buf v es ∧ o < 2 ^ 31 ∧ v < 2 ^ 31 ∧
    At buf o (leBytes 4 (((v : Int) - o) % 2 ^ 32).toNat)

section Layout

variable {buf : Bytes}

theorem RefAt.prepend (h : RefAt buf q x) (pre : Bytes) : RefAt (pre ++ buf) q x :=
  ⟨h.1, h.2.1, h.2.2.prepend pre⟩

theorem StringAt.prepend (h : StringAt buf o s) (pre : Bytes) : StringAt (pre ++ buf) o s :=
  ⟨h.1, h.2.prepend pre⟩

theorem VectorAt.prepend (h : VectorAt buf v xs) (pre : Bytes) : VectorAt (pre ++ buf) v xs :=
  ⟨h.1, h.2.1.prepend pre, fun j hj => (h.2.2 j hj).prepend pre⟩

theorem VtableAt.prepend (h : VtableAt buf v es) (pre : Bytes) : VtableAt (pre ++ buf) v es :=
  ⟨h.1.imp fun _ hs => hs.prepend pre, h.2⟩

theorem ObjectAt.prepend (h : ObjectAt buf o es) (pre : Bytes) : ObjectAt (pre ++ buf) o es :=
  h.imp fun _ ⟨hv, ho, hv', hs⟩ => ⟨hv.prepend pre, ho, hv', hs.prepend pre⟩

theorem At.chunk {α : Type} {f : α → Bytes} {n : Nat} (hf : ∀ a, (f a).length = n) :
    ∀ {ws : List α} {o j : Nat}, At buf o ((ws.map f).flatten) → (hj : j < ws.length) →
      At buf (o - n * j) (f ws[j])
  | w :: ws, o, 0, h, _ => by simpa using h.left
  | w :: ws, o, j + 1, h, hj => by
    have := @At.chunk α f n hf ws _ j
      (by simpa [hf] using (show At buf o (f w ++ (ws.map f).flatten) by simpa using h).right)
      (by simpa using hj)
    simpa [Nat.sub_sub, Nat.mul_succ, Nat.add_comm] using this

theorem RefAt.le_length (h : RefAt buf q x) : q ≤ buf.length := h.2.2.1

theorem RefAt.get (h : RefAt buf q x) : getUOffsetT buf (buf.length - q) = .ok (q - x) :=
  h.2.2.get_leBytes (by have := h.2.1; omega)

theorem indirect_refAt {t : Table} (h : RefAt t.bytes q x) :
    t.indirect (t.bytes.length - q) = .ok (t.bytes.length - x) := by
  have := h.le_length
  simp only [Table.indirect, h.get, bind, Except.bind, pure, Except.pure]
  congr 1
  have := h.1
  omega

theorem byteVector_refAt {t : Table} (h : RefAt t.bytes q o) (hs : StringAt t.bytes o s) :
    t.byteVector (t.bytes.length - q) = .ok s := by
  have hq := h.le_length
  have ho := hs.2.1
  have hlen := hs.2.left.get_leBytes hs.1
  have hsl := hs.2.right.slice_eq
  have h1 := h.1
  simp only [length_leBytes] at hsl
  simp only [Table.byteVector, h.get, bind, Except.bind, pure, Except.pure]
  rw [show t.bytes.length - q + (q - o) = t.bytes.length - o by omega]
  simp only [getUOffsetT, getUint32, hlen]
  have hl := hs.2.length_le
  simp only [List.length_append, length_leBytes] at hl
  rw [show t.bytes.length - (o - 4) = t.bytes.length - o + 4 by omega] at hsl
  exact hsl

theorem vectorLen_refAt {t : Table} (hq : off + t.pos = t.bytes.length - q)
    (h : RefAt t.bytes q v) (hv : VectorAt t.bytes v xs) : t.vectorLen off = .ok xs.length := by
  have := h.le_length
  have := h.1
  simp only [Table.vectorLen, hq, h.get, bind, Except.bind]
  rw [show t.bytes.length - q + (q - v) = t.bytes.length - v by omega]
  exact hv.2.1.get_leBytes (by have := hv.1; omega)

theorem vector_refAt {t : Table} (hq : off + t.pos = t.bytes.length - q) (h : RefAt t.bytes q v) :
    t.vector off = .ok (t.bytes.length - v + 4) := by
  have := h.le_length
  have := h.1
  simp only [Table.vector, hq, h.get, bind, Except.bind, pure, Except.pure]
  congr 2
  omega

theorem VectorAt.length_le (hv : VectorAt buf v xs) : 4 + 4 * xs.length ≤ v := by
  rcases xs.eq_nil_or_concat with rfl | ⟨ys, y, rfl⟩
  · simpa using hv.2.1.length_le
  · have h := hv.2.2 ys.length (by simp)
    have h1 := h.2.2.length_le
    have h2 := hv.2.1.1
    simp only [length_leBytes, List.length_append, List.length_singleton,
      List.length_concat] at h1 ⊢
    omega

theorem indirect_vectorAt {t : Table} (hv : VectorAt t.bytes v xs) (j : Nat)
    (hj : j < xs.length) :
    t.indirect (t.bytes.length - v + 4 + j * 4) = .ok (t.bytes.length - xs[j]) := by
  have hl := hv.length_le
  have hvb := hv.2.1.1
  rw [show t.bytes.length - v + 4 + j * 4 = t.bytes.length - (v - 4 - 4 * j) by omega]
  exact indirect_refAt (hv.2.2 j hj)

@[simp] theorem length_vtableBytes (es : List Nat) : (vtableBytes es).length = 2 * es.length := by
  induction es with
  | nil => rfl
  | cons e es ih =>
    simp only [vtableBytes, List.map_cons, List.flatten_cons, List.length_append, length_leBytes,
      List.length_cons] at ih ⊢
    omega

theorem VtableAt.entry (h : VtableAt buf v es) (k : Nat) (hk : k < es.length) :
    getVOffsetT buf (buf.length - v + 4 + 2 * k) = .ok es[k] := by
  obtain ⟨⟨os, hat⟩, -, hes⟩ := h
  have hl := hat.length_le
  have hv := hat.1
  have hent := At.chunk (fun _ => length_leBytes 2 _) hat.right hk
  simp only [List.length_append, length_leBytes, length_vtableBytes] at hl hent
  rw [show buf.length - v + 4 + 2 * k = buf.length - (v - (2 + 2) - 2 * k) by omega]
  exact hent.get_leBytes (hes _ (List.getElem_mem hk)).2

theorem VtableAt.size (h : VtableAt buf v es) :
    getVOffsetT buf (buf.length - v) = .ok ((es.length + 2) * 2) := by
  obtain ⟨⟨os, hat⟩, hsz, -⟩ := h
  exact hat.left.left.get_leBytes hsz

theorem offset_objectAt {t : Table} (h : ObjectAt t.bytes o es) (ht : t.pos = t.bytes.length - o)
    (k : Nat) : t.offset (4 + 2 * k) = .ok (es.getD k 0) := by
  obtain ⟨v, hv, ho, hv31, hs⟩ := h
  have hob := hs.1
  have hvb : v ≤ t.bytes.length := hv.1.elim fun _ h => h.1
  have hsoff : getSOffsetT t.bytes t.pos = .ok ((v : Int) - o) := by
    rw [getSOffsetT, ht, hs.get_leBytes (by omega)]
    exact congrArg _ (toInt32_mod _ (by omega) (by omega))
  have hvt : (t.pos : Int) - ((v : Int) - o) = ((t.bytes.length - v : Nat) : Int) := by omega
  have hpos : ¬ ((t.bytes.length - v : Nat) : Int) < 0 := by omega
  simp only [Table.offset, hsoff, bind, Except.bind, hvt, hpos, if_false, Int.toNat_ofNat,
    hv.size, pure, Except.pure]
  split
  · next hk =>
    have hk' : k < es.length := by omega
    simp [← Nat.add_assoc, hv.entry k hk', hk']
  · next hk => simp [List.getElem?_eq_none (show es.length ≤ k by omega)]

end Layout

end ClangDatabase.Flatbuffers
