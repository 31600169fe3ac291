import ClangDatabase.Flatbuffers.Field

namespace ClangDatabase.Flatbuffers

theorem uint32_ofNat_toNat (x : UInt32) : UInt32.ofNat x.toNat = x :=
  UInt32.toNat.inj (UInt32.toNat_ofNat_of_lt x.toNat_lt_size)

theorem uint8_ofNat_toNat (x : UInt8) : UInt8.ofNat x.toNat = x :=
  UInt8.toNat.inj (UInt8.toNat_ofNat_of_lt x.toNat_lt_size)

section Reading

variable {t : Table} {o : Nat} {fs : List Field}

theorem TableAt.field (h : TableAt t.bytes o fs) (ht : t.pos = t.bytes.length - o) {f : Field}
    (hf : fs[k]? = some f) :
    ∃ e, t.offset (4 + 2 * k) = .ok e ∧ FieldAt t.bytes o e f ∧ o ≤ t.bytes.length := by
  obtain ⟨es, hobj, hes⟩ := h
  obtain ⟨hk, rfl⟩ := List.getElem?_eq_some_iff.mp hf
  exact ⟨_, offset_objectAt hobj ht k, hes k hk, hobj.le_length⟩

theorem FieldAt.present {f : Field} (h : FieldAt buf o e f) (hd : f.isDefault = false) :
    0 < e ∧ e ≤ o ∧ f.Stored buf (o - e) := by
  simpa [FieldAt, hd] using h

theorem FieldAt.absent {f : Field} (h : FieldAt buf o e f) (hd : f.isDefault = true) : e = 0 := by
  simpa [FieldAt, hd] using h

theorem TableAt.readUint32 (h : TableAt t.bytes o fs) (ht : t.pos = t.bytes.length - o)
    (hf : fs[k]? = some (.uint32 x)) : t.readUint32 (4 + 2 * k) = .ok x := by
  obtain ⟨e, he, hfa, ho⟩ := h.field ht hf
  unfold Table.readUint32
  rw [he]
  by_cases hx : x = 0
  · simp [hfa.absent (by simp [Field.isDefault, hx]), hx, bind, Except.bind, pure, Except.pure]
  obtain ⟨he0, heo, hs⟩ := hfa.present (by simp [Field.isDefault, hx])
  have hget := hs.get_leBytes (show x.toNat < 256 ^ 4 from x.toNat_lt_size)
  rw [show t.bytes.length - (o - e) = e + t.pos by omega] at hget
  simp [Nat.pos_iff_ne_zero.mp he0, getUint32, hget, bind, Except.bind, uint32_ofNat_toNat]

theorem TableAt.readInt64 (h : TableAt t.bytes o fs) (ht : t.pos = t.bytes.length - o)
    (hf : fs[k]? = some (.int64 x)) : t.readInt64 (4 + 2 * k) = .ok x := by
  obtain ⟨e, he, hfa, ho⟩ := h.field ht hf
  unfold Table.readInt64
  rw [he]
  by_cases hx : x = 0
  · simp [hfa.absent (by simp [Field.isDefault, hx]), hx, bind, Except.bind, pure, Except.pure]
  have hx' : ¬ x = 0#64 := hx
  obtain ⟨he0, heo, hs⟩ := hfa.present (by simp [Field.isDefault, hx'])
  have hget := hs.get_leBytes (show x.toNat < 256 ^ 8 from x.isLt)
  rw [show t.bytes.length - (o - e) = e + t.pos by omega] at hget
  simp [Nat.pos_iff_ne_zero.mp he0, getInt64, hget, bind, Except.bind]

theorem TableAt.readByte (h : TableAt t.bytes o fs) (ht : t.pos = t.bytes.length - o)
    (hf : fs[k]? = some (.byte x)) : t.readByte (4 + 2 * k) = .ok x := by
  obtain ⟨e, he, hfa, ho⟩ := h.field ht hf
  unfold Table.readByte
  rw [he]
  by_cases hx : x = 0
  · simp [hfa.absent (by simp [Field.isDefault, hx]), hx, bind, Except.bind, pure, Except.pure]
  obtain ⟨he0, heo, hs⟩ := hfa.present (by simp [Field.isDefault, hx])
  have hget := hs.get_leBytes (show x.toNat < 256 ^ 1 from x.toNat_lt_size)
  rw [show t.bytes.length - (o - e) = e + t.pos by omega] at hget
  simp [Nat.pos_iff_ne_zero.mp he0, getByte, hget, bind, Except.bind, uint8_ofNat_toNat]

theorem TableAt.ref (h : TableAt t.bytes o fs) (ht : t.pos = t.bytes.length - o)
    (hf : fs[k]? = some (.uoffset x)) (hx : x ≠ 0) :
    ∃ e, t.offset (4 + 2 * k) = .ok e ∧ e ≠ 0 ∧ ∃ q, e + t.pos = t.bytes.length - q ∧
      RefAt t.bytes q x := by
  obtain ⟨e, he, hfa, ho⟩ := h.field ht hf
  obtain ⟨he0, heo, hs⟩ := hfa.present (by simp [Field.isDefault, hx])
  exact ⟨e, he, by omega, o - e, by omega, hs⟩

theorem TableAt.readString (h : TableAt t.bytes o fs) (ht : t.pos = t.bytes.length - o)
    (hf : fs[k]? = some (.uoffset x)) (hx : x ≠ 0) (hs : StringAt t.bytes x s) :
    t.readString (4 + 2 * k) = .ok s := by
  obtain ⟨e, he, he0, q, hq, href⟩ := h.ref ht hf hx
  simp [Table.readString, he, he0, hq, byteVector_refAt href hs, bind, Except.bind]

theorem TableAt.readTable (h : TableAt t.bytes o fs) (ht : t.pos = t.bytes.length - o)
    (hf : fs[k]? = some (.uoffset x)) (hx : x ≠ 0) :
    t.readTable (4 + 2 * k) = .ok (some ⟨t.bytes, t.bytes.length - x⟩) := by
  obtain ⟨e, he, he0, q, hq, href⟩ := h.ref ht hf hx
  simp [Table.readTable, he, he0, hq, indirect_refAt href, bind, Except.bind, pure, Except.pure]

theorem TableAt.readVectorLen (h : TableAt t.bytes o fs) (ht : t.pos = t.bytes.length - o)
    (hf : fs[k]? = some (.uoffset x)) (hx : x ≠ 0) (hv : VectorAt t.bytes x xs) :
    t.readVectorLen (4 + 2 * k) = .ok xs.length := by
  obtain ⟨e, he, he0, q, hq, href⟩ := h.ref ht hf hx
  simp [Table.readVectorLen, he, he0, vectorLen_refAt hq href hv, bind, Except.bind]

theorem TableAt.readString_absent (h : TableAt t.bytes o fs) (ht : t.pos = t.bytes.length - o)
    (hf : fs[k]? = some (.uoffset 0)) : t.readString (4 + 2 * k) = .ok [] := by
  obtain ⟨e, he, hfa, -⟩ := h.field ht hf
  simp [Table.readString, he, hfa.absent (by simp [Field.isDefault]), bind, Except.bind, pure,
    Except.pure]

theorem TableAt.readVectorLen_absent (h : TableAt t.bytes o fs) (ht : t.pos = t.bytes.length - o)
    (hf : fs[k]? = some (.uoffset 0)) : t.readVectorLen (4 + 2 * k) = .ok 0 := by
  obtain ⟨e, he, hfa, -⟩ := h.field ht hf
  simp [Table.readVectorLen, he, hfa.absent (by simp [Field.isDefault]), bind, Except.bind, pure,
    Except.pure]

theorem TableAt.readTableAt (h : TableAt t.bytes o fs) (ht : t.pos = t.bytes.length - o)
    (hf : fs[k]? = some (.uoffset x)) (hx : x ≠ 0) (hv : VectorAt t.bytes x xs)
    (hj : j < xs.length) :
    t.readTableAt (4 + 2 * k) j = .ok (some ⟨t.bytes, t.bytes.length - xs[j]⟩) := by
  obtain ⟨e, he, he0, q, hq, href⟩ := h.ref ht hf hx
  simp [Table.readTableAt, he, he0, vector_refAt hq href, indirect_vectorAt hv j hj, bind,
    Except.bind, pure, Except.pure]

theorem TableAt.readStringAt (h : TableAt t.bytes o fs) (ht : t.pos = t.bytes.length - o)
    (hf : fs[k]? = some (.uoffset x)) (hx : x ≠ 0) (hv : VectorAt t.bytes x xs)
    (hj : j < xs.length) (hs : StringAt t.bytes xs[j] s) :
    t.readStringAt (4 + 2 * k) j = .ok s := by
  obtain ⟨e, he, he0, q, hq, href⟩ := h.ref ht hf hx
  have hl := hv.length_le
  have hx' := href.1
  have hxq := href.le_length
  have hpos : t.bytes.length - x + 4 + j * 4 = t.bytes.length - (x - 4 - 4 * j) := by omega
  simp [Table.readStringAt, he, he0, vector_refAt hq href, bind, Except.bind, hpos,
    byteVector_refAt (hv.2.2 j hj) hs]

end Reading

end ClangDatabase.Flatbuffers
