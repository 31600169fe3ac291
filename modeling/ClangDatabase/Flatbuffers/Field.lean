import Mathlib.Algebra.Order.Ring.Nat
import Mathlib.Data.List.Forall2
import ClangDatabase.Flatbuffers.Object

namespace ClangDatabase.Flatbuffers

/-- A field a generated `XAddY` function writes; every field of this schema defaults to zero. -/
inductive Field where
  | uoffset (x : Nat)
  | uint32 (x : UInt32)
  | int64 (x : BitVec 64)
  | byte (x : UInt8)

namespace Field

/-- The `Prepend*Slot` call of the generated `XAddY(builder, x)`. -/
def add (slot : Nat) : Field → BuildM Unit
  | uoffset x => prependUOffsetTSlot slot x 0
  | uint32 x => prependUint32Slot slot x 0
  | int64 x => prependInt64Slot slot x 0
  | byte x => prependByteSlot slot x 0

def room : Field → Nat
  | uoffset _ => 7
  | uint32 _ => 7
  | int64 _ => 15
  | byte _ => 1

def isDefault : Field → Bool
  | uoffset x => x == 0
  | uint32 x => x == 0
  | int64 x => x == 0
  | byte x => x == 0

def Stored (buf : Bytes) (q : Nat) : Field → Prop
  | uoffset x => RefAt buf q x
  | uint32 x => At buf q (leBytes 4 x.toNat)
  | int64 x => At buf q (leBytes 8 x.toNat)
  | byte x => At buf q (leBytes 1 x.toNat)

def RefBelow (n : Nat) : Field → Prop
  | uoffset x => x ≤ n
  | _ => True

end Field

def addFields : Nat → List Field → BuildM Unit
  | _, [] => pure ()
  | slot, f :: fs => do f.add slot; addFields (slot + 1) fs

/-- `StartObject(numfields)`, the fields, `EndObject()`: every generated `XStart`, `XAdd...`,
`XEnd` sequence has this shape. -/
def table (numfields : Nat) (fields : List Field) : BuildM Nat := do
  startObject numfields
  addFields 0 fields
  endObject

def FieldAt (buf : Bytes) (o e : Nat) (f : Field) : Prop :=
  if f.isDefault then e = 0 else 0 < e ∧ e ≤ o ∧ f.Stored buf (o - e)

def TableAt (buf : Bytes) (o : Nat) (fields : List Field) : Prop :=
  ∃ es, ObjectAt buf o es ∧ ∀ k (hk : k < fields.length), FieldAt buf o (es.getD k 0) fields[k]

def SlotAt (b : Builder) (q : Nat) (f : Field) : Prop :=
  if f.isDefault then q = 0 else b.objectEnd < q ∧ q ≤ b.offset ∧ f.Stored b.bytes q

def Building (b : Builder) (fs : List Field) : Prop :=
  b.nested = true ∧ b.WF ∧ b.objectEnd ≤ b.offset ∧ b.offset ≤ b.objectEnd + 16 * fs.length ∧
    ∃ done, b.vtable = done ++ List.replicate (b.vtable.length - fs.length) 0 ∧
      List.Forall₂ (SlotAt b) done fs

variable {b c : Builder} {buf : Bytes} {L : Nat}

theorem Field.Stored.prepend {f : Field} (h : f.Stored buf q) (pre : Bytes) :
    f.Stored (pre ++ buf) q := by
  cases f <;> first | exact RefAt.prepend h pre | exact At.prepend h pre

theorem SlotAt.extend {f : Field} (h : SlotAt b q f) (pre : Bytes) (he : c.objectEnd = b.objectEnd)
    (hb : c.bytes = pre ++ b.bytes) : SlotAt c q f := by
  by_cases hd : f.isDefault
  · simpa only [SlotAt, hd, if_true] using h
  · simp only [SlotAt, hd, Bool.false_eq_true, if_false, offset_def] at h ⊢
    obtain ⟨h1, h2, h3⟩ := h
    refine ⟨he ▸ h1, ?_, hb ▸ h3.prepend pre⟩
    simp only [hb, List.length_append]
    omega

theorem TableAt.prepend (h : TableAt buf o fs) (pre : Bytes) : TableAt (pre ++ buf) o fs := by
  obtain ⟨es, hobj, hes⟩ := h
  refine ⟨es, hobj.prepend pre, fun k hk => ?_⟩
  have := hes k hk
  by_cases hd : fs[k].isDefault
  · simpa only [FieldAt, hd, if_true] using this
  · simp only [FieldAt, hd, Bool.false_eq_true, if_false] at this ⊢
    exact ⟨this.1, this.2.1, this.2.2.prepend pre⟩

section Add

theorem Field.add_default (f : Field) (k : Nat) (h : f.isDefault = true) : f.add k = pure () := by
  cases f <;> simp_all [Field.add, Field.isDefault, prependUOffsetTSlot, prependUint32Slot,
    prependInt64Slot, prependByteSlot]

theorem prependSlot_builds (w x k : Nat) (hk : k < b.vtable.length) (hw : 0 < w) (hw8 : w ≤ 8)
    (hL : b.offset + (2 * w - 1) ≤ L) :
    Builds (do (do prep w 0; place w x); slot k) b L fun _ b' => ∃ pre m,
      pre.length ≤ 2 * w - 1 ∧ m ≤ max b.minalign 8 ∧
      b' = { b with bytes := pre ++ b.bytes, minalign := m,
                    vtable := b.vtable.set k (pre ++ b.bytes).length } ∧
      0 < pre.length ∧ At (pre ++ b.bytes) (pre ++ b.bytes).length (leBytes w x) := by
  have hpad := alignPad_lt w b.offset hw
  have hpad' : alignPad w b.bytes.length < w := hpad
  rw [builds_bind]
  refine (prependScalar_builds w x (by omega)).mono ?_
  rintro - b₁ ⟨rfl, -⟩
  refine (slot_builds k (by exact hk)).mono ?_
  rintro - b₂ rfl
  refine ⟨leBytes w x ++ List.replicate (alignPad w b.offset) 0, max b.minalign w,
    by simp; omega, by omega, by simp [List.append_assoc], by simp; omega, ?_⟩
  have := (at_front (leBytes w x ++ List.replicate (alignPad w b.offset) 0) b.bytes).left
  rwa [List.append_assoc] at this ⊢

theorem Field.add_builds (f : Field) (k : Nat) (hk : k < b.vtable.length)
    (hf : f.RefBelow b.offset) (hL : b.offset + f.room ≤ L) :
    Builds (f.add k) b L fun _ b' => ∃ pre m, pre.length ≤ f.room ∧ m ≤ max b.minalign 8 ∧
      b' = { b with bytes := pre ++ b.bytes, minalign := m,
                    vtable := if f.isDefault then b.vtable
                      else b.vtable.set k (pre ++ b.bytes).length } ∧
      (f.isDefault = false → 0 < pre.length ∧ f.Stored (pre ++ b.bytes) (pre ++ b.bytes).length) := by
  by_cases hd : f.isDefault
  · rw [Field.add_default f k hd, builds_pure]
    exact ⟨[], b.minalign, by simp, le_max_left _ _, by simp [hd], by simp [hd]⟩
  cases f with
  | uoffset x =>
    have hx : x ≠ 0 := by simpa [Field.isDefault] using hd
    simp only [Field.add, prependUOffsetTSlot, Field.Stored, Field.RefBelow, Field.room] at hf hL ⊢
    rw [if_pos hx, builds_bind]
    have := alignPad_lt 4 b.offset (by decide)
    refine (prependUOffsetT_builds x hf (by omega)).mono ?_
    rintro - b₁ ⟨rfl, hfit⟩
    refine (slot_builds k (by exact hk)).mono ?_
    rintro - b₂ rfl
    simp only [offset_def, List.length_append, length_leBytes, List.length_replicate] at hfit hf ⊢
    unfold maxSize at hfit
    have hpad := alignPad_lt 4 b.bytes.length (by omega)
    have hat := at_front (leBytes 4 (b.bytes.length + alignPad 4 b.bytes.length - x + 4))
      (List.replicate (alignPad 4 b.bytes.length) 0 ++ b.bytes)
    simp only [List.length_append, length_leBytes, List.length_replicate] at hat
    refine ⟨leBytes 4 (b.bytes.length + alignPad 4 b.bytes.length - x + 4) ++
      List.replicate (alignPad 4 b.bytes.length) 0, max b.minalign 4, by simp; omega, by omega,
      by simp [hd, List.append_assoc],
      fun _ =>
      ⟨by simp only [List.length_append, length_leBytes, List.length_replicate]; omega,
        by simp; omega, by simp; omega, ?_⟩⟩
    simp only [List.length_append, length_leBytes, List.length_replicate, List.append_assoc]
    rwa [show 4 + alignPad 4 b.bytes.length + b.bytes.length - x =
      b.bytes.length + alignPad 4 b.bytes.length - x + 4 by omega, Nat.add_assoc]
  | uint32 x =>
    have hx : x ≠ 0 := by simpa [Field.isDefault] using hd
    rw [Field.add, prependUint32Slot, if_pos hx]
    refine (prependSlot_builds 4 x.toNat k hk (by decide) (by decide) hL).mono ?_
    rintro - - ⟨pre, m, h₁, h₂, rfl, h₃, hat⟩
    exact ⟨pre, m, h₁, h₂, by simp [hd], fun _ => ⟨h₃, hat⟩⟩
  | int64 x =>
    have hx : x ≠ 0 := by simpa [Field.isDefault] using hd
    rw [Field.add, prependInt64Slot, if_pos hx]
    refine (prependSlot_builds 8 x.toNat k hk (by decide) (by decide) hL).mono ?_
    rintro - - ⟨pre, m, h₁, h₂, rfl, h₃, hat⟩
    exact ⟨pre, m, h₁, h₂, by simp [hd], fun _ => ⟨h₃, hat⟩⟩
  | byte x =>
    have hx : x ≠ 0 := by simpa [Field.isDefault] using hd
    rw [Field.add, prependByteSlot, if_pos hx]
    refine (prependSlot_builds 1 x.toNat k hk (by decide) (by decide) hL).mono ?_
    rintro - - ⟨pre, m, h₁, h₂, rfl, h₃, hat⟩
    exact ⟨pre, m, h₁, h₂, by simp [hd], fun _ => ⟨h₃, hat⟩⟩

theorem Field.room_le (f : Field) : f.room ≤ 15 := by
  cases f <;> simp [Field.room]

theorem Field.RefBelow.mono {f : Field} (h : f.RefBelow n) (hm : n ≤ m) : f.RefBelow m := by
  cases f <;> simp only [Field.RefBelow] at h ⊢
  omega

theorem Building.add (h : Building b fs) (f : Field) (hf : f.RefBelow b.offset)
    (hk : fs.length < b.vtable.length) (hL : b.offset + f.room ≤ L) :
    Builds (f.add fs.length) b L fun _ b' => Building b' (fs ++ [f]) ∧
      b'.vtable.length = b.vtable.length ∧
      ∃ pre m vt, pre.length ≤ f.room ∧ m ≤ max b.minalign 8 ∧
        b' = { b with bytes := pre ++ b.bytes, minalign := m, vtable := vt } := by
  obtain ⟨hn, hwf, he, hsz, done, hvt, hall⟩ := h
  simp only [offset_def] at he hsz
  refine (Field.add_builds f _ hk hf hL).mono ?_
  rintro - b' ⟨pre, m, hpre, hm, rfl, hst⟩
  have hroom := f.room_le
  have hlen := hall.length_eq
  obtain ⟨r, hr⟩ : ∃ r, b.vtable.length - fs.length = r + 1 := ⟨_, (Nat.succ_pred_eq_of_pos
    (by omega)).symm⟩
  have hext : ∀ {q g}, SlotAt b q g → SlotAt { b with bytes := pre ++ b.bytes, minalign := m,
                                                        vtable := b.vtable } q g :=
    fun h => h.extend pre rfl rfl
  refine ⟨⟨hn, hwf.extend pre rfl rfl, by simp; omega, by simp; omega, ?_⟩, by split <;> simp,
    pre, m, _, hpre, hm, rfl⟩
  simp only [List.length_append, List.length_singleton]
  by_cases hd : f.isDefault
  · refine ⟨done ++ [0], ?_, List.rel_append (hall.imp fun _ _ => hext) (.cons ?_ .nil)⟩
    · simp only [hd, if_true]
      rw [show b.vtable.length - (fs.length + 1) = r by omega]
      conv_lhs => rw [hvt, hr]
      rw [List.replicate_succ, List.append_assoc, List.singleton_append]
    · simp [SlotAt, hd]
  · have hd' : f.isDefault = false := by simpa using hd
    refine ⟨done ++ [(pre ++ b.bytes).length], ?_,
      List.rel_append (hall.imp fun _ _ => hext) (.cons ?_ .nil)⟩
    · simp only [hd, if_false, Bool.false_eq_true, List.length_set]
      rw [show b.vtable.length - (fs.length + 1) = r by omega]
      conv_lhs => rw [hvt, hr]
      rw [List.set_append_right _ _ (by omega), hlen, Nat.sub_self, List.replicate_succ,
        List.set_cons_zero, List.append_assoc, List.singleton_append, List.length_append]
    · simp only [SlotAt, hd, Bool.false_eq_true, if_false, offset_def]
      obtain ⟨hp, hs⟩ := hst hd'
      refine ⟨?_, le_rfl, hs⟩
      simp only [List.length_append, offset_def] at he ⊢
      omega

theorem addFields_builds (gs : List Field) : ∀ (fs : List Field) (b : Builder), Building b fs →
    (∀ g ∈ gs, g.RefBelow b.offset) → fs.length + gs.length ≤ b.vtable.length →
    b.offset + (gs.map Field.room).sum ≤ L →
    Builds (addFields fs.length gs) b L fun _ b' => Building b' (fs ++ gs) ∧
      b'.vtable.length = b.vtable.length ∧
      ∃ pre m vt, pre.length ≤ (gs.map Field.room).sum ∧ m ≤ max b.minalign 8 ∧
        b' = { b with bytes := pre ++ b.bytes, minalign := m, vtable := vt } := by
  induction gs with
  | nil => exact fun fs b h _ _ _ =>
      ⟨by simpa using h, rfl, [], b.minalign, b.vtable, by simp, by omega, rfl⟩
  | cons g gs ih =>
    intro fs b h hgs hlen hL
    simp only [addFields, builds_bind]
    simp only [List.length_cons, List.map_cons, List.sum_cons] at hlen hL
    refine (h.add g (hgs g (.head gs)) (by omega) (by omega)).mono ?_
    rintro - b₁ ⟨h₁, hl₁, pre, m, vt, hpre, hm, hb₁⟩
    have := ih (fs ++ [g]) b₁ h₁ (fun g' hg' => (hgs g' (.tail g hg')).mono (by simp [hb₁]))
      (by simp only [List.length_append, List.length_singleton] at hlen ⊢; omega)
      (by simp only [hb₁, offset_def, List.length_append] at hL ⊢; omega)
    simp only [List.length_append, List.length_singleton, List.append_assoc,
      List.singleton_append] at this
    refine this.mono ?_
    rintro - b₂ ⟨h₂, hl₂, pre₂, m₂, vt₂, hpre₂, hm₂, rfl⟩
    subst hb₁
    refine ⟨h₂, hl₂.trans hl₁, pre₂ ++ pre, m₂, vt₂, ?_, by simp only at hm₂; omega, by simp⟩
    simp only [List.length_append, List.map_cons, List.sum_cons]
    omega

theorem Building.slot_le (hall : List.Forall₂ (SlotAt b) done fs) :
    ∀ q ∈ done, q ≠ 0 → b.objectEnd < q ∧ q ≤ b.offset := by
  induction hall with
  | nil => simp
  | cons hq _ ih =>
    rintro q (_ | ⟨_, hq'⟩) h0
    · unfold SlotAt at hq
      split at hq
      · exact absurd hq h0
      · exact ⟨hq.1, hq.2.1⟩
    · exact ih q hq' h0

end Add

section Object

theorem getD_entriesOf (o k : Nat) (vt : List Nat) :
    (entriesOf o vt).getD k 0 = if vt.getD k 0 ≠ 0 then o - vt.getD k 0 else 0 := by
  simpa [entriesOf] using @List.getD_map _ _ vt 0 k fun off => if off ≠ 0 then o - off else 0

theorem startObject_building (n : Nat) (hwf : b.WF) (hb : b.nested = false) :
    Builds (startObject n) b L fun _ b' => Building b' [] ∧
      b' = { b with nested := true, vtable := List.replicate n 0, objectEnd := b.offset } := by
  refine (startObject_builds n hb).mono ?_
  rintro - b' rfl
  exact ⟨⟨rfl, hwf.extend [] rfl rfl, le_rfl, by simp, [], by simp, .nil⟩, rfl⟩

theorem endObject_builds (h : Building b fs) (hlen : b.vtable.length < 4000)
    (hL : b.offset + 2 * b.vtable.length + 11 ≤ L) :
    Builds endObject b L fun o b' =>
      (∃ pre vts, pre.length ≤ 2 * b.vtable.length + 11 ∧
        b' = { b with bytes := pre ++ b.bytes, minalign := max b.minalign 4,
                      vtable := [], vtables := vts, nested := false }) ∧
      b'.WF ∧ b.offset < o ∧ TableAt b'.bytes o fs := by
  obtain ⟨hn, hwf, he, hsz, done, hvt, hall⟩ := h
  have hlen' := hall.length_eq
  have hfs : fs.length ≤ b.vtable.length := by
    have := congrArg List.length hvt
    simp only [List.length_append, List.length_replicate] at this
    omega
  simp only [endObject, assertNested, builds_bind, builds_get, hn, Bool.not_true,
    Bool.false_eq_true, if_false, builds_pure]
  refine (writeVtable_builds hwf (fun off hoff h0 => ?_) (by omega) (by omega) hL).mono ?_
  · rw [hvt] at hoff
    rcases List.mem_append.mp hoff with h1 | h1
    · exact Building.slot_le hall off h1 h0
    · exact absurd (List.eq_of_mem_replicate h1) h0
  rintro o b' ⟨⟨pre, vts, hpre, rfl⟩, hwf', hlt, hobj⟩
  simp only [builds_modify, builds_pure]
  refine ⟨⟨pre, vts, hpre, rfl⟩, hwf', hlt, _, hobj, fun k hk => ?_⟩
  have hk' : k < done.length := hlen' ▸ hk
  have hslot := hall.get hk' hk
  have hvk : b.vtable.getD k 0 = done[k] := by
    rw [hvt, List.getD_append _ _ _ _ hk', List.getD_eq_getElem]
  simp only [List.get_eq_getElem] at hslot
  rw [getD_entriesOf_trimVtable, getD_entriesOf, hvk]
  unfold FieldAt
  unfold SlotAt at hslot
  split at hslot
  · simp [hslot, *]
  · next hd =>
    obtain ⟨h1, h2, h3⟩ := hslot
    simp only [offset_def] at h2 hlt
    rw [if_neg hd, if_pos (by omega)]
    refine ⟨by omega, by omega, ?_⟩
    rw [show o - (o - done[k]) = done[k] by omega]
    exact h3.prepend pre

theorem table_builds (n : Nat) (fs : List Field) (hn : fs.length ≤ n) (hsmall : n < 4000)
    (hwf : b.WF) (hb : b.nested = false) (hfs : ∀ f ∈ fs, f.RefBelow b.offset)
    (hL : b.offset + (fs.map Field.room).sum + 2 * n + 11 ≤ L) :
    Builds (table n fs) b L fun o b' =>
      (∃ pre m vts, pre.length ≤ (fs.map Field.room).sum + 2 * n + 11 ∧ m ≤ max b.minalign 8 ∧
        b' = { b with bytes := pre ++ b.bytes, minalign := m, vtable := [],
                      objectEnd := b.offset, vtables := vts }) ∧
      b'.WF ∧ b.offset < o ∧ TableAt b'.bytes o fs := by
  simp only [table, builds_bind]
  refine (startObject_building n hwf hb).mono ?_
  rintro - b₁ ⟨h₁, rfl⟩
  refine (addFields_builds fs [] _ h₁ hfs (by simpa using hn) ?_).mono ?_
  · simp only [offset_def] at hL ⊢; omega
  rintro - b₂ ⟨h₂, hl₂, pre, m, vt, hpre, hm, rfl⟩
  simp only [List.length_replicate] at hl₂
  refine (endObject_builds h₂ (by simp only [hl₂]; omega) ?_).mono ?_
  · simp only [offset_def, List.length_append, hl₂] at hL hpre ⊢; omega
  rintro o b₃ ⟨⟨pre₃, vts, hpre₃, rfl⟩, hwf₃, hlt, htab⟩
  simp only [hl₂] at hpre₃
  have hlen : (pre₃ ++ pre).length ≤ (fs.map Field.room).sum + 2 * n + 11 := by
    simp only [List.length_append]; omega
  refine ⟨⟨pre₃ ++ pre, max m 4, vts, hlen, by simp only at hm; omega, by simp [hb]⟩, hwf₃,
    by simp at hlt ⊢; omega, htab⟩

end Object

end ClangDatabase.Flatbuffers
