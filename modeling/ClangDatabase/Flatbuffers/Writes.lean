import Mathlib.Algebra.Order.Ring.Nat
import ClangDatabase.Flatbuffers.Root
import ClangDatabase.Flatbuffers.Vector

namespace ClangDatabase.Flatbuffers

structure Grows (b b' : Builder) : Prop where
  bytes : ∃ pre, b'.bytes = pre ++ b.bytes
  nested : b'.nested = b.nested
  wf : b.WF → b'.WF
  minalign : b'.minalign ≤ max b.minalign 8

def Stable (P : Bytes → Nat → Prop) : Prop := ∀ pre buf o, P buf o → P (pre ++ buf) o

def Writes (m : BuildM Nat) (n : Nat) (P : Bytes → Nat → Prop) : Prop :=
  ∀ (b : Builder) (L : Nat), b.nested = false → b.WF → b.offset + n ≤ L →
    Builds m b L fun o b' =>
      Grows b b' ∧ b.offset < o ∧ o ≤ b'.offset ∧ b'.offset ≤ b.offset + n ∧ P b'.bytes o

def VectorOf {α : Type} (P : Bytes → Nat → α → Prop) (buf : Bytes) (v : Nat) (xs : List α) :
    Prop :=
  ∃ os, List.Forall₂ (fun o x => P buf o x) os xs ∧ (v = 0 ∧ xs = [] ∨ 0 < v ∧ VectorAt buf v os)

variable {α : Type} {b b₁ b₂ : Builder} {L : Nat}

theorem Grows.refl (b : Builder) : Grows b b := ⟨⟨[], rfl⟩, rfl, id, le_max_left _ _⟩

theorem Grows.trans (h₁ : Grows b b₁) (h₂ : Grows b₁ b₂) : Grows b b₂ := by
  obtain ⟨⟨pre₁, e₁⟩, n₁, w₁, m₁⟩ := h₁
  obtain ⟨⟨pre₂, e₂⟩, n₂, w₂, m₂⟩ := h₂
  exact ⟨⟨pre₂ ++ pre₁, by simp [e₁, e₂]⟩, n₂.trans n₁, w₂ ∘ w₁, by omega⟩

theorem Grows.nested_false (h : Grows b b₁) (hb : b.nested = false) : b₁.nested = false :=
  h.nested.trans hb

theorem Grows.offset_le (h : Grows b b₁) : b.offset ≤ b₁.offset := by
  obtain ⟨⟨pre, e⟩, -, -, -⟩ := h
  simp [e]

theorem Grows.stable {P : Bytes → Nat → Prop} (h : Grows b b₁) (hP : Stable P)
    (hp : P b.bytes o) : P b₁.bytes o := by
  obtain ⟨⟨pre, e⟩, -, -, -⟩ := h
  exact e ▸ hP pre _ o hp

theorem stringAt_stable (s : Bytes) : Stable fun buf o => StringAt buf o s :=
  fun pre _ _ h => h.prepend pre

theorem tableAt_stable (fs : List Field) : Stable fun buf o => TableAt buf o fs :=
  fun pre _ _ h => h.prepend pre

theorem vectorOf_stable {P : Bytes → Nat → α → Prop} (hP : ∀ x, Stable fun buf o => P buf o x)
    (xs : List α) : Stable fun buf v => VectorOf P buf v xs := by
  rintro pre buf v ⟨os, hall, h | ⟨hv, hvec⟩⟩
  · exact ⟨os, hall.imp fun o x h => hP x pre buf o h, .inl h⟩
  · exact ⟨os, hall.imp fun o x h => hP x pre buf o h, .inr ⟨hv, hvec.prepend pre⟩⟩

theorem createString_writes (s : Bytes) :
    Writes (createString s) (s.length + 8) fun buf o => StringAt buf o s := by
  intro b L hb hwf hL
  refine (createString_builds s hb hL).mono ?_
  rintro o b' ⟨rfl, rfl, hfit⟩
  have hpad := alignPad_lt 4 (b.offset + (s.length + 1)) (by decide)
  have hat := at_front (leBytes 4 s.length ++ s)
    ([0] ++ List.replicate (alignPad 4 (b.offset + (s.length + 1))) 0 ++ b.bytes)
  simp only [offset_def, List.length_append, length_leBytes, List.append_assoc] at hat hfit hpad ⊢
  unfold maxSize at hfit
  have hpre : leBytes 4 s.length ++ (s ++ ([0] ++
      (List.replicate (alignPad 4 (b.bytes.length + (s.length + 1))) 0 ++ b.bytes))) =
      (leBytes 4 s.length ++ s ++ [0] ++
        List.replicate (alignPad 4 (b.bytes.length + (s.length + 1))) 0) ++ b.bytes := by simp
  exact ⟨⟨⟨_, hpre⟩, rfl, fun h => h.extend _ rfl hpre, by simp only; omega⟩, by simp; omega,
    le_rfl, by simp; omega, by omega, hat⟩

theorem table_grows (n : Nat) (fs : List Field) (hn : fs.length ≤ n) (hsmall : n < 4000)
    (hb : b.nested = false) (hwf : b.WF) (hfs : ∀ f ∈ fs, f.RefBelow b.offset)
    (hL : b.offset + (fs.map Field.room).sum + 2 * n + 11 ≤ L) :
    Builds (table n fs) b L fun o b' =>
      Grows b b' ∧ b.offset < o ∧ o ≤ b'.offset ∧
        b'.offset ≤ b.offset + (fs.map Field.room).sum + 2 * n + 11 ∧ TableAt b'.bytes o fs := by
  refine (table_builds n fs hn hsmall hwf hb hfs hL).mono ?_
  rintro o b' ⟨⟨pre, m, vts, hpre, hm, rfl⟩, hwf', hlt, htab⟩
  obtain ⟨es, hobj, hes⟩ := htab
  exact ⟨⟨⟨pre, rfl⟩, rfl, fun _ => hwf', hm⟩, hlt, hobj.le_length, by simp; omega, es, hobj, hes⟩

theorem finish_grows (root : Nat) (hb : b.nested = false) (hr : root ≤ b.offset)
    (hL : b.offset + 2 * b.minalign + 7 ≤ L) :
    Builds (finish root) b L fun _ b' => Grows b b' ∧ b'.finished = true ∧
      RefAt b'.bytes b'.bytes.length root := by
  refine (finish_builds root hb hr hL).mono ?_
  rintro - b' ⟨pre, m, hm, rfl, href⟩
  exact ⟨⟨⟨pre, rfl⟩, rfl, fun hw => hw.extend pre rfl rfl, hm⟩, rfl, href⟩

theorem prependVector_grows (xs : List Nat) (hxs : ∀ x ∈ xs, x ≤ b.offset)
    (hb : b.nested = false) (hL : b.offset + 4 * xs.length + 7 ≤ L) :
    Builds (prependVector (startVector 4 · 4) xs) b L fun v b' =>
      Grows b b' ∧ b.offset < v ∧ v ≤ b'.offset ∧ b'.offset ≤ b.offset + 4 * xs.length + 7 ∧
        VectorAt b'.bytes v xs := by
  refine (prependVector_builds xs hxs hb hL).mono ?_
  rintro v b' ⟨p, hp, rfl, rfl, hvec⟩
  have hpre : leBytes 4 xs.length ++ vectorElems (b.offset + p) xs ++ List.replicate p 0 ++ b.bytes =
      (leBytes 4 xs.length ++ vectorElems (b.offset + p) xs ++ List.replicate p 0) ++ b.bytes := rfl
  refine ⟨⟨⟨_, hpre⟩, rfl, fun h => h.extend _ rfl hpre, by simp only; omega⟩, by simp; omega,
    le_rfl, by simp; omega, hvec⟩

theorem mapM_writes (ser : α → BuildM Nat) (size : α → Nat) (P : Bytes → Nat → α → Prop)
    (xs : List α) (hser : ∀ x ∈ xs, Writes (ser x) (size x) fun buf o => P buf o x)
    (hP : ∀ x, Stable fun buf o => P buf o x) (hb : b.nested = false) (hwf : b.WF)
    (hL : b.offset + (xs.map size).sum ≤ L) :
    Builds (xs.mapM ser) b L fun os b' => Grows b b' ∧ (∀ o ∈ os, b.offset < o ∧ o ≤ b'.offset) ∧
      b'.offset ≤ b.offset + (xs.map size).sum ∧ List.Forall₂ (fun o x => P b'.bytes o x) os xs := by
  induction xs generalizing b with
  | nil => exact ⟨Grows.refl b, by simp, by simp, .nil⟩
  | cons x xs ih =>
    simp only [List.mapM_cons, builds_bind, builds_pure]
    simp only [List.map_cons, List.sum_cons] at hL ⊢
    refine (hser x (.head xs) b L hb hwf (by omega)).mono ?_
    rintro o b₁ ⟨hg₁, hlt, hle, hsz₁, hp⟩
    refine (ih (fun y hy => hser y (.tail x hy)) (hg₁.nested_false hb) (hg₁.wf hwf)
      (by omega)).mono ?_
    rintro os b₂ ⟨hg₂, hos, hsz₂, hall⟩
    have h₁ := hg₁.offset_le
    have h₂ := hg₂.offset_le
    refine ⟨hg₁.trans hg₂, ?_, by omega, .cons (hg₂.stable (hP x) hp) hall⟩
    rintro o' (_ | ⟨_, ho'⟩)
    · exact ⟨hlt, by omega⟩
    · have := hos o' ho'
      omega

theorem vectorOf_writes (ser : α → BuildM Nat) (size : α → Nat) (P : Bytes → Nat → α → Prop)
    (xs : List α) (hser : ∀ x ∈ xs, Writes (ser x) (size x) fun buf o => P buf o x)
    (hP : ∀ x, Stable fun buf o => P buf o x) :
    Writes (do let os ← xs.mapM ser; prependVector (startVector 4 · 4) os)
      ((xs.map size).sum + 4 * xs.length + 7) fun buf v => VectorOf P buf v xs := by
  intro b L hb hwf hL
  rw [builds_bind]
  refine (mapM_writes ser size P xs hser hP hb hwf (by omega)).mono ?_
  rintro os b₁ ⟨hg₁, hos, hsz₁, hall⟩
  have hlen := hall.length_eq
  refine (prependVector_grows os (fun o ho => (hos o ho).2) (hg₁.nested_false hb)
    (by omega)).mono ?_
  rintro v b₂ ⟨hg₂, hlt, hle, hsz₂, hvec⟩
  have := hg₁.offset_le
  exact ⟨hg₁.trans hg₂, by omega, hle, by omega, os, hall.imp fun o x h => hg₂.stable (hP x) h,
    .inr ⟨by omega, hvec⟩⟩

theorem optVectorOf_builds (ser : α → BuildM Nat) (size : α → Nat) (P : Bytes → Nat → α → Prop)
    (xs : List α) (hser : ∀ x ∈ xs, Writes (ser x) (size x) fun buf o => P buf o x)
    (hP : ∀ x, Stable fun buf o => P buf o x) (hb : b.nested = false) (hwf : b.WF)
    (hL : b.offset + ((xs.map size).sum + 4 * xs.length + 7) ≤ L) :
    Builds (if 0 < xs.length then do
        let os ← xs.mapM ser
        prependVector (startVector 4 · 4) os
      else pure 0) b L
      fun v b' => Grows b b' ∧ v ≤ b'.offset ∧
        b'.offset ≤ b.offset + ((xs.map size).sum + 4 * xs.length + 7) ∧
        VectorOf P b'.bytes v xs := by
  split
  · exact (vectorOf_writes ser size P xs hser hP b L hb hwf hL).mono fun _ _ h =>
      ⟨h.1, h.2.2.1, h.2.2.2⟩
  · next h =>
    exact ⟨Grows.refl b, Nat.zero_le _, by omega, [], by simp_all, .inl ⟨rfl, by simp_all⟩⟩

section Reading

variable {t : Table} {o : Nat} {fs : List Field}

theorem TableAt.readTables {P : Bytes → Nat → α → Prop} {xs : List α}
    (h : TableAt t.bytes o fs) (ht : t.pos = t.bytes.length - o)
    (hf : fs[k]? = some (.uoffset v)) (hv : VectorOf P t.bytes v xs) :
    t.readVectorLen (4 + 2 * k) = .ok xs.length ∧ ∀ j (hj : j < xs.length), ∃ q,
      t.readTableAt (4 + 2 * k) j = .ok (some ⟨t.bytes, t.bytes.length - q⟩) ∧
        P t.bytes q xs[j] := by
  obtain ⟨os, hall, ⟨rfl, rfl⟩ | ⟨hv0, hvec⟩⟩ := hv
  · exact ⟨h.readVectorLen_absent ht hf, fun j hj => absurd hj (by simp)⟩
  · have hlen := hall.length_eq
    refine ⟨hlen ▸ h.readVectorLen ht hf hv0.ne' hvec, fun j hj => ?_⟩
    have hj' : j < os.length := hlen ▸ hj
    exact ⟨os[j], h.readTableAt ht hf hv0.ne' hvec hj', by simpa using hall.get hj' hj⟩

theorem TableAt.readStrings {xs : List Bytes} (h : TableAt t.bytes o fs)
    (ht : t.pos = t.bytes.length - o) (hf : fs[k]? = some (.uoffset v))
    (hv : VectorOf (fun buf o s => StringAt buf o s) t.bytes v xs) :
    t.readVectorLen (4 + 2 * k) = .ok xs.length ∧
      ∀ j (hj : j < xs.length), t.readStringAt (4 + 2 * k) j = .ok xs[j] := by
  obtain ⟨os, hall, ⟨rfl, rfl⟩ | ⟨hv0, hvec⟩⟩ := hv
  · exact ⟨h.readVectorLen_absent ht hf, fun j hj => absurd hj (by simp)⟩
  · have hlen := hall.length_eq
    refine ⟨hlen ▸ h.readVectorLen ht hf hv0.ne' hvec, fun j hj => ?_⟩
    exact h.readStringAt ht hf hv0.ne' hvec (hlen ▸ hj) (by simpa using hall.get (hlen ▸ hj) hj)

end Reading

end ClangDatabase.Flatbuffers
