import ClangDatabase.Flatbuffers.Builder

namespace ClangDatabase.Flatbuffers

variable {α β : Type} {b b' : Builder} {L : Nat}

def Builds (m : BuildM α) (b : Builder) (L : Nat) (Q : α → Builder → Prop) : Prop :=
  match m.run b with
  | .ok (a, b') => Q a b'
  | .error e => e = .cannotGrow ∧ maxSize ≤ L

section Plumbing

variable {Q : α → Builder → Prop}

@[simp] theorem builds_pure {a : α} : Builds (pure a) b L Q ↔ Q a b := Iff.rfl

@[simp] theorem builds_bind {m : BuildM β} {f : β → BuildM α} :
    Builds (m >>= f) b L Q ↔ Builds m b L (fun a b' => Builds (f a) b' L Q) := by
  unfold Builds
  rw [StateT.run_bind]
  cases m.run b <;> rfl

@[simp] theorem builds_get {Q : Builder → Builder → Prop} : Builds get b L Q ↔ Q b b := Iff.rfl

@[simp] theorem builds_set {Q : Unit → Builder → Prop} : Builds (set b') b L Q ↔ Q () b' :=
  Iff.rfl

@[simp] theorem builds_modify {f : Builder → Builder} {Q : Unit → Builder → Prop} :
    Builds (modify f) b L Q ↔ Q () (f b) := Iff.rfl

@[simp] theorem builds_throw {e : Fault} :
    Builds (throw e : BuildM α) b L Q ↔ e = .cannotGrow ∧ maxSize ≤ L := Iff.rfl

@[simp] theorem builds_ite {c : Prop} [Decidable c] {x y : BuildM α} :
    Builds (if c then x else y) b L Q ↔ if c then Builds x b L Q else Builds y b L Q := by
  split <;> rfl

@[simp] theorem builds_offset {Q : Nat → Builder → Prop} : Builds offset b L Q ↔ Q b.offset b :=
  Iff.rfl

@[simp] theorem builds_liftExcept {x : Except Fault α} :
    Builds (liftM x : BuildM α) b L Q ↔ match x with
      | .ok a => Q a b
      | .error e => e = .cannotGrow ∧ maxSize ≤ L := by
  cases x <;> rfl

@[simp] theorem liftM_ok_bind {a : β} {k : β → BuildM α} :
    ((liftM (Except.ok a : Except Fault β) : BuildM β) >>= k) = k a := rfl

theorem Builds.mono {m : BuildM α} {P : α → Builder → Prop} (h : Builds m b L P)
    (hPQ : ∀ a b', P a b' → Q a b') : Builds m b L Q := by
  unfold Builds at *
  split at h <;> simp_all

theorem Builds.bind {m : BuildM β} {f : β → BuildM α} {P : β → Builder → Prop}
    (h : Builds m b L P) (hf : ∀ a b', P a b' → Builds (f a) b' L Q) : Builds (m >>= f) b L Q :=
  builds_bind.mpr (h.mono hf)

theorem Builds.run {m : BuildM α} (h : Builds m b L Q) :
    (m.run b = .error .cannotGrow ∧ maxSize ≤ L) ∨ ∃ a b', m.run b = .ok (a, b') ∧ Q a b' := by
  unfold Builds at h
  split at h
  · next a b' hr => exact .inr ⟨a, b', hr, h⟩
  · next e hr => exact .inl ⟨h.1 ▸ hr, h.2⟩

theorem Builds.ok {m : BuildM α} (h : Builds m b L Q) (hL : L < maxSize) :
    ∃ a b', m.run b = .ok (a, b') ∧ Q a b' :=
  h.run.resolve_left fun ⟨_, h⟩ => absurd hL (Nat.not_lt.mpr h)

theorem Builds.run_bind_error {m : BuildM β} {f : β → BuildM α} {P : β → Builder → Prop}
    {e : Fault} (h : Builds m b L P) (hL : L < maxSize)
    (hf : ∀ a b', P a b' → (f a).run b' = .error e) : (m >>= f).run b = .error e := by
  obtain ⟨a, b', hr, hp⟩ := h.ok hL
  rw [StateT.run_bind, hr]
  exact hf a b' hp

end Plumbing

@[simp] theorem offset_def : b.offset = b.bytes.length := rfl

theorem prep_builds (size add : Nat)
    (hL : b.offset + alignPad size (b.offset + add) + size + add ≤ L) :
    Builds (prep size add) b L fun _ b' =>
      b' = { b with minalign := max b.minalign size,
                    bytes := List.replicate (alignPad size (b.offset + add)) 0 ++ b.bytes } ∧
      b'.offset + size + add < maxSize := by
  simp only [prep, pad, builds_bind, builds_modify, builds_get, builds_ite, builds_throw,
    builds_pure]
  split
  · next hc =>
    simp only [Builder.offset] at hc hL
    exact ⟨trivial, by omega⟩
  · next hc =>
    simp only [Builder.offset, List.length_append, List.length_replicate, true_and] at hc ⊢
    omega

theorem alignPad_lt (size x : Nat) (h : 0 < size) : alignPad size x < size :=
  Nat.mod_lt _ h

theorem alignPad_le (size x : Nat) : alignPad size x ≤ size :=
  (Nat.mod_le _ _).trans (Nat.sub_le _ _)

theorem prependUOffsetT_builds (off : Nat) (h : off ≤ b.offset)
    (hL : b.offset + alignPad 4 b.offset + 4 ≤ L) :
    Builds (prependUOffsetT off) b L fun _ b' =>
      b' = { b with minalign := max b.minalign 4,
                    bytes := leBytes 4 (b.offset + alignPad 4 b.offset - off + 4) ++
                      List.replicate (alignPad 4 b.offset) 0 ++ b.bytes } ∧
      b'.offset < maxSize := by
  simp only [prependUOffsetT, builds_bind]
  refine (prep_builds 4 0 hL).mono ?_
  rintro - b₁ ⟨rfl, hfit⟩
  simp only [Builder.offset, List.length_append, List.length_replicate, place, builds_ite,
    builds_modify, builds_throw, builds_offset, Nat.add_zero] at *
  rw [if_pos (by omega)]
  simp only [List.append_assoc, List.length_append, length_leBytes, List.length_replicate,
    Nat.add_comm (alignPad 4 _), true_and]
  omega

theorem prependScalar_builds (w x : Nat) (hL : b.offset + alignPad w b.offset + w ≤ L) :
    Builds (do prep w 0; place w x) b L fun _ b' =>
      b' = { b with minalign := max b.minalign w,
                    bytes := leBytes w x ++ List.replicate (alignPad w b.offset) 0 ++ b.bytes } ∧
      b'.offset < maxSize := by
  rw [builds_bind]
  refine (prep_builds w 0 hL).mono ?_
  rintro - b₁ ⟨rfl, hfit⟩
  simp only [place, builds_modify, Builder.offset, List.length_append, length_leBytes,
    List.length_replicate, List.append_assoc, Nat.add_zero, true_and] at *
  omega

theorem startVector_builds (numElems : Nat) (h : b.nested = false)
    (hL : b.offset + 4 * numElems + 7 ≤ L) :
    Builds (startVector 4 numElems 4) b L fun o b' =>
      ∃ p, b' = { b with nested := true, minalign := max (max b.minalign 4) 4,
                         bytes := List.replicate p 0 ++ b.bytes } ∧
        o = b'.offset ∧ p = alignPad 4 (alignPad 4 (b.offset + 4 * numElems) +
          b.offset + 4 * numElems) + alignPad 4 (b.offset + 4 * numElems) ∧
        b'.offset + 4 + 4 * numElems < maxSize := by
  simp only [startVector, assertNotNested, builds_bind, builds_get, h, Bool.false_eq_true,
    if_false, builds_pure, builds_modify]
  have h₁ := alignPad_lt 4 (b.offset + 4 * numElems) (by decide)
  have h₂ : alignPad 4 (alignPad 4 (b.offset + 4 * numElems) + b.offset + 4 * numElems) = 0 := by
    simp only [alignPad]; omega
  simp only [offset_def] at hL h₁ h₂
  refine (prep_builds 4 _ (by simp only [offset_def]; omega)).mono ?_
  rintro - b₁ ⟨rfl, -⟩
  refine (prep_builds 4 _ ?_).mono ?_
  · simp only [offset_def, List.length_append, List.length_replicate]; omega
  rintro - b₂ ⟨rfl, hfit⟩
  simp only [builds_offset, Builder.offset, List.length_append, List.length_replicate] at hfit ⊢
  refine ⟨_, ?_, trivial, rfl, by omega⟩
  simp only [← List.append_assoc, List.replicate_add]

theorem endVector_builds (n : Nat) (h : b.nested = true) :
    Builds (endVector n) b L fun o b' =>
      b' = { b with nested := false, bytes := leBytes 4 n ++ b.bytes } ∧ o = b'.offset := by
  simp [endVector, assertNested, h, place]

theorem createString_builds (s : Bytes) (h : b.nested = false) (hL : b.offset + s.length + 8 ≤ L) :
    Builds (createString s) b L fun o b' =>
      b' = { b with minalign := max b.minalign 4,
                    bytes := leBytes 4 s.length ++ s ++ [0] ++
                      List.replicate (alignPad 4 (b.offset + (s.length + 1))) 0 ++ b.bytes } ∧
      o = b'.offset ∧ o < maxSize := by
  simp only [createString, assertNotNested, builds_bind, builds_get, h, Bool.false_eq_true,
    if_false, builds_pure, builds_modify]
  have := alignPad_lt 4 (b.offset + (s.length + 1)) (by decide)
  refine (prep_builds 4 _ (by simp only [offset_def] at *; omega)).mono ?_
  rintro - b₁ ⟨rfl, hfit⟩
  simp only [place, builds_modify, endVector, assertNested, builds_bind, builds_get,
    builds_ite, builds_offset, builds_pure, Builder.offset, List.length_append, length_leBytes,
    List.length_replicate, if_true, Bool.not_true, Bool.false_eq_true, if_false] at *
  simp only [true_and, and_true]
  refine ⟨by simp [List.append_assoc, leBytes], by omega⟩

theorem startObject_builds (n : Nat) (h : b.nested = false) :
    Builds (startObject n) b L fun _ b' =>
      b' = { b with nested := true, vtable := List.replicate n 0, objectEnd := b.offset } := by
  simp [startObject, assertNotNested, h]

theorem slot_builds (k : Nat) (h : k < b.vtable.length) :
    Builds (slot k) b L fun _ b' => b' = { b with vtable := b.vtable.set k b.offset } := by
  simp [slot, h]

end ClangDatabase.Flatbuffers
