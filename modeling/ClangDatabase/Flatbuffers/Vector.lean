import ClangDatabase.Flatbuffers.Builds
import ClangDatabase.Flatbuffers.Table

namespace ClangDatabase.Flatbuffers

/-- The idiom every vector of the code is written with: `StartXVector(builder, n)`, then
`PrependUOffsetT(xs[i])` for `i` from `n - 1` down to `0`, then `EndVector(n)`. -/
def prependVector (startXVector : Nat → BuildM Nat) (xs : List Nat) : BuildM Nat := do
  let _ ← startXVector xs.length
  xs.reverse.forM prependUOffsetT
  endVector xs.length

def vectorElems (base : Nat) : List Nat → Bytes
  | [] => []
  | x :: xs => leBytes 4 (base + 4 * (xs.length + 1) - x) ++ vectorElems base xs

variable {b c : Builder} {buf : Bytes} {L : Nat}

@[simp] theorem length_vectorElems (base : Nat) (xs : List Nat) :
    (vectorElems base xs).length = 4 * xs.length := by
  induction xs <;> simp [vectorElems, *]; omega

theorem At.vectorElem (h : At buf o (vectorElems base xs)) (j : Nat) (hj : j < xs.length) :
    At buf (o - 4 * j) (leBytes 4 (base + 4 * (xs.length - j) - xs[j])) := by
  induction xs generalizing o j with
  | nil => simp at hj
  | cons x xs ih =>
    cases j with
    | zero => simpa [vectorElems] using h.left
    | succ j =>
      have := ih (by simpa using h.right) j (by simpa using hj)
      simpa [Nat.sub_sub, Nat.mul_succ, Nat.add_comm, Nat.add_sub_add_right] using this

theorem forM_prependUOffsetT_builds (xs : List Nat) (hc : c.offset % 4 = 0) (hm : 4 ≤ c.minalign)
    (hxs : ∀ x ∈ xs, x ≤ c.offset) (hL : c.offset + 4 * xs.length ≤ L) :
    Builds (xs.reverse.forM prependUOffsetT) c L fun _ c' =>
      c' = { c with bytes := vectorElems c.offset xs ++ c.bytes } := by
  induction xs with
  | nil => simp [vectorElems]
  | cons x xs ih =>
    rw [List.reverse_cons, List.forM_append, builds_bind]
    simp only [List.length_cons] at hL
    refine (ih (fun y hy => hxs y (.tail x hy)) (by omega)).mono ?_
    rintro - c₁ rfl
    have hx := hxs x (.head xs)
    simp only [offset_def] at hc hx hL
    simp only [List.forM, builds_bind, builds_pure]
    have hpad : alignPad 4 (4 * xs.length + c.bytes.length) = 0 := by
      simp only [alignPad]
      omega
    refine (prependUOffsetT_builds x (by simp; omega) (by simp [hpad]; omega)).mono ?_
    rintro - c₂ ⟨rfl, -⟩
    simp only [offset_def, List.length_append, length_vectorElems, hpad, List.replicate_zero,
      List.nil_append, vectorElems, List.append_assoc, Nat.max_eq_left hm, Nat.add_zero]
    congr 3
    omega

theorem prependVector_builds (xs : List Nat) (hxs : ∀ x ∈ xs, x ≤ b.offset) (hb : b.nested = false)
    (hL : b.offset + 4 * xs.length + 7 ≤ L) :
    Builds (prependVector (startVector 4 · 4) xs) b L fun v b' => ∃ p < 4,
      b' = { b with bytes := leBytes 4 xs.length ++ vectorElems (b.offset + p) xs ++
                      List.replicate p 0 ++ b.bytes,
                    minalign := max (max b.minalign 4) 4 } ∧
      v = b'.offset ∧ VectorAt b'.bytes v xs := by
  simp only [prependVector, builds_bind]
  refine (startVector_builds xs.length hb (by omega)).mono ?_
  rintro - b₁ ⟨p, rfl, -, rfl, hfit⟩
  simp only [offset_def, List.length_append, List.length_replicate] at hfit hxs hL ⊢
  have hp : alignPad 4 (alignPad 4 (b.bytes.length + 4 * xs.length) + b.bytes.length +
      4 * xs.length) + alignPad 4 (b.bytes.length + 4 * xs.length) < 4 ∧
      (alignPad 4 (alignPad 4 (b.bytes.length + 4 * xs.length) + b.bytes.length +
        4 * xs.length) + alignPad 4 (b.bytes.length + 4 * xs.length) + b.bytes.length) % 4 = 0 := by
    simp only [alignPad]; omega
  generalize alignPad 4 (alignPad 4 _ + _ + _) + alignPad 4 _ = p at hp hfit ⊢
  refine (forM_prependUOffsetT_builds xs (by simpa using hp.2)
    (by simp [Nat.le_max_right]) (fun x hx => by simp; have := hxs x hx; omega)
    (by simp only [offset_def, List.length_append, List.length_replicate]; omega)).mono ?_
  rintro - b₂ rfl
  refine (endVector_builds _ rfl).mono ?_
  rintro v b₃ ⟨rfl, rfl⟩
  simp only [offset_def, List.length_append, List.length_replicate, length_leBytes,
    length_vectorElems] at hxs ⊢
  unfold maxSize at hfit
  have hrest := at_front (leBytes 4 xs.length ++ vectorElems (p + b.bytes.length) xs)
    (List.replicate p 0 ++ b.bytes)
  simp only [List.length_append, length_leBytes, length_vectorElems, List.length_replicate,
    List.append_assoc, Nat.add_assoc] at hrest
  refine ⟨p, hp.1, by simp [Nat.add_comm p, hb], trivial, by omega, hrest.left, fun j hj => ?_⟩
  have hx := hxs _ (List.getElem_mem hj)
  refine ⟨by omega, by omega, ?_⟩
  have := hrest.right.vectorElem j hj
  simp only [length_leBytes] at this
  rwa [show 4 + (4 * xs.length + (p + b.bytes.length)) - 4 - 4 * j - xs[j] =
    p + b.bytes.length + 4 * (xs.length - j) - xs[j] by omega]

end ClangDatabase.Flatbuffers
