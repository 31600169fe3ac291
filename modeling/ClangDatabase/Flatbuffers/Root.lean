import ClangDatabase.Flatbuffers.Read

namespace ClangDatabase.Flatbuffers

variable {b : Builder} {buf : Bytes} {L : Nat}

theorem finish_builds (root : Nat) (hb : b.nested = false) (hr : root ≤ b.offset)
    (hL : b.offset + 2 * b.minalign + 7 ≤ L) :
    Builds (finish root) b L fun _ b' => ∃ pre m, m ≤ max b.minalign 8 ∧
      b' = { b with bytes := pre ++ b.bytes, minalign := m, finished := true } ∧
      RefAt b'.bytes b'.bytes.length root := by
  simp only [finish, assertNotNested, builds_bind, builds_get, hb, Bool.false_eq_true, if_false,
    builds_pure]
  have h₁ := alignPad_le b.minalign (b.offset + 4)
  have h₂ := alignPad_lt 4 (alignPad b.minalign (b.offset + 4) + b.offset) (by decide)
  simp only [offset_def] at hL h₁ h₂
  refine (prep_builds b.minalign 4 (by simp only [offset_def]; omega)).mono ?_
  rintro - b₁ ⟨rfl, -⟩
  refine (prependUOffsetT_builds root (by simp at hr ⊢; omega)
    (by simp only [offset_def, List.length_append, List.length_replicate]; omega)).mono ?_
  rintro - b₂ ⟨rfl, hfit⟩
  simp only [builds_modify, offset_def, List.length_append, List.length_replicate] at hfit hr ⊢
  unfold maxSize at hfit
  generalize alignPad b.minalign (b.bytes.length + 4) = P at hfit ⊢
  generalize alignPad 4 (P + b.bytes.length) = Q at hfit ⊢
  refine ⟨leBytes 4 (P + b.bytes.length + Q - root + 4) ++ List.replicate Q 0 ++
    List.replicate P 0, max (max b.minalign b.minalign) 4, by omega,
    by simp only [List.append_assoc, hb],
    ?_⟩
  have hat := at_front (leBytes 4 (P + b.bytes.length + Q - root + 4))
    (List.replicate Q 0 ++ (List.replicate P 0 ++ b.bytes))
  simp only [List.length_append, List.length_replicate, length_leBytes, List.append_assoc] at hat hfit ⊢
  refine ⟨by omega, by omega, ?_⟩
  convert hat using 1
  · omega
  · congr 1
    omega

theorem getRoot_refAt (h : RefAt buf buf.length root) :
    getRoot buf 0 = .ok ⟨buf, buf.length - root⟩ := by
  have := h.get
  simp only [Nat.sub_self] at this
  simp [getRoot, this, bind, Except.bind, pure, Except.pure]

theorem finishedBytes_run (h : b.finished = true) : finishedBytes.run b = .ok (b.bytes, b) := by
  simp [finishedBytes, h, StateT.run, bind, StateT.bind, get, getThe, MonadStateOf.get,
    StateT.get, pure, StateT.pure, Except.bind, Except.pure]

end ClangDatabase.Flatbuffers
