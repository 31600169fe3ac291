import Mathlib.Data.List.GetD
import ClangDatabase.Flatbuffers.Builds
import ClangDatabase.Flatbuffers.Table

namespace ClangDatabase.Flatbuffers

def Builder.WF (b : Builder) : Prop := ∀ v ∈ b.vtables, ∃ es, VtableAt b.bytes v es

/-- The entries `WriteVtable` stores for the slots `vtable` of the object at `objectOffset`. -/
def entriesOf (objectOffset : Nat) (vtable : List Nat) : List Nat :=
  vtable.map fun off => if off ≠ 0 then objectOffset - off else 0

variable {b c : Builder} {buf : Bytes} {L : Nat}

theorem Builder.WF.extend (h : b.WF) (pre : Bytes) (hv : c.vtables = b.vtables)
    (hb : c.bytes = pre ++ b.bytes) : c.WF := fun v hv' =>
  (h v (hv ▸ hv')).imp fun _ hes => hb ▸ hes.prepend pre

theorem ObjectAt.le_length (h : ObjectAt buf o es) : o ≤ buf.length :=
  h.elim fun _ ⟨_, _, _, hs⟩ => hs.1

section Trim

theorem trimVtable_append (vt : List Nat) : ∃ m, vt = trimVtable vt ++ List.replicate m 0 := by
  obtain ⟨m, hm⟩ : ∃ m, vt.reverse.takeWhile (· == 0) = List.replicate m 0 :=
    ⟨_, List.eq_replicate_iff.mpr ⟨rfl, fun x hx => by simpa using List.mem_takeWhile_imp hx⟩⟩
  refine ⟨m, ?_⟩
  calc vt = (vt.reverse.takeWhile (· == 0) ++ vt.reverse.dropWhile (· == 0)).reverse := by
        rw [List.takeWhile_append_dropWhile, List.reverse_reverse]
    _ = trimVtable vt ++ List.replicate m 0 := by
        rw [List.reverse_append, hm, List.reverse_replicate]; rfl

theorem getD_append_zeros (l : List Nat) (m k : Nat) :
    (l ++ List.replicate m 0).getD k 0 = l.getD k 0 := by
  by_cases hk : k < l.length
  · exact List.getD_append _ _ _ _ hk
  · rw [List.getD_append_right _ _ _ _ (by omega), List.getD_eq_default l 0 (by omega)]
    simp only [List.getD_eq_getElem?_getD, List.getElem?_replicate]
    split <;> rfl

theorem getD_entriesOf_trimVtable (o k : Nat) (vt : List Nat) :
    (entriesOf o (trimVtable vt)).getD k 0 = (entriesOf o vt).getD k 0 := by
  obtain ⟨m, hm⟩ := trimVtable_append vt
  conv_rhs => rw [hm]
  simp only [entriesOf, List.map_append, List.map_replicate, ne_eq, not_true_eq_false, if_false,
    getD_append_zeros]

theorem mem_trimVtable {vt : List Nat} (h : off ∈ trimVtable vt) : off ∈ vt := by
  obtain ⟨m, hm⟩ := trimVtable_append vt
  rw [hm]
  exact List.mem_append_left _ h

theorem length_trimVtable_le (vt : List Nat) : (trimVtable vt).length ≤ vt.length := by
  obtain ⟨m, hm⟩ := trimVtable_append vt
  conv_rhs => rw [hm]
  simp

end Trim

section Search

theorem leBytes_two (e : Nat) : leBytes 2 e = [UInt8.ofNat e, UInt8.ofNat (e / 256)] := rfl

theorem eq_entriesOf_of_vtableEqual {o : Nat} :
    ∀ {vt es : List Nat}, (∀ a ∈ vt, a ≤ o) → (∀ e ∈ es, e < o ∧ e < 2 ^ 16) →
      vtableEqual vt o (vtableBytes es) = true → es = entriesOf o vt
  | [], [], _, _, _ => rfl
  | [], e :: es, _, _, h => by simp [vtableBytes, leBytes_two, vtableEqual] at h
  | a :: vt, [], _, _, h => by simp [vtableBytes, vtableEqual] at h
  | a :: vt, e :: es, hvt, hes, h => by
    have he := hes e (.head es)
    have ha := hvt a (.head vt)
    have hx := @leValue_leBytes_of_lt 2 e (by have := he.2; omega)
    rw [leBytes_two] at hx
    simp only [vtableBytes, List.map_cons, List.flatten_cons, leBytes_two, List.cons_append,
      List.nil_append, vtableEqual, hx, Bool.and_eq_true, Bool.or_eq_true, beq_iff_eq] at h
    have ih := eq_entriesOf_of_vtableEqual (fun a h => hvt a (.tail _ h))
      (fun e h => hes e (.tail _ h)) h.2
    simp only [entriesOf, List.map_cons, List.cons.injEq] at ih ⊢
    refine ⟨?_, ih⟩
    split <;> omega

theorem VtableAt.search (h : VtableAt buf v es) :
    getVOffsetT buf (buf.length - v) = .ok ((es.length + 2) * 2) ∧
      slice buf (buf.length - v + 4) (buf.length - v + (es.length + 2) * 2) = .ok (vtableBytes es) := by
  refine ⟨h.size, ?_⟩
  obtain ⟨⟨_, hat⟩, -, -⟩ := h
  have hl := hat.length_le
  have hv := hat.1
  have hs := hat.right.slice_eq
  simp only [List.length_append, length_leBytes, length_vtableBytes] at hl hs
  rwa [show buf.length - (v - (2 + 2)) = buf.length - v + 4 by omega,
    show buf.length - v + 4 + 2 * es.length = buf.length - v + (es.length + 2) * 2 by omega] at hs

theorem findVtable_ok (vt : List Nat) (o : Nat) :
    ∀ {vts : List Nat}, (∀ v ∈ vts, ∃ es, VtableAt buf v es) →
      ∃ r, findVtable buf vt o vts = .ok r ∧ ∀ v, r = some v → v ∈ vts ∧
        ∀ es, VtableAt buf v es → vtableEqual vt o (vtableBytes es) = true
  | [], _ => ⟨none, rfl, by simp⟩
  | v :: vts, h => by
    obtain ⟨es, hes⟩ := h v (.head vts)
    obtain ⟨hlen, hsl⟩ := hes.search
    have hv : ¬ buf.length < v := by have := hes.1.elim fun _ h => h.1; omega
    by_cases heq : vtableEqual vt o (vtableBytes es) = true
    · refine ⟨some v, by simp [findVtable, hv, hlen, hsl, heq, bind, Except.bind, pure,
        Except.pure], fun w hw => ?_⟩
      cases hw
      refine ⟨.head vts, fun es' hes' => ?_⟩
      obtain ⟨hlen', hsl'⟩ := hes'.search
      rw [hlen, Except.ok.injEq] at hlen'
      rw [← hlen', hsl, Except.ok.injEq] at hsl'
      rwa [← hsl']
    · obtain ⟨r, hr, hsound⟩ := findVtable_ok vt o fun w hw => h w (.tail v hw)
      exact ⟨r, by simp [findVtable, hv, hlen, hsl, heq, hr, bind, Except.bind, pure, Except.pure],
        fun w hw => (hsound w hw).imp_left (.tail v)⟩

end Search

section Write

theorem writeSOffsetT_builds (pos : Nat) (n : Int) (h : pos + 4 ≤ b.offset) :
    Builds (writeSOffsetT pos n) b L fun _ b' =>
      b' = { b with bytes := b.bytes.take pos ++ leBytes 4 (n % 2 ^ 32).toNat ++
        b.bytes.drop (pos + 4) } := by
  simp only [offset_def] at h
  simp [writeSOffsetT, h]

theorem prependSOffsetT_zero_builds (hL : b.offset + 7 ≤ L) :
    Builds (prependSOffsetT 0) b L fun _ b' => ∃ w : Bytes, w.length = 4 ∧
      b' = { b with minalign := max b.minalign 4,
                    bytes := w ++ List.replicate (alignPad 4 b.offset) 0 ++ b.bytes } ∧
      b'.offset < maxSize := by
  simp only [prependSOffsetT, builds_bind]
  have := alignPad_lt 4 (b.offset + 0) (by decide)
  refine (prep_builds 4 0 (by omega)).mono ?_
  rintro - b₁ ⟨rfl, hfit⟩
  simp only [builds_offset, builds_ite, place, builds_modify, builds_throw]
  rw [if_pos (by simp)]
  refine ⟨_, length_leBytes 4 _, rfl, ?_⟩
  simp only [offset_def, List.length_append, List.length_replicate, length_leBytes] at hfit ⊢
  omega

theorem prependVOffsetT_builds (x : Nat) (hc : c.offset % 2 = 0) (hm : 2 ≤ c.minalign)
    (hL : c.offset + 2 ≤ L) :
    Builds (prependVOffsetT x) c L fun _ c' =>
      c' = { c with bytes := leBytes 2 x ++ c.bytes } ∧ c'.offset < maxSize := by
  have hpad : alignPad 2 c.offset = 0 := by simp only [alignPad]; omega
  refine (prependScalar_builds 2 x (by omega)).mono ?_
  rintro - c' ⟨rfl, hfit⟩
  refine ⟨?_, hfit⟩
  simp only [hpad, List.replicate_zero, List.append_nil, Nat.max_eq_left hm]

theorem forM_prependVOffsetT_builds (g : Nat → Nat) (vt : List Nat) (hc : c.offset % 2 = 0)
    (hm : 2 ≤ c.minalign) (hL : c.offset + 2 * vt.length ≤ L) :
    Builds (vt.reverse.forM fun off => prependVOffsetT (g off)) c L fun _ c' =>
      c' = { c with bytes := vtableBytes (vt.map g) ++ c.bytes } := by
  induction vt with
  | nil => simp [vtableBytes]
  | cons x vt ih =>
    rw [List.reverse_cons, List.forM_append, builds_bind]
    refine (ih (by simp at hL ⊢; omega)).mono ?_
    rintro - c₁ rfl
    simp only [List.forM, builds_bind, builds_pure]
    simp only [offset_def, List.length_cons] at hc hL
    refine (prependVOffsetT_builds (g x) ?_ (by exact hm) ?_).mono ?_
    · simp only [offset_def, List.length_append, length_vtableBytes]
      omega
    · simp only [offset_def, List.length_append, length_vtableBytes, List.length_map]
      omega
    rintro - c₂ ⟨rfl, -⟩
    simp only [List.map_cons, vtableBytes, List.flatten_cons, List.append_assoc]

theorem reuseVtable_builds (v o : Nat) (hc : c.offset = o) (h4 : 4 ≤ o) :
    Builds (reuseVtable v o) c L fun _ c' =>
      c' = { c with bytes := leBytes 4 (((v : Int) - o) % 2 ^ 32).toNat ++ c.bytes.drop 4 } := by
  simp only [reuseVtable, builds_bind, builds_modify, hc, Nat.sub_self, List.drop_zero]
  refine (writeSOffsetT_builds 0 _ (by simp only [offset_def] at hc ⊢; omega)).mono ?_
  rintro - c' rfl
  simp

theorem writeNewVtable_builds (vt : List Nat) (e0 o : Nat) (hc : c.offset = o) (ho : o % 4 = 0)
    (h4 : 4 ≤ o) (hm : 4 ≤ c.minalign) (hvt : ∀ off ∈ vt, off ≠ 0 → e0 < off ∧ off < o)
    (hsize : o - e0 < 2 ^ 16) (hlen : (vt.length + 2) * 2 < 2 ^ 16)
    (hL : c.offset + 2 * vt.length + 4 ≤ L) :
    Builds (writeNewVtable vt e0 o) c L fun _ c' => ∃ v pre, pre.length = 2 * vt.length + 4 ∧
      c' = { c with bytes := pre ++ leBytes 4 (((v : Int) - o) % 2 ^ 32).toNat ++ c.bytes.drop 4,
                    vtables := c.vtables ++ [v] } ∧
      VtableAt c'.bytes v (entriesOf o vt) ∧ o < v ∧ v < maxSize := by
  unfold writeNewVtable
  simp only [builds_bind]
  simp only [offset_def] at hc hL
  refine (forM_prependVOffsetT_builds _ vt (by simp only [offset_def]; omega) (by omega)
    (by simp only [offset_def]; omega)).mono ?_
  rintro - c₁ rfl
  refine (prependVOffsetT_builds (o - e0) ?_ (by exact (by omega : 2 ≤ c.minalign)) ?_).mono ?_
  · simp only [offset_def, List.length_append, length_vtableBytes]; omega
  · simp only [offset_def, List.length_append, length_vtableBytes, List.length_map]; omega
  rintro - c₂ ⟨rfl, -⟩
  refine (prependVOffsetT_builds ((vt.length + 2) * 2) ?_ (by exact (by omega : 2 ≤ c.minalign)) ?_).mono ?_
  · simp only [offset_def, List.length_append, length_vtableBytes, length_leBytes]; omega
  · simp only [offset_def, List.length_append, length_vtableBytes, length_leBytes,
      List.length_map]; omega
  set H := leBytes 2 ((vt.length + 2) * 2) ++ leBytes 2 (o - e0) ++ vtableBytes (entriesOf o vt)
    with hH
  have hHl : H.length = 4 + 2 * vt.length := by
    simp only [hH, List.length_append, length_leBytes, length_vtableBytes, entriesOf, List.length_map]
  rintro - c₃ ⟨hc₃, hfit⟩
  replace hc₃ : c₃ = { c with bytes := H ++ c.bytes } := by
    rw [hc₃]
    simp only [hH, entriesOf, List.append_assoc]
  subst hc₃
  simp only [builds_offset]
  refine (writeSOffsetT_builds _ _ (by simp only [offset_def, List.length_append]; omega)).mono ?_
  rintro - c₄ rfl
  simp only [builds_modify, offset_def, List.length_append, hc, Nat.add_sub_cancel, List.take_left,
    List.drop_append] at hfit ⊢
  refine ⟨_, H, by omega, rfl, ⟨⟨o - e0, ?_⟩, by simpa [entriesOf] using hlen, fun e he => ?_⟩, by omega, hfit⟩
  · have hat := at_front H (leBytes 4 (((H.length + o : Nat) - o : Int) % 2 ^ 32).toNat ++
      c.bytes.drop 4)
    simp only [List.length_append, length_leBytes, List.length_drop, ← List.append_assoc] at hat
    rw [show H.length + 4 + (c.bytes.length - 4) = H.length + o by omega] at hat
    simpa only [entriesOf, List.length_map, hH] using hat
  · simp only [entriesOf, List.mem_map] at he
    obtain ⟨off, hoff, rfl⟩ := he
    have := hvt off hoff
    split <;> omega

theorem writeVtable_builds (hwf : b.WF)
    (hvt : ∀ off ∈ b.vtable, off ≠ 0 → b.objectEnd < off ∧ off ≤ b.offset)
    (hsize : b.offset + 8 ≤ b.objectEnd + 2 ^ 16) (hlen : (b.vtable.length + 2) * 2 < 2 ^ 16)
    (hL : b.offset + 2 * b.vtable.length + 11 ≤ L) :
    Builds writeVtable b L fun o b' =>
      (∃ pre vts, pre.length ≤ 2 * b.vtable.length + 11 ∧
        b' = { b with bytes := pre ++ b.bytes, minalign := max b.minalign 4,
                      vtable := [], vtables := vts }) ∧
      b'.WF ∧ b.offset < o ∧ ObjectAt b'.bytes o (entriesOf o (trimVtable b.vtable)) := by
  unfold writeVtable
  simp only [builds_bind]
  refine (prependSOffsetT_zero_builds (by omega)).mono ?_
  rintro - b₁ ⟨w, hw, rfl, hfit⟩
  simp only [builds_offset, builds_modify, builds_get, offset_def, List.length_append, hw,
    List.length_replicate, List.append_assoc] at hfit ⊢
  have hpad := alignPad_lt 4 b.bytes.length (by omega)
  have ho4 : (4 + (alignPad 4 b.bytes.length + b.bytes.length)) % 4 = 0 := by
    simp only [alignPad]; omega
  generalize hO : 4 + (alignPad 4 b.bytes.length + b.bytes.length) = o at hfit ho4 ⊢
  simp only [offset_def] at hvt hsize hL
  have htrim := length_trimVtable_le b.vtable
  have hvt' : ∀ off ∈ trimVtable b.vtable, off ≠ 0 → b.objectEnd < off ∧ off < o :=
    fun off h h0 => (hvt off (mem_trimVtable h) h0).imp_right fun h => by omega
  have hwf₁ : ∀ v ∈ b.vtables.reverse, ∃ es,
      VtableAt (w ++ (List.replicate (alignPad 4 b.bytes.length) 0 ++ b.bytes)) v es :=
    fun v hv => (hwf v (List.mem_reverse.mp hv)).imp fun _ h => by
      have := h.prepend (w ++ List.replicate (alignPad 4 b.bytes.length) 0)
      rwa [List.append_assoc] at this
  obtain ⟨r, hr, hsound⟩ := findVtable_ok (trimVtable b.vtable) o hwf₁
  rw [builds_liftExcept, hr]
  have hdrop : (w ++ (List.replicate (alignPad 4 b.bytes.length) 0 ++ b.bytes)).drop 4 =
      List.replicate (alignPad 4 b.bytes.length) 0 ++ b.bytes := List.drop_left' hw
  have hat : ∀ x, At (leBytes 4 x ++ (List.replicate (alignPad 4 b.bytes.length) 0 ++ b.bytes)) o
      (leBytes 4 x) := fun x => by
    have := at_front (leBytes 4 x) (List.replicate (alignPad 4 b.bytes.length) 0 ++ b.bytes)
    simp only [List.length_append, length_leBytes, List.length_replicate, hO] at this
    exact this
  rcases r with _ | v
  · dsimp only
    rw [builds_bind]
    refine (writeNewVtable_builds _ _ _ ?_ ho4 (by omega) (Nat.le_max_right _ _) hvt' (by omega)
      (by omega) ?_).mono ?_
    · simp only [offset_def, List.length_append, hw, List.length_replicate]; omega
    · simp only [offset_def, List.length_append, hw, List.length_replicate]; omega
    rintro - c' ⟨v, pre, hpre, rfl, hvtab, hov, hvmax⟩
    simp only [builds_bind, builds_modify, builds_pure, hdrop] at hvtab ⊢
    unfold maxSize at hvmax hfit
    have hfin : pre ++ leBytes 4 (((v : Int) - o) % 2 ^ 32).toNat ++
        (List.replicate (alignPad 4 b.bytes.length) 0 ++ b.bytes) = (pre ++
        leBytes 4 (((v : Int) - o) % 2 ^ 32).toNat ++ List.replicate (alignPad 4 b.bytes.length) 0)
        ++ b.bytes := by simp only [List.append_assoc]
    have hlen' : (pre ++ leBytes 4 (((v : Int) - o) % 2 ^ 32).toNat ++
        List.replicate (alignPad 4 b.bytes.length) 0).length ≤ 2 * b.vtable.length + 11 := by
      simp only [List.length_append, length_leBytes, List.length_replicate]; omega
    refine ⟨⟨_, b.vtables ++ [v], hlen', by rw [hfin]⟩, fun v' hv' => ?_, by omega,
      v, hvtab, by omega, by omega, by simpa only [List.append_assoc] using (hat _).prepend pre⟩
    rcases List.mem_append.mp hv' with hv' | hv'
    · exact (hwf v' hv').imp fun _ h => by rw [hfin]; exact h.prepend _
    · rw [List.mem_singleton.mp hv']
      exact ⟨_, hvtab⟩
  · obtain ⟨hmem, heqv⟩ := hsound v rfl
    obtain ⟨es, hes⟩ := hwf v (List.mem_reverse.mp hmem)
    have hv : v ≤ b.bytes.length := hes.1.elim fun _ h => h.1
    have hes₁ := hes.prepend (w ++ List.replicate (alignPad 4 b.bytes.length) 0)
    rw [List.append_assoc] at hes₁
    have hle : ∀ a ∈ trimVtable b.vtable, a ≤ o := fun a ha =>
      if h0 : a = 0 then by omega else (hvt' a ha h0).2.le
    have hent : es = entriesOf o (trimVtable b.vtable) :=
      eq_entriesOf_of_vtableEqual hle (fun e he => by have := hes.2.2 e he; omega) (heqv es hes₁)
    dsimp only
    rw [builds_bind]
    refine (reuseVtable_builds v o ?_ (by omega)).mono ?_
    · simp only [offset_def, List.length_append, hw, List.length_replicate]
      omega
    rintro - c' rfl
    simp only [builds_bind, builds_modify, builds_pure, hdrop]
    unfold maxSize at hfit
    have hfin : leBytes 4 (((v : Int) - o) % 2 ^ 32).toNat ++
        (List.replicate (alignPad 4 b.bytes.length) 0 ++ b.bytes) = (leBytes 4 (((v : Int) - o) %
        2 ^ 32).toNat ++ List.replicate (alignPad 4 b.bytes.length) 0) ++ b.bytes := by
      simp only [List.append_assoc]
    have hlen' : (leBytes 4 (((v : Int) - o) % 2 ^ 32).toNat ++
        List.replicate (alignPad 4 b.bytes.length) 0).length ≤ 2 * b.vtable.length + 11 := by
      simp only [List.length_append, length_leBytes, List.length_replicate]; omega
    refine ⟨⟨_, b.vtables, hlen', by rw [hfin]⟩, hwf.extend _ rfl hfin, by omega, v, ?_, by omega,
      by omega, hat _⟩
    rw [← hent, hfin]
    exact hes.prepend _

end Write

end ClangDatabase.Flatbuffers
