import ClangDatabase.Flatbuffers.Read
import ClangDatabase.Symbol.Encode

namespace ClangDatabase.Symbol

open Flatbuffers

def Location.ReadsAs (v l : Location) : Prop :=
  v.FileName = .ok l.fileName ∧ v.Line = .ok l.line ∧ v.Col = .ok l.col ∧
    v.Offset = .ok l.offset ∧ v.USR = .ok l.usr

def Caller.ReadsAs (v c : Option Caller) : Prop :=
  ∃ cv cc, v = some cv ∧ c = some cc ∧ (∃ l, cv.Location = .ok l ∧ l.ReadsAs cc.location) ∧
    cv.FuncCall = .ok cc.funcCall

def Header.ReadsAs (I : Identity) (v h : Option Header) : Prop :=
  ∃ hv hh, v = some hv ∧ h = some hh ∧
    hv.FileID I = .ok (I.toFileID (I.fileIDString hh.fileid)) ∧ hv.Mtime = .ok hh.mtime

def Info.ReadsAs (I : Identity) (v info : Info) : Prop :=
  v.ID I = .ok (I.toID (I.idString info.id)) ∧
    (∃ ds, v.Decls = .ok ds ∧ List.Forall₂ Location.ReadsAs ds info.decls) ∧
    (∃ d, v.Def = .ok d ∧ d.ReadsAs info.def) ∧
    (∃ cs, v.Callers = .ok cs ∧ List.Forall₂ Caller.ReadsAs cs info.callers)

theorem mapM_range_forall₂ {β γ : Type} (g : Nat → Except Fault β) (R : β → γ → Prop)
    (xs : List γ) (h : ∀ j (hj : j < xs.length), ∃ y, g j = .ok y ∧ R y xs[j]) :
    ∃ ys, (List.range xs.length).mapM g = .ok ys ∧ List.Forall₂ R ys xs := by
  induction xs using List.reverseRecOn with
  | nil => exact ⟨[], rfl, .nil⟩
  | append_singleton xs x ih =>
    obtain ⟨ys, hys, hr⟩ := ih fun j hj => by
      obtain ⟨y, hy, hry⟩ := h j (by simp; omega)
      exact ⟨y, hy, by rwa [List.getElem_append_left hj] at hry⟩
    obtain ⟨y, hy, hry⟩ := h xs.length (by simp)
    refine ⟨ys ++ [y], ?_, List.rel_append hr (.cons (by simpa using hry) .nil)⟩
    rw [List.length_append, List.length_singleton, List.range_succ, List.mapM_append, hys,
      List.mapM_cons, hy, List.mapM_nil]
    rfl

section Entities

variable {buf : Bytes} {o : Nat}

theorem LocationAt.readsAs (h : LocationAt buf o l) :
    Location.ReadsAs { location := some ⟨buf, buf.length - o⟩ } l := by
  obtain ⟨fname, usr, h₁, s₁, h₂, s₂, ht⟩ := h
  have hp : (⟨buf, buf.length - o⟩ : Table).pos = (⟨buf, buf.length - o⟩ : Table).bytes.length - o :=
    rfl
  exact ⟨ht.readString hp (k := 0) rfl h₁.ne' s₁, ht.readUint32 hp (k := 1) rfl,
    ht.readUint32 hp (k := 2) rfl, ht.readUint32 hp (k := 3) rfl,
    ht.readString hp (k := 4) rfl h₂.ne' s₂⟩

theorem CallerAt.readsAs (h : CallerAt buf o c) :
    Caller.ReadsAs (some { caller := some ⟨buf, buf.length - o⟩ }) (some c) := by
  obtain ⟨loc, h₁, hl, ht⟩ := h
  have hp : (⟨buf, buf.length - o⟩ : Table).pos = (⟨buf, buf.length - o⟩ : Table).bytes.length - o :=
    rfl
  have hloc : Table.readTable ⟨buf, buf.length - o⟩ 4 = .ok (some ⟨buf, buf.length - loc⟩) :=
    ht.readTable hp (k := 0) rfl h₁.ne'
  have hfc : Table.readByte ⟨buf, buf.length - o⟩ 6 = .ok (if c.funcCall then 1 else 0) :=
    ht.readByte hp (k := 1) rfl
  refine ⟨_, c, rfl, rfl, ⟨_, ?_, hl.readsAs⟩, ?_⟩
  · simp only [Caller.Location, deref, Schema.callerLocation, pure_bind, hloc]
    rfl
  · simp only [Caller.FuncCall, deref, Schema.callerFuncCall, pure_bind, hfc]
    cases c.funcCall <;> rfl

theorem HeaderAt.readsAs {I : Identity} (h : HeaderAt I buf o hd) :
    Header.ReadsAs I (some { header := some ⟨buf, buf.length - o⟩ }) (some hd) := by
  obtain ⟨fid, h₁, s₁, ht⟩ := h
  have hp : (⟨buf, buf.length - o⟩ : Table).pos = (⟨buf, buf.length - o⟩ : Table).bytes.length - o :=
    rfl
  have hfid : Table.readString ⟨buf, buf.length - o⟩ 4 = .ok (I.fileIDString hd.fileid) :=
    ht.readString hp (k := 0) rfl h₁.ne' s₁
  refine ⟨_, hd, rfl, rfl, ?_, ht.readInt64 hp (k := 1) rfl⟩
  simp only [Header.FileID, deref, Schema.headerFileID, pure_bind, hfid]
  rfl

theorem InfoAt.readsAs {I : Identity} (h : InfoAt I buf o info) :
    Info.ReadsAs I { info := some ⟨buf, buf.length - o⟩ } info := by
  obtain ⟨id, decls, d, callers, h₁, s₁, v₂, h₃, l₃, v₄, ht⟩ := h
  have hp : (⟨buf, buf.length - o⟩ : Table).pos = (⟨buf, buf.length - o⟩ : Table).bytes.length - o :=
    rfl
  have hid : Table.readString ⟨buf, buf.length - o⟩ 4 = .ok (I.idString info.id) :=
    ht.readString hp (k := 0) rfl h₁.ne' s₁
  have hdef : Table.readTable ⟨buf, buf.length - o⟩ 8 = .ok (some ⟨buf, buf.length - d⟩) :=
    ht.readTable hp (k := 2) rfl h₃.ne'
  obtain ⟨hdl, hde⟩ := ht.readTables hp (k := 1) rfl v₂
  obtain ⟨hcl, hce⟩ := ht.readTables hp (k := 3) rfl v₄
  obtain ⟨ds, hds, hdr⟩ := mapM_range_forall₂ (fun i => do
      let obj ← Schema.infoDecls ⟨buf, buf.length - o⟩ i
      return match obj with
        | some o => ({ location := some o } : Location)
        | none => {})
    Location.ReadsAs info.decls fun j hj => by
      obtain ⟨q, hq, hl⟩ := hde j hj
      exact ⟨_, by simp only [Schema.infoDecls]; rw [hq]; rfl, hl.readsAs⟩
  obtain ⟨cs, hcs, hcr⟩ := mapM_range_forall₂ (fun i => do
      let obj ← Schema.infoCallers ⟨buf, buf.length - o⟩ i
      return obj.map fun o => ({ caller := some o } : Caller))
    Caller.ReadsAs info.callers fun j hj => by
      obtain ⟨q, hq, c, hc, hca⟩ := hce j hj
      exact ⟨_, by simp only [Schema.infoCallers]; rw [hq]; rfl, hc ▸ hca.readsAs⟩
  refine ⟨?_, ⟨ds, ?_, hdr⟩, ⟨_, ?_, l₃.readsAs⟩, ⟨cs, ?_, hcr⟩⟩
  · simp only [Info.ID, deref, Schema.infoID, pure_bind, hid]
    rfl
  · simp only [Info.Decls, deref, Schema.infoDeclsLength, pure_bind]
    exact (congrArg (· >>= _) hdl).trans hds
  · simp only [Info.Def, deref, Schema.infoDef, pure_bind, hdef]
    rfl
  · simp only [Info.Callers, deref, Schema.infoCallersLength, pure_bind]
    exact (congrArg (· >>= _) hcl).trans hcs

end Entities

theorem createLocation_eq (filename : Bytes) (line col : UInt32) :
    createLocation filename line col = (do
      let body : BuildM Unit := do
        let fname ← createString filename
        finish (← table 5 [.uoffset fname, .uint32 line, .uint32 col, .uint32 0, .uoffset 0])
      return (← body.run newBuilder).2) := by
  simp only [createLocation, table, addFields, Schema.locationStart, Schema.locationAddFileName,
    Schema.locationAddLine, Schema.locationAddCol, Schema.locationEnd, Field.add,
    prependUint32Slot, prependUOffsetTSlot, ne_eq, not_true_eq_false, if_false, bind_assoc,
    pure_bind]

theorem createLocation_reads (filename : Bytes) (line col : UInt32) :
    (createLocation filename line col = .error .cannotGrow ∧ maxSize ≤ filename.length + 87) ∨
      ∃ b, createLocation filename line col = .ok b ∧ finishedBytes.run' b = .ok b.bytes ∧ ∃ t,
        Schema.getRootAsLocation b.bytes 0 = .ok t ∧
        Location.ReadsAs { location := some t } { fileName := filename, line := line, col := col } := by
  have o₀ : newBuilder.offset = 0 := rfl
  have hw : Builds (do
      let fname ← createString filename
      finish (← table 5 [.uoffset fname, .uint32 line, .uint32 col, .uint32 0, .uoffset 0]))
      newBuilder (filename.length + 87) fun _ b' => b'.finished = true ∧ ∃ root fname,
        RefAt b'.bytes b'.bytes.length root ∧ 0 < fname ∧ StringAt b'.bytes fname filename ∧
        TableAt b'.bytes root [.uoffset fname, .uint32 line, .uint32 col, .uint32 0, .uoffset 0] := by
    have hwf : newBuilder.WF := fun v hv => by simp [newBuilder] at hv
    refine (createString_writes filename newBuilder _ rfl hwf (by omega)).bind
      fun fname b₁ ⟨g₁, lt₁, le₁, z₁, s₁⟩ => ?_
    refine (table_grows 5 _ (by simp) (by decide) (g₁.nested_false rfl) (g₁.wf hwf)
      (by simp [Field.RefBelow, -offset_def]; omega)
      (by simp only [List.map_cons, List.map_nil, List.sum_cons, List.sum_nil, Field.room]; omega)).bind
      fun root b₂ ⟨g₂, lt₂, le₂, z₂, t₂⟩ => ?_
    have m₂ : b₂.minalign ≤ 8 := (g₁.trans g₂).minalign.trans (by decide)
    simp only [List.map_cons, List.map_nil, List.sum_cons, List.sum_nil, Field.room] at z₂
    refine (finish_grows root (g₂.nested_false (g₁.nested_false rfl)) le₂ (by omega)).mono ?_
    rintro - b₃ ⟨g₃, hfin, href⟩
    exact ⟨hfin, root, fname, href, by omega, (g₂.trans g₃).stable (stringAt_stable _) s₁,
      g₃.stable (tableAt_stable _) t₂⟩
  rw [createLocation_eq]
  rcases hw.run with ⟨h, hroom⟩ | ⟨_, b, h, hfin, root, fname, href, hf, s, ht⟩
  · exact .inl ⟨by simp only [h]; rfl, hroom⟩
  have hp : (⟨b.bytes, b.bytes.length - root⟩ : Table).pos =
      (⟨b.bytes, b.bytes.length - root⟩ : Table).bytes.length - root := rfl
  refine .inr ⟨b, by simp only [h]; rfl, ?_, _, getRoot_refAt href,
    ht.readString hp (k := 0) rfl hf.ne' s, ht.readUint32 hp (k := 1) rfl,
    ht.readUint32 hp (k := 2) rfl, ht.readUint32 hp (k := 3) rfl,
    ht.readString_absent hp (k := 4) rfl⟩
  show Prod.fst <$> finishedBytes.run b = _
  rw [finishedBytes_run hfin]
  rfl

end ClangDatabase.Symbol
