import ClangDatabase.Flatbuffers.Writes
import ClangDatabase.Symbol.Types

namespace ClangDatabase.Symbol

open Flatbuffers

def LocationAt (buf : Bytes) (o : Nat) (l : Location) : Prop :=
  ∃ fname usr, 0 < fname ∧ StringAt buf fname l.fileName ∧ 0 < usr ∧ StringAt buf usr l.usr ∧
    TableAt buf o [.uoffset fname, .uint32 l.line, .uint32 l.col, .uint32 l.offset, .uoffset usr]

def CallerAt (buf : Bytes) (o : Nat) (c : Caller) : Prop :=
  ∃ loc, 0 < loc ∧ LocationAt buf loc c.location ∧
    TableAt buf o [.uoffset loc, .byte (if c.funcCall then 1 else 0)]

def HeaderAt (I : Identity) (buf : Bytes) (o : Nat) (h : Header) : Prop :=
  ∃ fid, 0 < fid ∧ StringAt buf fid (I.fileIDString h.fileid) ∧
    TableAt buf o [.uoffset fid, .int64 h.mtime]

def SomeAt {α : Type} (P : Bytes → Nat → α → Prop) (buf : Bytes) (o : Nat) (x : Option α) :
    Prop :=
  ∃ a, x = some a ∧ P buf o a

def InfoAt (I : Identity) (buf : Bytes) (o : Nat) (info : Info) : Prop :=
  ∃ id decls d callers, 0 < id ∧ StringAt buf id (I.idString info.id) ∧
    VectorOf LocationAt buf decls info.decls ∧ 0 < d ∧ LocationAt buf d info.def ∧
    VectorOf (SomeAt CallerAt) buf callers info.callers ∧
    TableAt buf o [.uoffset id, .uoffset decls, .uoffset d, .uoffset callers]

section Stable

theorem locationAt_stable (l : Location) : Stable fun buf o => LocationAt buf o l :=
  fun pre _ _ ⟨fname, usr, h₁, h₂, h₃, h₄, h₅⟩ =>
    ⟨fname, usr, h₁, h₂.prepend pre, h₃, h₄.prepend pre, h₅.prepend pre⟩

theorem callerAt_stable (c : Caller) : Stable fun buf o => CallerAt buf o c :=
  fun pre _ _ ⟨loc, h₁, h₂, h₃⟩ => ⟨loc, h₁, locationAt_stable _ pre _ _ h₂, h₃.prepend pre⟩

theorem headerAt_stable (I : Identity) (h : Header) : Stable fun buf o => HeaderAt I buf o h :=
  fun pre _ _ ⟨fid, h₁, h₂, h₃⟩ => ⟨fid, h₁, h₂.prepend pre, h₃.prepend pre⟩

theorem someAt_stable {α : Type} {P : Bytes → Nat → α → Prop}
    (hP : ∀ x, Stable fun buf o => P buf o x) (x : Option α) :
    Stable fun buf o => SomeAt P buf o x :=
  fun pre _ _ ⟨a, ha, h⟩ => ⟨a, ha, hP a pre _ _ h⟩

theorem infoAt_stable (I : Identity) (info : Info) : Stable fun buf o => InfoAt I buf o info :=
  fun pre _ _ ⟨id, decls, d, callers, h₁, h₂, h₃, h₄, h₅, h₆, h₇⟩ =>
    ⟨id, decls, d, callers, h₁, h₂.prepend pre, vectorOf_stable locationAt_stable _ pre _ _ h₃, h₄,
      locationAt_stable _ pre _ _ h₅, vectorOf_stable (someAt_stable callerAt_stable) _ pre _ _ h₆,
      h₇.prepend pre⟩

end Stable

theorem Location.serialize_eq (l : Location) :
    l.serialize = (do
      let fname ← createString l.fileName
      let usr ← createString l.usr
      table 5 [.uoffset fname, .uint32 l.line, .uint32 l.col, .uint32 l.offset, .uoffset usr]) := by
  simp only [Location.serialize, table, addFields, Schema.locationStart,
    Schema.locationAddFileName, Schema.locationAddLine, Schema.locationAddCol,
    Schema.locationAddOffset, Schema.locationAddUSR, Schema.locationEnd, bind_assoc, pure_bind]

theorem Caller.serialize_eq (c : Caller) :
    Caller.serialize (some c) = (do
      let loc ← c.location.serialize
      table 2 [.uoffset loc, .byte (if c.funcCall then 1 else 0)]) := by
  simp only [Caller.serialize, table, addFields, Schema.callerStart, Schema.callerAddLocation,
    Schema.callerAddFuncCall, Schema.callerEnd, bind_assoc, pure_bind]

theorem Header.serialize_eq (I : Identity) (h : Header) :
    Header.serialize I (some h) = (do
      let fid ← createString (I.fileIDString h.fileid)
      table 2 [.uoffset fid, .int64 h.mtime]) := by
  simp only [Header.serialize, table, addFields, Schema.headerStart, Schema.headerAddFileID,
    Schema.headerAddMtime, Schema.headerEnd, bind_assoc, pure_bind]

theorem Info.serialize_eq (I : Identity) (info : Info) :
    info.serialize I = (do
      let id ← createString (I.idString info.id)
      let declVecOffset ← (if 0 < info.decls.length then do
          let declsOffsets ← info.decls.mapM Location.serialize
          prependVector Schema.infoStartDeclsVector declsOffsets
        else pure 0)
      let defOffset ← info.def.serialize
      let callerVecOffset ← (if 0 < info.callers.length then do
          let callersOffsets ← info.callers.mapM Caller.serialize
          prependVector Schema.infoStartCallersVector callersOffsets
        else pure 0)
      table 4 [.uoffset id, .uoffset declVecOffset, .uoffset defOffset,
        .uoffset callerVecOffset]) := by
  simp only [Info.serialize, table, addFields, Schema.infoStart, Schema.infoAddID,
    Schema.infoAddDecls, Schema.infoAddDef, Schema.infoAddCallers, Schema.infoEnd, bind_assoc,
    pure_bind]

def Location.room (l : Location) : Nat := l.fileName.length + l.usr.length + 72

def Caller.room : Option Caller → Nat
  | none => 0
  | some c => c.location.room + 23

def Header.room (I : Identity) : Option Header → Nat
  | none => 0
  | some h => (I.fileIDString h.fileid).length + 45

def Info.room (I : Identity) (info : Info) : Nat :=
  (I.idString info.id).length + 8 +
    ((info.decls.map Location.room).sum + 4 * info.decls.length + 7) + info.def.room +
    ((info.callers.map Caller.room).sum + 4 * info.callers.length + 7) + 47

theorem Location.serialize_writes (l : Location) :
    Writes l.serialize l.room fun buf o => LocationAt buf o l := by
  intro b L hb hwf hL
  rw [Location.serialize_eq]
  simp only [builds_bind]
  simp only [Location.room] at hL ⊢
  refine (createString_writes l.fileName b L hb hwf (by omega)).mono ?_
  rintro fname b₁ ⟨g₁, lt₁, le₁, z₁, s₁⟩
  refine (createString_writes l.usr b₁ L (g₁.nested_false hb) (g₁.wf hwf) (by omega)).mono ?_
  rintro usr b₂ ⟨g₂, lt₂, le₂, z₂, s₂⟩
  have o₁ := g₁.offset_le
  have o₂ := g₂.offset_le
  refine (table_grows 5 _ ?_ (by decide) (g₂.nested_false (g₁.nested_false hb))
    (g₂.wf (g₁.wf hwf)) ?_ ?_).mono ?_
  · simp
  · simp [Field.RefBelow, -offset_def]; omega
  · simp only [List.map_cons, List.map_nil, List.sum_cons, List.sum_nil, Field.room]; omega
  rintro o b₃ ⟨g₃, lt₃, le₃, z₃, t₃⟩
  simp only [List.map_cons, List.map_nil, List.sum_cons, List.sum_nil, Field.room] at z₃
  exact ⟨g₁.trans (g₂.trans g₃), by omega, le₃, by omega, fname, usr, by omega,
    g₃.stable (stringAt_stable _) (g₂.stable (stringAt_stable _) s₁), by omega,
    g₃.stable (stringAt_stable _) s₂, t₃⟩

theorem Caller.serialize_writes (c : Caller) :
    Writes (Caller.serialize (some c)) (Caller.room (some c)) fun buf o => CallerAt buf o c := by
  intro b L hb hwf hL
  rw [Caller.serialize_eq]
  simp only [builds_bind]
  simp only [Caller.room] at hL ⊢
  refine (Location.serialize_writes c.location b L hb hwf (by omega)).mono ?_
  rintro loc b₁ ⟨g₁, lt₁, le₁, z₁, s₁⟩
  refine (table_grows 2 _ ?_ (by decide) (g₁.nested_false hb) (g₁.wf hwf) ?_ ?_).mono ?_
  · simp
  · simp [Field.RefBelow, -offset_def]; omega
  · simp only [List.map_cons, List.map_nil, List.sum_cons, List.sum_nil, Field.room]; omega
  rintro o b₂ ⟨g₂, lt₂, le₂, z₂, t₂⟩
  simp only [List.map_cons, List.map_nil, List.sum_cons, List.sum_nil, Field.room] at z₂
  exact ⟨g₁.trans g₂, by omega, le₂, by omega, loc, by omega, g₂.stable (locationAt_stable _) s₁,
    t₂⟩

theorem Header.serialize_writes (I : Identity) (h : Header) :
    Writes (Header.serialize I (some h)) (Header.room I (some h))
      fun buf o => HeaderAt I buf o h := by
  intro b L hb hwf hL
  rw [Header.serialize_eq]
  simp only [builds_bind]
  simp only [Header.room] at hL ⊢
  refine (createString_writes _ b L hb hwf (by omega)).mono ?_
  rintro fid b₁ ⟨g₁, lt₁, le₁, z₁, s₁⟩
  refine (table_grows 2 _ ?_ (by decide) (g₁.nested_false hb) (g₁.wf hwf) ?_ ?_).mono ?_
  · simp
  · simp [Field.RefBelow, -offset_def]; omega
  · simp only [List.map_cons, List.map_nil, List.sum_cons, List.sum_nil, Field.room]; omega
  rintro o b₂ ⟨g₂, lt₂, le₂, z₂, t₂⟩
  simp only [List.map_cons, List.map_nil, List.sum_cons, List.sum_nil, Field.room] at z₂
  exact ⟨g₁.trans g₂, by omega, le₂, by omega, fid, by omega, g₂.stable (stringAt_stable _) s₁,
    t₂⟩

theorem callers_writes {cs : List (Option Caller)} (hc : ∀ c ∈ cs, c.isSome) :
    ∀ c ∈ cs, Writes (Caller.serialize c) (Caller.room c) fun buf o => SomeAt CallerAt buf o c := by
  intro c hmem b L hb hwf hL
  obtain ⟨c', rfl⟩ := Option.isSome_iff_exists.mp (hc c hmem)
  exact (Caller.serialize_writes c' b L hb hwf hL).mono fun o b' ⟨g, lt, le, z, h⟩ =>
    ⟨g, lt, le, z, c', rfl, h⟩

theorem Info.serialize_writes (I : Identity) (info : Info) (hc : ∀ c ∈ info.callers, c.isSome) :
    Writes (info.serialize I) (info.room I) fun buf o => InfoAt I buf o info := by
  intro b L hb hwf hL
  rw [Info.serialize_eq]
  simp only [builds_bind]
  simp only [Info.room] at hL ⊢
  refine (createString_writes _ b L hb hwf (by omega)).mono ?_
  rintro id b₁ ⟨g₁, lt₁, le₁, z₁, s₁⟩
  refine (optVectorOf_builds Location.serialize Location.room LocationAt info.decls
    (fun l _ => Location.serialize_writes l) locationAt_stable (g₁.nested_false hb)
    (g₁.wf hwf) (by omega)).mono ?_
  rintro decls b₂ ⟨g₂, le₂, z₂, v₂⟩
  refine (Location.serialize_writes info.def b₂ L (g₂.nested_false (g₁.nested_false hb))
    (g₂.wf (g₁.wf hwf)) (by omega)).mono ?_
  rintro d b₃ ⟨g₃, lt₃, le₃, z₃, s₃⟩
  refine (optVectorOf_builds Caller.serialize Caller.room (SomeAt CallerAt) info.callers
    (callers_writes hc) (someAt_stable callerAt_stable)
    (g₃.nested_false (g₂.nested_false (g₁.nested_false hb))) (g₃.wf (g₂.wf (g₁.wf hwf)))
    (by omega)).mono ?_
  rintro callers b₄ ⟨g₄, le₄, z₄, v₄⟩
  have o₁ := g₁.offset_le
  have o₂ := g₂.offset_le
  have o₄ := g₄.offset_le
  refine (table_grows 4 _ ?_ (by decide)
    (g₄.nested_false (g₃.nested_false (g₂.nested_false (g₁.nested_false hb))))
    (g₄.wf (g₃.wf (g₂.wf (g₁.wf hwf)))) ?_ ?_).mono ?_
  · simp
  · simp [Field.RefBelow, -offset_def]; omega
  · simp only [List.map_cons, List.map_nil, List.sum_cons, List.sum_nil, Field.room]; omega
  rintro o b₅ ⟨g₅, lt₅, le₅, z₅, t₅⟩
  simp only [List.map_cons, List.map_nil, List.sum_cons, List.sum_nil, Field.room] at z₅
  have g₃₅ := g₄.trans g₅
  refine ⟨g₁.trans (g₂.trans (g₃.trans g₃₅)), by omega, le₅, by omega, id, decls, d, callers,
    by omega, (g₂.trans (g₃.trans g₃₅)).stable (stringAt_stable _) s₁,
    (g₃.trans g₃₅).stable (vectorOf_stable locationAt_stable _) v₂, by omega,
    g₃₅.stable (locationAt_stable _) s₃,
    g₅.stable (vectorOf_stable (someAt_stable callerAt_stable) _) v₄, t₅⟩

end ClangDatabase.Symbol
