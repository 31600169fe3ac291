import Mathlib.Algebra.BigOperators.Group.List
import ClangDatabase.Symbol.Decode
import ClangDatabase.Symbol.Merge

namespace ClangDatabase.Symbol

open Flatbuffers

def FileAt (I : Identity) (buf : Bytes) (o : Nat) (name tu : Bytes) (flags : List Bytes)
    (es : List (Σ _ : Bytes, Info)) (headers : List (Option Header)) : Prop :=
  ∃ fname t fl sy hd, 0 < fname ∧ StringAt buf fname name ∧ 0 < t ∧ StringAt buf t tu ∧
    VectorOf (fun buf o s => StringAt buf o s) buf fl flags ∧
    VectorOf (fun buf o e => InfoAt I buf o e.2) buf sy es ∧
    VectorOf (SomeAt (HeaderAt I)) buf hd headers ∧
    TableAt buf o [.uoffset fname, .uoffset fl, .uoffset t, .uoffset sy, .uoffset hd]

/-- What a reader of `bytes` sees through `GetRootAsFile(bytes, 0)`: the name, flags and
translation unit given, headers that read as `headers`, and symbols that read as the entries
`es`, in that order. -/
def FileReadsAs (I : Identity) (bytes name tu : Bytes) (flags : List Bytes)
    (es : List (Σ _ : Bytes, Info)) (headers : List (Option Header)) : Prop :=
  ∃ v, getRootAsFile bytes 0 = .ok v ∧ v.Name = .ok name ∧ v.Flags = .ok flags ∧
    v.TranslationUnit = .ok tu ∧
    (∃ hs, v.Headers = .ok hs ∧ List.Forall₂ (Header.ReadsAs I) hs headers) ∧
    ∀ order, ∃ syms, v.Symbols order = .ok syms ∧
      List.Forall₂ (fun s e => ∃ si, s = some si ∧ si.ReadsAs I e.2) syms es

section Write

variable {I : Identity} {order : RangeOrder} {f : File} {b : Builder} {L : Nat} {name tu : Bytes}

theorem File.writeFile_eq (I : Identity) (order : RangeOrder) (f : File) :
    f.writeFile I order = (do
      let fname ← createString (← f.Name)
      let t ← createString (← f.TranslationUnit)
      let fl ← (do
        let os ← f.flags.mapM createString
        prependVector Schema.fileStartFlagsVector os)
      let sy ← (do
        let os ← (order.visit (entries f.symbols)).mapM fun v => v.2.serialize I
        prependVector Schema.fileStartSymbolsVector os)
      let hd ← (do
        let os ← f.headers.mapM (Header.serialize I)
        prependVector Schema.fileStartHeadersVector os)
      finish (← table 6 [.uoffset fname, .uoffset fl, .uoffset t, .uoffset sy, .uoffset hd])) := by
  simp only [File.writeFile, createByteString, table, addFields, Schema.fileStart,
    Schema.fileAddName, Schema.fileAddFlags, Schema.fileAddTranslationUnit, Schema.fileAddSymbols,
    Schema.fileAddHeaders, Schema.fileEnd, bind_assoc, pure_bind]

def File.room (I : Identity) (f : File) (name tu : Bytes) : Nat :=
  name.length + 8 + (tu.length + 8) +
    ((f.flags.map fun s => s.length + 8).sum + 4 * f.flags.length + 7) +
    (((entries f.symbols).map fun e => e.2.room I).sum + 4 * (entries f.symbols).length + 7) +
    ((f.headers.map (Header.room I)).sum + 4 * f.headers.length + 7) + 58 + 23

theorem headers_writes (I : Identity) {hs : List (Option Header)} (hh : ∀ h ∈ hs, h.isSome) :
    ∀ h ∈ hs, Writes (Header.serialize I h) (Header.room I h)
      fun buf o => SomeAt (HeaderAt I) buf o h := by
  intro h hmem b L hb hwf hL
  obtain ⟨h', rfl⟩ := Option.isSome_iff_exists.mp (hh h hmem)
  exact (Header.serialize_writes I h' b L hb hwf hL).mono fun o b' ⟨g, lt, le, z, hat⟩ =>
    ⟨g, lt, le, z, h', rfl, hat⟩

theorem File.writeFile_split (hname : f.Name = .ok name) (htu : f.TranslationUnit = .ok tu) :
    f.writeFile I order = (do
      let r ← (do
        let fname ← createString name
        let t ← createString tu
        let fl ← (do
          let os ← f.flags.mapM createString
          prependVector Schema.fileStartFlagsVector os)
        let sy ← (do
          let os ← (order.visit (entries f.symbols)).mapM fun v => v.2.serialize I
          prependVector Schema.fileStartSymbolsVector os)
        pure (fname, t, fl, sy))
      let hd ← (do
        let os ← f.headers.mapM (Header.serialize I)
        prependVector Schema.fileStartHeadersVector os)
      finish (← table 6 [.uoffset r.1, .uoffset r.2.2.1, .uoffset r.2.1, .uoffset r.2.2.2,
        .uoffset hd])) := by
  rw [File.writeFile_eq]
  simp only [hname, htu, liftM_ok_bind, bind_assoc, pure_bind]

theorem writePrefix_builds (hcallers : ∀ e ∈ entries f.symbols, ∀ c ∈ e.2.callers, c.isSome)
    (hb : b.nested = false) (hwf : b.WF)
    (hL : b.offset + (name.length + 8) + (tu.length + 8) +
      ((f.flags.map fun s => s.length + 8).sum + 4 * f.flags.length + 7) +
      (((entries f.symbols).map fun e => e.2.room I).sum + 4 * (entries f.symbols).length + 7) ≤
        L) :
    Builds (do
        let fname ← createString name
        let t ← createString tu
        let fl ← (do
          let os ← f.flags.mapM createString
          prependVector Schema.fileStartFlagsVector os)
        let sy ← (do
          let os ← (order.visit (entries f.symbols)).mapM fun v => v.2.serialize I
          prependVector Schema.fileStartSymbolsVector os)
        pure (fname, t, fl, sy)) b L fun r b' =>
      Grows b b' ∧
      0 < r.1 ∧ r.1 ≤ b'.offset ∧ StringAt b'.bytes r.1 name ∧
      0 < r.2.1 ∧ r.2.1 ≤ b'.offset ∧ StringAt b'.bytes r.2.1 tu ∧
      r.2.2.1 ≤ b'.offset ∧ VectorOf (fun buf o s => StringAt buf o s) b'.bytes r.2.2.1 f.flags ∧
      r.2.2.2 ≤ b'.offset ∧
      VectorOf (fun buf o e => InfoAt I buf o e.2) b'.bytes r.2.2.2 (order.visit (entries f.symbols)) ∧
      b'.offset ≤ b.offset + (name.length + 8) + (tu.length + 8) +
        ((f.flags.map fun s => s.length + 8).sum + 4 * f.flags.length + 7) +
        (((entries f.symbols).map fun e => e.2.room I).sum + 4 * (entries f.symbols).length + 7) := by
  have hperm := order.perm (entries f.symbols)
  have hsum : ((order.visit (entries f.symbols)).map fun e => e.2.room I).sum =
      ((entries f.symbols).map fun e => e.2.room I).sum := (hperm.map _).sum_eq
  have hlen := hperm.length_eq
  refine (createString_writes name b L hb hwf (by omega)).bind
    fun fname b₁ ⟨g₁, lt₁, le₁, z₁, s₁⟩ => ?_
  have hb₁ := g₁.nested_false hb
  refine (createString_writes tu b₁ L hb₁ (g₁.wf hwf) (by omega)).bind
    fun t b₂ ⟨g₂, lt₂, le₂, z₂, s₂⟩ => ?_
  have hb₂ := g₂.nested_false hb₁
  refine (vectorOf_writes createString (fun s => s.length + 8) (fun buf o s => StringAt buf o s)
    f.flags (fun s _ => createString_writes s) stringAt_stable b₂ L hb₂ (g₂.wf (g₁.wf hwf))
    (by omega)).bind fun fl b₃ ⟨g₃, lt₃, le₃, z₃, v₃⟩ => ?_
  refine (vectorOf_writes (fun v => v.2.serialize I) (fun e => e.2.room I)
    (fun buf o e => InfoAt I buf o e.2) _
    (fun e he => Info.serialize_writes I e.2 (hcallers e ((order.perm _).mem_iff.mp he)))
    (fun (e : Σ _ : Bytes, Info) => infoAt_stable I e.2) b₃ L (g₃.nested_false hb₂)
    (g₃.wf (g₂.wf (g₁.wf hwf))) (by omega)).bind fun sy b₄ ⟨g₄, lt₄, le₄, z₄, v₄⟩ => ?_
  rw [builds_pure]
  dsimp only
  have o₂ := g₂.offset_le
  have o₃ := g₃.offset_le
  have o₄ := g₄.offset_le
  exact ⟨g₁.trans (g₂.trans (g₃.trans g₄)), by omega, by omega,
    (g₂.trans (g₃.trans g₄)).stable (stringAt_stable _) s₁, by omega, by omega,
    (g₃.trans g₄).stable (stringAt_stable _) s₂, by omega,
    g₄.stable (vectorOf_stable stringAt_stable _) v₃, le₄, v₄, by omega⟩

theorem writeFile_builds (hname : f.Name = .ok name) (htu : f.TranslationUnit = .ok tu)
    (hhdr : ∀ h ∈ f.headers, h.isSome)
    (hcallers : ∀ e ∈ entries f.symbols, ∀ c ∈ e.2.callers, c.isSome)
    (hb : b.nested = false) (hwf : b.WF) (hm : b.minalign ≤ 8)
    (hL : b.offset + f.room I name tu ≤ L) :
    Builds (f.writeFile I order) b L fun _ b' => Grows b b' ∧ b'.finished = true ∧ ∃ root,
      RefAt b'.bytes b'.bytes.length root ∧
      FileAt I b'.bytes root name tu f.flags (order.visit (entries f.symbols)) f.headers := by
  rw [File.writeFile_split hname htu]
  simp only [File.room] at hL
  refine (writePrefix_builds hcallers hb hwf (by omega)).bind
    fun r b₄ ⟨g₄, h₁, l₁, s₁, h₂, l₂, s₂, l₃, v₃, l₄, v₄, z₄⟩ => ?_
  have hb₄ := g₄.nested_false hb
  refine (vectorOf_writes (Header.serialize I) (Header.room I) (SomeAt (HeaderAt I)) f.headers
    (headers_writes I hhdr) (someAt_stable (headerAt_stable I)) b₄ L hb₄ (g₄.wf hwf)
    (by omega)).bind fun hd b₅ ⟨g₅, lt₅, le₅, z₅, v₅⟩ => ?_
  have o₅ := g₅.offset_le
  refine (table_grows 6 _ (by simp) (by decide) (g₅.nested_false hb₄) (g₅.wf (g₄.wf hwf))
    (by simp [Field.RefBelow, -offset_def]; omega)
    (by simp only [List.map_cons, List.map_nil, List.sum_cons, List.sum_nil, Field.room]; omega)).bind
    fun root b₆ ⟨g₆, lt₆, le₆, z₆, t₆⟩ => ?_
  simp only [List.map_cons, List.map_nil, List.sum_cons, List.sum_nil, Field.room] at z₆
  have m₆ := (g₄.trans (g₅.trans g₆)).minalign
  refine (finish_grows root (g₆.nested_false (g₅.nested_false hb₄)) le₆ (by omega)).mono ?_
  rintro - b₇ ⟨G₆, hfin, href⟩
  have G₅ := g₆.trans G₆
  have G₄ := g₅.trans G₅
  exact ⟨g₄.trans G₄, hfin, root, href, r.1, r.2.1, r.2.2.1, r.2.2.2, hd, h₁,
    G₄.stable (stringAt_stable _) s₁, h₂, G₄.stable (stringAt_stable _) s₂,
    G₄.stable (vectorOf_stable stringAt_stable _) v₃,
    G₄.stable (vectorOf_stable (fun (e : Σ _ : Bytes, Info) => infoAt_stable I e.2) _) v₄,
    G₅.stable (vectorOf_stable (someAt_stable (headerAt_stable I)) _) v₅,
    G₆.stable (tableAt_stable _) t₆⟩

theorem serialize_from (hstart : f.builder.getD newBuilder = b) (hb : b.nested = false)
    (hwf : b.WF) (hm : b.minalign ≤ 8) (hname : f.Name = .ok name)
    (htu : f.TranslationUnit = .ok tu) (hhdr : ∀ h ∈ f.headers, h.isSome)
    (hcallers : ∀ e ∈ entries f.symbols, ∀ c ∈ e.2.callers, c.isSome) :
    (f.serialize I order = .error .cannotGrow ∧ maxSize ≤ b.offset + f.room I name tu) ∨
      ∃ b', f.serialize I order = .ok (b', { f with builder := some b' }) ∧ Grows b b' ∧
        b'.finished = true ∧ ∃ root, RefAt b'.bytes b'.bytes.length root ∧
          FileAt I b'.bytes root name tu f.flags (order.visit (entries f.symbols)) f.headers := by
  rcases (@writeFile_builds I order f b (b.offset + f.room I name tu) name tu hname htu hhdr
    hcallers hb hwf hm le_rfl).run with ⟨h, hroom⟩ | ⟨_, b', h, hg, hfin, hroot⟩
  · exact .inl ⟨by simp [File.serialize, hstart, h, bind, Except.bind], hroom⟩
  · exact .inr ⟨b', by simp [File.serialize, hstart, h, bind, Except.bind, pure, Except.pure], hg,
      hfin, hroot⟩

theorem serialize_spec (hfresh : f.builder.getD newBuilder = newBuilder)
    (hname : f.Name = .ok name) (htu : f.TranslationUnit = .ok tu)
    (hhdr : ∀ h ∈ f.headers, h.isSome)
    (hcallers : ∀ e ∈ entries f.symbols, ∀ c ∈ e.2.callers, c.isSome) :
    (f.serialize I order = .error .cannotGrow ∧ maxSize ≤ f.room I name tu) ∨
      ∃ b, f.serialize I order = .ok (b, { f with builder := some b }) ∧
        b.finished = true ∧ ∃ root, RefAt b.bytes b.bytes.length root ∧
          FileAt I b.bytes root name tu f.flags (order.visit (entries f.symbols)) f.headers :=
  (serialize_from hfresh rfl (fun v hv => by simp [newBuilder] at hv) (by decide) hname htu hhdr
    hcallers).imp (fun ⟨h, hr⟩ => ⟨h, by simpa [newBuilder] using hr⟩)
    fun ⟨b', h, _, hfin, hroot⟩ => ⟨b', h, hfin, hroot⟩

theorem serialize_nil_translationUnit (hfresh : f.builder.getD newBuilder = newBuilder)
    (hname : f.Name = .ok name) (hsmall : name.length + 8 < maxSize)
    (htu : f.translationUnit = []) (hfile : f.file = none) :
    f.serialize I order = .error .nilDereference := by
  obtain ⟨o, b₁, hrun, -⟩ := (createString_builds name (rfl : newBuilder.nested = false)
    le_rfl).ok (by simpa [newBuilder] using hsmall)
  have hT : f.TranslationUnit = .error .nilDereference := by
    simp [File.TranslationUnit, htu, hfile, deref]; rfl
  simp only [File.serialize, File.writeFile, hfresh, hname, hT, liftM_ok_bind, StateT.run_bind,
    hrun]
  rfl

end Write

section Read

variable {I : Identity} {bytes name tu : Bytes} {flags : List Bytes}
  {es : List (Σ _ : Bytes, Info)} {headers : List (Option Header)}

theorem FileAt.readsAs (h : FileAt I bytes root name tu flags es headers)
    (href : RefAt bytes bytes.length root) : FileReadsAs I bytes name tu flags es headers := by
  obtain ⟨fname, t, fl, sy, hd, h₁, s₁, h₂, s₂, v₃, v₄, v₅, ht⟩ := h
  have hp : (⟨bytes, bytes.length - root⟩ : Table).pos =
      (⟨bytes, bytes.length - root⟩ : Table).bytes.length - root := rfl
  have hname : Table.readString ⟨bytes, bytes.length - root⟩ 4 = .ok name :=
    ht.readString hp (k := 0) rfl h₁.ne' s₁
  have htu : Table.readString ⟨bytes, bytes.length - root⟩ 8 = .ok tu :=
    ht.readString hp (k := 2) rfl h₂.ne' s₂
  obtain ⟨hfl, hfe⟩ := ht.readStrings hp (k := 1) rfl v₃
  obtain ⟨hsl, hse⟩ := ht.readTables hp (k := 3) rfl v₄
  obtain ⟨hhl, hhe⟩ := ht.readTables hp (k := 4) rfl v₅
  obtain ⟨fs, hfs, hfr⟩ := mapM_range_forall₂ (Schema.fileFlags ⟨bytes, bytes.length - root⟩)
    (· = ·) flags fun j hj => ⟨_, hfe j hj, rfl⟩
  obtain ⟨hs, hhs, hhr⟩ := mapM_range_forall₂ (fun i => do
      let obj ← Schema.fileHeaders ⟨bytes, bytes.length - root⟩ i
      return obj.map fun o => ({ header := some o } : Header))
    (Header.ReadsAs I) headers fun j hj => by
      obtain ⟨q, hq, hd', hh, hat⟩ := hhe j hj
      exact ⟨_, by simp only [Schema.fileHeaders]; rw [hq]; rfl, hh ▸ hat.readsAs⟩
  obtain ⟨syms, hsyms, hsr⟩ := mapM_range_forall₂ (fun i => do
      let obj ← Schema.fileSymbols ⟨bytes, bytes.length - root⟩ i
      return obj.map fun o => ({ info := some o } : Info))
    (fun s e => ∃ si, s = some si ∧ si.ReadsAs I e.2) es fun j hj => by
      obtain ⟨q, hq, hat⟩ := hse j hj
      exact ⟨_, by simp only [Schema.fileSymbols]; rw [hq]; rfl, _, rfl, hat.readsAs⟩
  refine ⟨{ file := some ⟨bytes, bytes.length - root⟩ }, ?_, ?_, ?_, ?_, ⟨hs, ?_, hhr⟩,
    fun order => ⟨syms, ?_, hsr⟩⟩
  · simp [getRootAsFile, Schema.getRootAsFile, getRoot_refAt href, bind, Except.bind, pure,
      Except.pure]
  · simp [File.Name, deref, Schema.fileName, hname]
  · simp only [File.Flags, List.length_nil, Nat.lt_irrefl, if_false, deref, Schema.fileFlagsLength,
      pure_bind]
    rw [show flags = fs from (List.forall₂_eq_eq_eq ▸ hfr).symm]
    exact (congrArg (· >>= _) hfl).trans (hfr.length_eq ▸ hfs)
  · simp [File.TranslationUnit, deref, Schema.fileTranslationUnit, htu]
  · simp only [File.Headers, List.length_nil, Nat.lt_irrefl, if_false, deref,
      Schema.fileHeadersLength, pure_bind]
    exact (congrArg (· >>= _) hhl).trans hhs
  · simp only [File.Symbols, entries, Option.map_none, Option.getD_none, List.length_nil,
      Nat.lt_irrefl, if_false, deref, Schema.fileSymbolsLength, pure_bind]
    exact (congrArg (· >>= _) hsl).trans hsyms

end Read

section RoundTrip

variable {I : Identity} {name : Bytes} {flags : List Bytes} {calls : List Call} {f : File}

theorem mergedInfo_some {k : Bytes} {info : Info} (h : mergedInfo I calls k = some info) :
    info.id = k ∧ ∀ c ∈ info.callers, c.isSome := by
  unfold mergedInfo at h
  dsimp only at h
  split at h
  · cases h
  · cases h
    refine ⟨rfl, fun c hc => ?_⟩
    obtain ⟨x, -, rfl⟩ := List.mem_map.mp hc
    rfl

theorem Built.entry (hb : Built I name flags calls f) {e : Σ _ : Bytes, Info}
    (he : e ∈ entries f.symbols) : mergedInfo I calls e.1 = some e.2 := by
  obtain ⟨m, hm, hmk⟩ := hb.symbols_eq
  rw [← hmk]
  simp only [entries, hm, Option.map_some', Option.getD_some] at he
  exact AList.mem_lookup_iff.mpr he

theorem Built.name_ok (hb : Built I name flags calls f) (hname : name ≠ []) :
    f.Name = .ok name := by
  simp [File.Name, hb.name_eq, hname, pure, Except.pure]

theorem Built.translationUnit_ok (hb : Built I name flags calls f) {tu : Bytes}
    (hlast : (calls.filterMap Call.translationUnit?).getLast? = some tu) (htu : tu ≠ []) :
    f.TranslationUnit = .ok tu := by
  simp [File.TranslationUnit, hb.translationUnit_eq, hlast, List.length_pos.mpr htu, pure,
    Except.pure]

theorem Built.headers_some (hb : Built I name flags calls f) : ∀ h ∈ f.headers, h.isSome := by
  intro h hh
  rw [hb.headers_eq] at hh
  obtain ⟨x, -, rfl⟩ := List.mem_map.mp hh
  rfl

theorem Built.serialize_reads (hb : Built I name flags calls f) (order : RangeOrder) {tu : Bytes}
    (hname : name ≠ []) (hlast : (calls.filterMap Call.translationUnit?).getLast? = some tu)
    (htu : tu ≠ []) :
    (f.serialize I order = .error .cannotGrow ∧ maxSize ≤ f.room I name tu) ∨
      ∃ b, f.serialize I order = .ok (b, { f with builder := some b }) ∧
        finishedBytes.run' b = .ok b.bytes ∧
        FileReadsAs I b.bytes name tu flags (order.visit (entries f.symbols))
          ((calls.filterMap (Call.header? I)).map some) := by
  rcases @serialize_spec I order f name tu (by rw [hb.builder_eq]; rfl) (hb.name_ok hname)
    (hb.translationUnit_ok hlast htu) hb.headers_some
    (fun e he => (mergedInfo_some (hb.entry he)).2) with h | ⟨b, hs, hfin, root, href, hat⟩
  · exact .inl h
  refine .inr ⟨b, hs, ?_, ?_⟩
  · show Prod.fst <$> finishedBytes.run b = _
    rw [finishedBytes_run hfin]
    rfl
  · rw [← hb.flags_eq, ← hb.headers_eq]
    exact hat.readsAs href

theorem forall₂_imp_mem_right {α β : Type} {R S : α → β → Prop} {l : List α} {u : List β}
    (h : List.Forall₂ R l u) (hs : ∀ a, ∀ b ∈ u, R a b → S a b) : List.Forall₂ S l u := by
  induction h with
  | nil => exact .nil
  | cons hab _ ih =>
    exact .cons (hs _ _ (.head _) hab) (ih fun a b hb => hs a b (.tail _ hb))

theorem decoded_ids_rehashed (I : Identity) (order : RangeOrder) (name : Bytes)
    (flags : List Bytes) (calls : List Call) (tu : Bytes) (hname : name ≠ [])
    (hlast : (calls.filterMap Call.translationUnit?).getLast? = some tu) (htu : tu ≠ []) :
    ∃ f, (newFile name flags).applyCalls I calls = .ok f ∧
      ((f.serialize I order = .error .cannotGrow ∧ maxSize ≤ f.room I name tu) ∨
        ∃ b f' v syms hs, f.serialize I order = .ok (b, f') ∧ getRootAsFile b.bytes 0 = .ok v ∧
          v.Symbols order = .ok syms ∧ v.Headers = .ok hs ∧
          List.Forall₂ (fun s e => ∃ si, s = some si ∧ si.ID I = .ok (I.toID (I.idString e.1)))
            syms (order.visit (entries f.symbols)) ∧
          List.Forall₂ (fun hv h => ∃ x, hv = some x ∧
            x.FileID I = .ok (I.toFileID (I.fileIDString h.fileid))) hs
            (calls.filterMap (Call.header? I))) := by
  obtain ⟨f, hf, hb⟩ := applyCalls_built I name flags calls
  refine ⟨f, hf, (hb.serialize_reads order hname hlast htu).imp_right ?_⟩
  rintro ⟨b, hs, -, v, hv, -, -, -, ⟨hds, hhs, hhr⟩, hsyms⟩
  obtain ⟨syms, hsy, hsr⟩ := hsyms order
  refine ⟨b, _, v, syms, hds, hs, hv, hsy, hhs, forall₂_imp_mem_right hsr ?_,
    (List.forall₂_map_right_iff.mp hhr).imp ?_⟩
  · rintro s e he ⟨si, rfl, hid, -⟩
    rw [← (mergedInfo_some (hb.entry ((order.perm _).mem_iff.mp he))).1]
    exact ⟨si, rfl, hid⟩
  · rintro hv h ⟨x, y, rfl, hy, hid, -⟩
    cases hy
    exact ⟨x, rfl, hid⟩

theorem decoded_ids_rehashed_decl_header :
    ([97] : Bytes) ≠ [] ∧
    ([Call.addDecl { usr := [117] }, .addHeader [] ⟨[104], 0⟩ 0, .addTranslationUnit [1]].filterMap
      Call.translationUnit?).getLast? = some [1] ∧
    ([1] : Bytes) ≠ [] ∧
    ∃ f, (newFile [97] []).applyCalls ⟨id, id, id, id⟩
        [.addDecl { usr := [117] }, .addHeader [] ⟨[104], 0⟩ 0, .addTranslationUnit [1]] = .ok f ∧
      ((f.serialize ⟨id, id, id, id⟩ ⟨id, fun _ => .refl _⟩ = .error .cannotGrow ∧
          maxSize ≤ f.room ⟨id, id, id, id⟩ [97] [1]) ∨
        ∃ b f' v syms hs, f.serialize ⟨id, id, id, id⟩ ⟨id, fun _ => .refl _⟩ = .ok (b, f') ∧
          getRootAsFile b.bytes 0 = .ok v ∧ v.Symbols ⟨id, fun _ => .refl _⟩ = .ok syms ∧
          v.Headers = .ok hs ∧
          List.Forall₂ (fun s e => ∃ si, s = some si ∧
            si.ID ⟨id, id, id, id⟩ = .ok (id (id e.1))) syms
            ((⟨id, fun _ => .refl _⟩ : RangeOrder).visit (entries f.symbols)) ∧
          List.Forall₂ (fun hv h => ∃ x, hv = some x ∧
            x.FileID ⟨id, id, id, id⟩ = .ok (id (id h.fileid))) hs
            ([Call.addDecl { usr := [117] }, .addHeader [] ⟨[104], 0⟩ 0,
              .addTranslationUnit [1]].filterMap (Call.header? ⟨id, id, id, id⟩))) :=
  ⟨by decide, rfl, by decide, decoded_ids_rehashed ⟨id, id, id, id⟩ ⟨id, fun _ => .refl _⟩ [97] []
    [.addDecl { usr := [117] }, .addHeader [] ⟨[104], 0⟩ 0, .addTranslationUnit [1]] [1]
    (by decide) rfl (by decide)⟩

end RoundTrip

end ClangDatabase.Symbol
