import ClangDatabase.Symbol.Totality

namespace ClangDatabase.Symbol

open Flatbuffers

def Info.Unmarshalled (I : Identity) (r e : Info) : Prop :=
  r.id = I.toID (I.idString e.id) ∧ List.Forall₂ Location.ReadsAs r.decls e.decls ∧
    r.def.ReadsAs e.def ∧ List.Forall₂ Caller.ReadsAs r.callers e.callers

/-- The symbol map the loop of `Unmarshal` fills: each record under its id, a later record
replacing an earlier one of the same id. -/
def insertRecords (recs : List Info) (m : AList fun _ : Bytes => Info) :
    AList fun _ : Bytes => Info :=
  recs.foldl (fun m r => m.insert r.id r) m

def Location.Blank (l : Location) : Prop :=
  l.fileName = [] ∧ l.line = 0 ∧ l.col = 0 ∧ l.offset = 0 ∧ l.usr = []

def Info.Blank (r : Info) : Prop :=
  (∀ l ∈ r.decls, l.Blank) ∧ r.def.Blank ∧
    ∀ c ∈ r.callers, ∀ cv, c = some cv → cv.location = {} ∧ cv.funcCall = false

section Views

theorem forall₂_mem_left {α β : Type} {R : α → β → Prop} {l : List α} {u : List β}
    (h : List.Forall₂ R l u) {a : α} (ha : a ∈ l) : ∃ b ∈ u, R a b := by
  induction h with
  | nil => cases ha
  | cons hab _ ih =>
    rcases List.mem_cons.mp ha with rfl | ha
    · exact ⟨_, .head _, hab⟩
    · obtain ⟨b, hb, h⟩ := ih ha
      exact ⟨b, .tail _ hb, h⟩

theorem Info.decls_blank {info : Info} {ds : List Location} (h : info.Decls = .ok ds) :
    ∀ l ∈ ds, l.Blank := by
  obtain ⟨t, -, h⟩ := ok_of_bind_ok h
  obtain ⟨n, -, h⟩ := ok_of_bind_ok h
  refine mapM_ok_forall (fun i l hl => ?_) h
  obtain ⟨obj, -, hl⟩ := ok_of_bind_ok hl
  cases obj <;> cases hl <;> exact ⟨rfl, rfl, rfl, rfl, rfl⟩

theorem Info.def_blank {info : Info} {d : Location} (h : info.Def = .ok d) : d.Blank := by
  obtain ⟨t, -, h⟩ := ok_of_bind_ok h
  obtain ⟨obj, -, h⟩ := ok_of_bind_ok h
  cases h
  exact ⟨rfl, rfl, rfl, rfl, rfl⟩

theorem Info.callers_blank {info : Info} {cs : List (Option Caller)} (h : info.Callers = .ok cs) :
    ∀ c ∈ cs, ∀ cv, c = some cv → cv.location = {} ∧ cv.funcCall = false := by
  obtain ⟨t, -, h⟩ := ok_of_bind_ok h
  obtain ⟨n, -, h⟩ := ok_of_bind_ok h
  refine mapM_ok_forall (fun i c hc => ?_) h
  obtain ⟨obj, -, hc⟩ := ok_of_bind_ok hc
  cases hc
  intro cv hcv
  cases obj <;> cases hcv
  exact ⟨rfl, rfl⟩

theorem Location.ReadsAs.blank {v l : Location} (h : v.ReadsAs l) (hl : l.Blank) :
    v.ReadsAs {} := by
  obtain ⟨h₁, h₂, h₃, h₄, h₅⟩ := h
  obtain ⟨e₁, e₂, e₃, e₄, e₅⟩ := hl
  exact ⟨e₁ ▸ h₁, e₂ ▸ h₂, e₃ ▸ h₃, e₄ ▸ h₄, e₅ ▸ h₅⟩

end Views

section Loop

variable {I : Identity} {f : File} {m : AList fun _ : Bytes => Info}

theorem unmarshalSymbol_ok {si e : Info} (hr : si.ReadsAs I e) (hm : f.symbols = some m) :
    ∃ r, r.Unmarshalled I e ∧ r.Blank ∧
      File.unmarshalSymbol I f (some si) = .ok { f with symbols := some (m.insert r.id r) } := by
  obtain ⟨hid, ⟨ds, hds, hdr⟩, ⟨d, hd, hdd⟩, ⟨cs, hcs, hcr⟩⟩ := hr
  refine ⟨{ id := I.toID (I.idString e.id), decls := ds, «def» := d, callers := cs,
            info := si.info }, ⟨rfl, hdr, hdd, hcr⟩,
    ⟨Info.decls_blank hds, Info.def_blank hd, Info.callers_blank hcs⟩, ?_⟩
  simp only [File.unmarshalSymbol, deref, hid, hds, hd, hcs, assign, hm, pure_bind]
  rfl

theorem unmarshalSymbols_ok {syms : List (Option Info)} {es : List (Σ _ : Bytes, Info)}
    (h : List.Forall₂ (fun s e => ∃ si, s = some si ∧ si.ReadsAs I e.2) syms es) :
    ∀ (f : File) m, f.symbols = some m → ∃ recs,
      List.Forall₂ (fun r e => r.Unmarshalled I e.2) recs es ∧ (∀ r ∈ recs, r.Blank) ∧
      syms.foldlM (File.unmarshalSymbol I) f = .ok { f with symbols := some (insertRecords recs m) } := by
  induction h with
  | nil =>
    intro f m hm
    refine ⟨[], .nil, fun _ h => absurd h (List.not_mem_nil _), ?_⟩
    cases f
    cases hm
    rfl
  | cons hse _ ih =>
    intro f m hm
    obtain ⟨si, rfl, hr⟩ := hse
    obtain ⟨r, hru, hrb, hstep⟩ := unmarshalSymbol_ok hr hm
    obtain ⟨recs, hrecs, hblank, hfold⟩ := ih { f with symbols := some (m.insert r.id r) } _ rfl
    refine ⟨r :: recs, .cons hru hrecs, List.forall_mem_cons.mpr ⟨hrb, hblank⟩, ?_⟩
    simp only [List.foldlM_cons, hstep, bind, Except.bind, hfold]
    rfl

end Loop

section View

variable {I : Identity} {bytes name tu : Bytes} {flags : List Bytes}
  {es : List (Σ _ : Bytes, Info)} {headers : List (Option Header)}

theorem reads_of_translationUnit :
    ∃ bytes, FileReadsAs ⟨id, id, id, id⟩ bytes [97] [1] [] [] [] := by
  obtain ⟨f, hf, hb⟩ := applyCalls_built ⟨id, id, id, id⟩ [97] [] [.addTranslationUnit [1]]
  cases Except.ok.inj (hf.symm.trans rfl :
    Except.ok f = .ok ((newFile [97] []).addTranslationUnit [1]))
  rcases hb.serialize_reads ⟨id, fun _ => .refl _⟩ (by decide) rfl (by decide) with
    ⟨-, hroom⟩ | ⟨b, -, -, hreads⟩
  · exact absurd hroom (by decide)
  exact ⟨b.bytes, hreads⟩

theorem reads_of_header :
    ∃ bytes, FileReadsAs ⟨id, id, id, id⟩ bytes [97] [1] [] []
      [some (newHeader ⟨id, id, id, id⟩ ⟨[104], 0⟩ 0)] := by
  obtain ⟨f, hf, hb⟩ := applyCalls_built ⟨id, id, id, id⟩ [97] []
    [.addHeader [] ⟨[104], 0⟩ 0, .addTranslationUnit [1]]
  cases Except.ok.inj (hf.symm.trans rfl : Except.ok f =
    .ok (((newFile [97] []).addHeader ⟨id, id, id, id⟩ [] ⟨[104], 0⟩ 0).addTranslationUnit [1]))
  rcases hb.serialize_reads ⟨id, fun _ => .refl _⟩ (by decide) rfl (by decide) with
    ⟨-, hroom⟩ | ⟨b, -, -, hreads⟩
  · exact absurd hroom (by decide)
  exact ⟨b.bytes, hreads⟩

theorem reads_of_decl_header :
    ∃ bytes, FileReadsAs ⟨id, id, id, id⟩ bytes [97] [1] []
      [⟨[117], { id := [117], decls := [{ usr := [117] }] }⟩]
      [some (newHeader ⟨id, id, id, id⟩ ⟨[104], 0⟩ 0)] := by
  obtain ⟨f, hf, hb⟩ := applyCalls_built ⟨id, id, id, id⟩ [97] []
    [.addDecl { usr := [117] }, .addHeader [] ⟨[104], 0⟩ 0, .addTranslationUnit [1]]
  have hfit : ((newFile [97] []).applyCalls ⟨id, id, id, id⟩
      [.addDecl { usr := [117] }, .addHeader [] ⟨[104], 0⟩ 0, .addTranslationUnit [1]]).map
      (fun f => (decide (f.room ⟨id, id, id, id⟩ [97] [1] < maxSize), entries f.symbols)) =
      .ok (true, [⟨[117], { id := [117], decls := [{ usr := [117] }] }⟩]) :=
    rfl
  rw [hf] at hfit
  obtain ⟨hroom, hes⟩ := Prod.mk.inj (Except.ok.inj hfit)
  rcases hb.serialize_reads ⟨id, fun _ => .refl _⟩ (by decide) rfl (by decide) with
    ⟨-, hmax⟩ | ⟨b, -, -, hreads⟩
  · exact absurd hmax (by simpa using hroom)
  exact ⟨b.bytes, hes ▸ hreads⟩

theorem FileReadsAs.unmarshal_file (h : FileReadsAs I bytes name tu flags es headers)
    (order : RangeOrder) :
    ∃ t, getRootAsFile bytes 0 = .ok { file := some t } ∧ ∃ hs,
      List.Forall₂ (Header.ReadsAs I) hs headers ∧ ∀ f : File, f.file = some t →
        ∃ recs, List.Forall₂ (fun r e => r.Unmarshalled I e.2) recs es ∧ (∀ r ∈ recs, r.Blank) ∧
          f.unmarshal I order = .ok
            { f with name := name, translationUnit := tu, symbols := some (insertRecords recs ∅),
                     headers := List.replicate (if 0 < f.headers.length then f.headers else hs).length
                       none ++ (if 0 < f.headers.length then f.headers else hs) } := by
  obtain ⟨v, hv, hN, -, hT, ⟨hs, hhs, hhr⟩, hsyms⟩ := h
  obtain ⟨t, rfl⟩ := getRootAsFile_view hv
  obtain ⟨syms, hsy, hsr⟩ := hsyms order
  have hN' : Schema.fileName t = pure name := by simpa [File.Name, deref] using hN
  have hT' : Schema.fileTranslationUnit t = pure tu := by
    simpa [File.TranslationUnit, deref] using hT
  refine ⟨t, hv, hs, hhr, fun f hf => ?_⟩
  obtain ⟨recs, hrecs, hblank, hfold⟩ := unmarshalSymbols_ok hsr
    { f with name := name, translationUnit := tu, symbols := some ∅ } ∅ rfl
  refine ⟨recs, hrecs, hblank, ?_⟩
  have hsy' : File.Symbols order
      { f with name := name, translationUnit := tu, symbols := some ∅ } = pure syms := by
    simpa [File.Symbols, entries, hf] using hsy
  have hhs' : File.Headers
        { f with name := name, translationUnit := tu, symbols := some (insertRecords recs ∅) } =
      pure (if 0 < f.headers.length then f.headers else hs) := by
    split_ifs with hlen
    · simp [File.Headers, hlen]
    · simpa [File.Headers, hlen, hf] using hhs
  have hd : deref f.file = pure t := by rw [hf]; rfl
  have hfold' : List.foldlM (File.unmarshalSymbol I)
      { f with name := name, translationUnit := tu, symbols := some ∅ } syms =
      pure { f with name := name, translationUnit := tu, symbols := some (insertRecords recs ∅) } :=
    hfold
  simp only [File.unmarshal, hd, hN', hT', hsy', hfold', hhs', pure_bind]
  rfl

theorem FileReadsAs.unmarshal_eq (h : FileReadsAs I bytes name tu flags es headers)
    (order : RangeOrder) :
    ∃ v, getRootAsFile bytes 0 = .ok v ∧ ∃ recs hs,
      List.Forall₂ (fun r e => r.Unmarshalled I e.2) recs es ∧ (∀ r ∈ recs, r.Blank) ∧
      List.Forall₂ (Header.ReadsAs I) hs headers ∧
      v.unmarshal I order =
        .ok { v with name := name, translationUnit := tu, symbols := some (insertRecords recs ∅),
                     headers := List.replicate hs.length none ++ hs } := by
  obtain ⟨t, hv, hs, hhr, hun⟩ := h.unmarshal_file order
  obtain ⟨recs, hrecs, hblank, hu⟩ := hun { file := some t } rfl
  exact ⟨_, hv, recs, hs, hrecs, hblank, hhr, hu⟩

theorem unmarshal_view (h : FileReadsAs I bytes name tu flags es headers) (order : RangeOrder) :
    ∃ v, getRootAsFile bytes 0 = .ok v ∧ ∃ recs hs,
      List.Forall₂ (fun r e => r.Unmarshalled I e.2) recs es ∧
      List.Forall₂ (Header.ReadsAs I) hs headers ∧
      v.unmarshal I order =
        .ok { v with name := name, translationUnit := tu, symbols := some (insertRecords recs ∅),
                     headers := List.replicate hs.length none ++ hs } :=
  let ⟨v, hv, recs, hs, hrecs, _, hhs, hun⟩ := h.unmarshal_eq order
  ⟨v, hv, recs, hs, hrecs, hhs, hun⟩

theorem unmarshal_view_decl_header :
    ∃ bytes, FileReadsAs ⟨id, id, id, id⟩ bytes [97] [1] []
        [⟨[117], { id := [117], decls := [{ usr := [117] }] }⟩]
        [some (newHeader ⟨id, id, id, id⟩ ⟨[104], 0⟩ 0)] ∧
      ∃ v, getRootAsFile bytes 0 = .ok v ∧ ∃ recs hs,
        List.Forall₂ (fun r e => r.Unmarshalled ⟨id, id, id, id⟩ e.2) recs
          ([⟨[117], { id := [117], decls := [{ usr := [117] }] }⟩] : List (Σ _ : Bytes, Info)) ∧
        List.Forall₂ (Header.ReadsAs ⟨id, id, id, id⟩) hs
          [some (newHeader ⟨id, id, id, id⟩ ⟨[104], 0⟩ 0)] ∧
        v.unmarshal ⟨id, id, id, id⟩ ⟨id, fun _ => .refl _⟩ =
          .ok { v with name := [97], translationUnit := [1], symbols := some (insertRecords recs ∅),
                       headers := List.replicate hs.length none ++ hs } := by
  obtain ⟨bytes, h⟩ := reads_of_decl_header
  exact ⟨bytes, h, unmarshal_view h _⟩

end View

section Resume

variable {I : Identity} {bytes name tu : Bytes} {flags : List Bytes}
  {es : List (Σ _ : Bytes, Info)} {headers : List (Option Header)}

theorem mem_insertRecords {recs : List Info} {m : AList fun _ : Bytes => Info}
    {e : Σ _ : Bytes, Info} (h : e ∈ (insertRecords recs m).entries) : e ∈ m.entries ∨ e.2 ∈ recs := by
  induction recs generalizing m with
  | nil => exact .inl h
  | cons r recs ih =>
    rcases ih h with h' | h'
    · rw [AList.insert_entries] at h'
      rcases List.mem_cons.mp h' with rfl | h''
      · exact .inr (.head _)
      · exact .inl ((List.kerase_sublist _ _).subset h'')
    · exact .inr (.tail _ h')

theorem Info.Unmarshalled.callers_some {r e : Info} (h : r.Unmarshalled I e) :
    ∀ c ∈ r.callers, c.isSome := by
  intro c hc
  obtain ⟨_, _, _, hcr⟩ := h
  obtain ⟨j, hj, rfl⟩ := List.getElem_of_mem hc
  obtain ⟨cv, _, hcv, -⟩ := hcr.get hj (hcr.length_eq ▸ hj)
  simp only [List.get_eq_getElem] at hcv
  rw [hcv]
  rfl

theorem insertRecords_callers_some {recs : List Info}
    (hrecs : List.Forall₂ (fun r e => r.Unmarshalled I e.2) recs es) :
    ∀ e ∈ entries (some (insertRecords recs ∅)), ∀ c ∈ e.2.callers, c.isSome := by
  intro e he
  rcases mem_insertRecords (by simpa [entries] using he) with h' | h'
  · exact absurd h' (List.not_mem_nil _)
  · obtain ⟨j, hj, hrj⟩ := List.getElem_of_mem h'
    have := hrecs.get hj (hrecs.length_eq ▸ hj)
    simp only [List.get_eq_getElem, hrj] at this
    exact this.callers_some

theorem unmarshal_keeps_nil_index (h : FileReadsAs I bytes name tu flags es headers)
    (order : RangeOrder) :
    ∃ v g, getRootAsFile bytes 0 = .ok v ∧ v.unmarshal I order = .ok g ∧ g.flags = [] ∧
      ∀ loc d, g.addDecl I loc = .error .nilMap ∧ g.addDefinition I loc d = .error .nilMap := by
  obtain ⟨v, hv, recs, hs, -, -, -, hun⟩ := h.unmarshal_eq order
  obtain ⟨t, rfl⟩ := getRootAsFile_view hv
  exact ⟨_, _, hv, hun, rfl, fun _ _ => ⟨rfl, rfl⟩⟩

theorem unmarshal_keeps_nil_index_translationUnit :
    ∃ bytes, FileReadsAs ⟨id, id, id, id⟩ bytes [97] [1] [] [] [] ∧
      ∃ v g, getRootAsFile bytes 0 = .ok v ∧
        v.unmarshal ⟨id, id, id, id⟩ ⟨id, fun _ => .refl _⟩ = .ok g ∧ g.flags = [] ∧
        ∀ loc d, g.addDecl ⟨id, id, id, id⟩ loc = .error .nilMap ∧
          g.addDefinition ⟨id, id, id, id⟩ loc d = .error .nilMap := by
  obtain ⟨bytes, h⟩ := reads_of_translationUnit
  exact ⟨bytes, h, unmarshal_keeps_nil_index h _⟩

theorem unmarshal_serialize_nil_header (h : FileReadsAs I bytes name tu flags es headers)
    (order : RangeOrder) (hname : name ≠ []) (htu : tu ≠ []) (hh : headers ≠ []) :
    ∃ v g, getRootAsFile bytes 0 = .ok v ∧ v.unmarshal I order = .ok g ∧
      (g.room I name tu < maxSize → g.serialize I order = .error .nilDereference) := by
  obtain ⟨v, hv, recs, hs, hrecs, -, hhs, hun⟩ := h.unmarshal_eq order
  obtain ⟨t, rfl⟩ := getRootAsFile_view hv
  obtain ⟨x, xs, rfl⟩ : ∃ x xs, hs = x :: xs := List.exists_cons_of_ne_nil
    (fun h => hh (List.forall₂_nil_left_iff.mp (h ▸ hhs)))
  refine ⟨_, _, hv, hun, fun hroom => serialize_nil_header rfl ?_ ?_
    (insertRecords_callers_some hrecs) rfl hroom⟩
  · simp [File.Name, hname, pure, Except.pure]
  · simp [File.TranslationUnit, List.length_pos.mpr htu, pure, Except.pure]

theorem unmarshal_serialize_nil_header_header :
    ∃ bytes, FileReadsAs ⟨id, id, id, id⟩ bytes [97] [1] [] []
        [some (newHeader ⟨id, id, id, id⟩ ⟨[104], 0⟩ 0)] ∧
      ([97] : Bytes) ≠ [] ∧ ([1] : Bytes) ≠ [] ∧
      [some (newHeader ⟨id, id, id, id⟩ ⟨[104], 0⟩ 0)] ≠ [] ∧
      ∃ v g, getRootAsFile bytes 0 = .ok v ∧
        v.unmarshal ⟨id, id, id, id⟩ ⟨id, fun _ => .refl _⟩ = .ok g ∧
        (g.room ⟨id, id, id, id⟩ [97] [1] < maxSize →
          g.serialize ⟨id, id, id, id⟩ ⟨id, fun _ => .refl _⟩ = .error .nilDereference) := by
  obtain ⟨bytes, h⟩ := reads_of_header
  exact ⟨bytes, h, by decide, by decide, by simp,
    unmarshal_serialize_nil_header h _ (by decide) (by decide) (by simp)⟩

theorem unmarshal_count (x n : Nat) (hx : 1 ≤ x) :
    (x - 1) * n + n + (x - 1) * n = (2 * x - 1) * n := by
  have hy : n ≤ x * n := Nat.le_mul_of_pos_left n hx
  rw [Nat.sub_mul, Nat.sub_mul, Nat.one_mul, Nat.mul_assoc]
  omega

theorem unmarshal_repeated (h : FileReadsAs I bytes name tu flags es headers)
    (order : RangeOrder) (k : Nat) :
    ∃ v, getRootAsFile bytes 0 = .ok v ∧ ∃ hs, List.Forall₂ (Header.ReadsAs I) hs headers ∧
      ∃ g, (fun r => r >>= File.unmarshal I order)^[k + 1] (.ok v) = .ok g ∧
        g.file = v.file ∧ g.name = name ∧ g.translationUnit = tu ∧
        (∃ recs, List.Forall₂ (fun r e => r.Unmarshalled I e.2) recs es ∧
          g.symbols = some (insertRecords recs ∅)) ∧
        g.headers = List.replicate ((2 ^ (k + 1) - 1) * hs.length) none ++ hs := by
  obtain ⟨t, hv, hs, hhr, hun⟩ := h.unmarshal_file order
  refine ⟨_, hv, hs, hhr, ?_⟩
  induction k with
  | zero =>
    obtain ⟨recs, hrecs, -, hu⟩ := hun { file := some t } rfl
    exact ⟨_, hu, rfl, rfl, rfl, ⟨recs, hrecs, rfl⟩, by simp⟩
  | succ k ih =>
    obtain ⟨g, hg, hgf, -, -, -, hgh⟩ := ih
    obtain ⟨recs, hrecs, -, hu⟩ := hun g hgf
    have hkeep : (if 0 < g.headers.length then g.headers else hs) = g.headers := by
      split_ifs with hlen
      · rfl
      · have hnil : g.headers = [] := List.eq_nil_of_length_eq_zero (by omega)
        rw [hnil] at hgh ⊢
        exact (List.append_eq_nil.mp hgh.symm).2
    rw [hkeep] at hu
    rw [Function.iterate_succ_apply', hg]
    refine ⟨_, hu, hgf, rfl, rfl, ⟨recs, hrecs, rfl⟩, ?_⟩
    have hc : (2 ^ (k + 1) - 1) * hs.length + hs.length + (2 ^ (k + 1) - 1) * hs.length =
        (2 ^ (k + 1 + 1) - 1) * hs.length := by
      rw [pow_succ 2 (k + 1), Nat.mul_comm _ 2]
      exact unmarshal_count _ _ Nat.one_le_two_pow
    show List.replicate g.headers.length none ++ g.headers = _
    rw [hgh, List.length_append, List.length_replicate, ← List.append_assoc,
      List.append_replicate_replicate, hc]

theorem unmarshal_repeated_header :
    ∃ bytes, FileReadsAs ⟨id, id, id, id⟩ bytes [97] [1] [] []
        [some (newHeader ⟨id, id, id, id⟩ ⟨[104], 0⟩ 0)] ∧
      ∃ v, getRootAsFile bytes 0 = .ok v ∧ ∃ hs, List.Forall₂ (Header.ReadsAs ⟨id, id, id, id⟩) hs
          [some (newHeader ⟨id, id, id, id⟩ ⟨[104], 0⟩ 0)] ∧
        ∃ g, (fun r => r >>= File.unmarshal ⟨id, id, id, id⟩ ⟨id, fun _ => .refl _⟩)^[2 + 1]
            (.ok v) = .ok g ∧
          g.file = v.file ∧ g.name = [97] ∧ g.translationUnit = [1] ∧
          (∃ recs, List.Forall₂ (fun r (e : Σ _ : Bytes, Info) => r.Unmarshalled ⟨id, id, id, id⟩ e.2)
              recs [] ∧
            g.symbols = some (insertRecords recs ∅)) ∧
          g.headers = List.replicate ((2 ^ (2 + 1) - 1) * hs.length) none ++ hs := by
  obtain ⟨bytes, h⟩ := reads_of_header
  exact ⟨bytes, h, unmarshal_repeated h _ 2⟩

theorem serialize_view_drops (h : FileReadsAs I bytes name tu flags es headers)
    (order : RangeOrder) :
    ∃ v, getRootAsFile bytes 0 = .ok v ∧
      ((v.serialize I order = .error .cannotGrow ∧ maxSize ≤ name.length + tu.length + 118) ∨
        ∃ b, v.serialize I order = .ok (b, { v with builder := some b }) ∧
          finishedBytes.run' b = .ok b.bytes ∧ FileReadsAs I b.bytes name tu [] [] []) := by
  obtain ⟨v, hv, hN, -, hT, -, -⟩ := h
  obtain ⟨t, rfl⟩ := getRootAsFile_view hv
  refine ⟨_, hv, ?_⟩
  rcases @serialize_spec I order { file := some t } name tu rfl hN hT (by simp) (by simp [entries])
    with ⟨hs, hroom⟩ | ⟨b, hs, hfin, root, href, hat⟩
  · refine .inl ⟨hs, ?_⟩
    simp [File.room, entries] at hroom
    omega
  · refine .inr ⟨b, hs, ?_, ?_⟩
    · show Prod.fst <$> finishedBytes.run b = _
      rw [finishedBytes_run hfin]
      rfl
    · rw [show order.visit (entries ({ file := some t } : File).symbols) = [] from
        (order.perm _).eq_nil] at hat
      exact hat.readsAs href

theorem serialize_view_drops_header :
    ∃ bytes, FileReadsAs ⟨id, id, id, id⟩ bytes [97] [1] [] []
        [some (newHeader ⟨id, id, id, id⟩ ⟨[104], 0⟩ 0)] ∧
      ∃ v, getRootAsFile bytes 0 = .ok v ∧
        ((v.serialize ⟨id, id, id, id⟩ ⟨id, fun _ => .refl _⟩ = .error .cannotGrow ∧
            maxSize ≤ ([97] : Bytes).length + ([1] : Bytes).length + 118) ∨
          ∃ b, v.serialize ⟨id, id, id, id⟩ ⟨id, fun _ => .refl _⟩ =
              .ok (b, { v with builder := some b }) ∧
            finishedBytes.run' b = .ok b.bytes ∧ FileReadsAs ⟨id, id, id, id⟩ b.bytes [97] [1] [] [] []) := by
  obtain ⟨bytes, h⟩ := reads_of_header
  exact ⟨bytes, h, serialize_view_drops h _⟩

theorem resume_zeroes_locations (h : FileReadsAs I bytes name tu flags es [])
    (order : RangeOrder) (hname : name ≠ []) (htu : tu ≠ []) :
    ∃ v g, getRootAsFile bytes 0 = .ok v ∧ v.unmarshal I order = .ok g ∧
      ((g.serialize I order = .error .cannotGrow ∧ maxSize ≤ g.room I name tu) ∨
        ∃ b w syms, g.serialize I order = .ok (b, { g with builder := some b }) ∧
          getRootAsFile b.bytes 0 = .ok w ∧ w.Symbols order = .ok syms ∧
          syms.length = (entries g.symbols).length ∧
          ∀ s ∈ syms, ∃ si, s = some si ∧
            (∃ ds, si.Decls = .ok ds ∧ ∀ d ∈ ds, d.ReadsAs {}) ∧
            (∃ d, si.Def = .ok d ∧ d.ReadsAs {}) ∧
            ∃ cs, si.Callers = .ok cs ∧ ∀ c ∈ cs, ∃ cv, c = some cv ∧
              (∃ l, cv.Location = .ok l ∧ l.ReadsAs {}) ∧ cv.FuncCall = .ok false) := by
  obtain ⟨v, hv, recs, hs, hrecs, hblank, hhs, hun⟩ := h.unmarshal_eq order
  obtain ⟨t, rfl⟩ := getRootAsFile_view hv
  cases List.forall₂_nil_right_iff.mp hhs
  refine ⟨_, _, hv, hun, ?_⟩
  rcases @serialize_spec I order { file := some t, name := name, translationUnit := tu,
                                   symbols := some (insertRecords recs ∅) } name tu rfl
    (by simp [File.Name, hname, pure, Except.pure])
    (by simp [File.TranslationUnit, List.length_pos.mpr htu, pure, Except.pure]) (by simp)
    (insertRecords_callers_some hrecs) with h' | ⟨b, hs', -, root, href, hat⟩
  · exact .inl h'
  obtain ⟨w, hw, -, -, -, -, hsyms⟩ := hat.readsAs href
  obtain ⟨syms, hsy, hsr⟩ := hsyms order
  refine .inr ⟨b, w, syms, hs', hw, hsy, by rw [hsr.length_eq, (order.perm _).length_eq],
    fun s hs => ?_⟩
  obtain ⟨e, he, si, rfl, -, ⟨ds, hds, hdr⟩, ⟨d, hd, hdd⟩, ⟨cs, hcs, hcr⟩⟩ := forall₂_mem_left hsr hs
  have hb : e.2.Blank := by
    rcases mem_insertRecords ((order.perm _).mem_iff.mp he) with h' | h'
    · exact absurd h' (List.not_mem_nil _)
    · exact hblank _ h'
  refine ⟨si, rfl, ⟨ds, hds, fun d' hd' => ?_⟩, ⟨d, hd, hdd.blank hb.2.1⟩, ⟨cs, hcs, fun c hc => ?_⟩⟩
  · obtain ⟨l, hl, hrd⟩ := forall₂_mem_left hdr hd'
    exact hrd.blank (hb.1 l hl)
  · obtain ⟨c', hc', cv, cc, rfl, rfl, ⟨l, hl, hlr⟩, hfc⟩ := forall₂_mem_left hcr hc
    obtain ⟨hl0, hf0⟩ := hb.2.2 _ hc' cc rfl
    exact ⟨cv, rfl, ⟨l, hl, hl0 ▸ hlr⟩, hf0 ▸ hfc⟩

theorem resume_zeroes_locations_decl :
    ∃ f bytes, (newFile [97] []).applyCalls ⟨id, id, id, id⟩
        [.addDecl { fileName := [120], line := 3 }, .addTranslationUnit [1]] = .ok f ∧
      FileReadsAs ⟨id, id, id, id⟩ bytes [97] [1] [] (entries f.symbols) [] ∧
      ([97] : Bytes) ≠ [] ∧ ([1] : Bytes) ≠ [] ∧
      ∃ v g, getRootAsFile bytes 0 = .ok v ∧
        v.unmarshal ⟨id, id, id, id⟩ ⟨id, fun _ => .refl _⟩ = .ok g ∧
        ((g.serialize ⟨id, id, id, id⟩ ⟨id, fun _ => .refl _⟩ = .error .cannotGrow ∧
            maxSize ≤ g.room ⟨id, id, id, id⟩ [97] [1]) ∨
          ∃ b w syms, g.serialize ⟨id, id, id, id⟩ ⟨id, fun _ => .refl _⟩ =
              .ok (b, { g with builder := some b }) ∧
            getRootAsFile b.bytes 0 = .ok w ∧ w.Symbols ⟨id, fun _ => .refl _⟩ = .ok syms ∧
            syms.length = (entries g.symbols).length ∧
            ∀ s ∈ syms, ∃ si, s = some si ∧
              (∃ ds, si.Decls = .ok ds ∧ ∀ d ∈ ds, d.ReadsAs {}) ∧
              (∃ d, si.Def = .ok d ∧ d.ReadsAs {}) ∧
              ∃ cs, si.Callers = .ok cs ∧ ∀ c ∈ cs, ∃ cv, c = some cv ∧
                (∃ l, cv.Location = .ok l ∧ l.ReadsAs {}) ∧ cv.FuncCall = .ok false) := by
  obtain ⟨f, hf, hb⟩ := applyCalls_built ⟨id, id, id, id⟩ [97] []
    [.addDecl { fileName := [120], line := 3 }, .addTranslationUnit [1]]
  have hroom : f.room ⟨id, id, id, id⟩ [97] [1] < maxSize := by
    have := congrArg (fun r => match r with
      | .ok f => f.room ⟨id, id, id, id⟩ [97] [1] | .error _ => 0) hf
    simp only at this
    rw [← this]
    decide
  rcases hb.serialize_reads ⟨id, fun _ => .refl _⟩ (by decide) rfl (by decide) with
    ⟨-, hroom'⟩ | ⟨b, -, -, hreads⟩
  · exact absurd hroom' (Nat.not_le.mpr hroom)
  exact ⟨f, b.bytes, hf, hreads, by decide, by decide,
    resume_zeroes_locations hreads ⟨id, fun _ => .refl _⟩ (by decide) (by decide)⟩

end Resume

theorem resume_drops_flags :
    ∃ f b v g b' w,
      (newFile [97] [[45, 73, 46]]).applyCalls ⟨id, id, id, id⟩ [.addTranslationUnit [1]] = .ok f ∧
      f.serialize ⟨id, id, id, id⟩ ⟨id, fun _ => .refl _⟩ = .ok (b, { f with builder := some b }) ∧
      finishedBytes.run' b = .ok b.bytes ∧ getRootAsFile b.bytes 0 = .ok v ∧
      v.Flags = .ok [[45, 73, 46]] ∧
      v.unmarshal ⟨id, id, id, id⟩ ⟨id, fun _ => .refl _⟩ = .ok g ∧
      g.applyCalls ⟨id, id, id, id⟩ [] = .ok g ∧
      g.serialize ⟨id, id, id, id⟩ ⟨id, fun _ => .refl _⟩ = .ok (b', { g with builder := some b' }) ∧
      finishedBytes.run' b' = .ok b'.bytes ∧ getRootAsFile b'.bytes 0 = .ok w ∧
      w.Flags = .ok [] := by
  obtain ⟨f, hf, hb⟩ := applyCalls_built ⟨id, id, id, id⟩ [97] [[45, 73, 46]]
    [.addTranslationUnit [1]]
  cases Except.ok.inj (hf.symm.trans rfl :
    Except.ok f = .ok ((newFile [97] [[45, 73, 46]]).addTranslationUnit [1]))
  rcases hb.serialize_reads ⟨id, fun _ => .refl _⟩ (by decide) rfl (by decide) with
    ⟨-, hroom⟩ | ⟨b, hs, hfin, hreads⟩
  · exact absurd hroom (by decide)
  obtain ⟨v, hv, recs, hs', hrecs, -, hhs, hun⟩ := hreads.unmarshal_eq ⟨id, fun _ => .refl _⟩
  obtain ⟨v', hv', -, hF, -⟩ := hreads
  cases Except.ok.inj (hv.symm.trans hv')
  obtain ⟨t, rfl⟩ := getRootAsFile_view hv
  cases List.forall₂_nil_right_iff.mp hrecs
  cases List.forall₂_nil_right_iff.mp hhs
  rcases @serialize_spec ⟨id, id, id, id⟩ ⟨id, fun _ => .refl _⟩
    { file := some t, name := [97], translationUnit := [1], symbols := some (insertRecords [] ∅) }
    [97] [1] rfl rfl rfl (by simp) (by simp [insertRecords, entries]) with
    ⟨-, hroom⟩ | ⟨b', hs'', hfin', root, href, hat⟩
  · exact absurd hroom (by simp [File.room, insertRecords, entries, maxSize])
  obtain ⟨w, hw, -, hF', -⟩ := hat.readsAs href
  refine ⟨_, b, _, _, b', w, rfl, hs, hfin, hv, hF, hun, rfl, hs'', ?_, hw, hF'⟩
  show Prod.fst <$> finishedBytes.run b' = _
  rw [finishedBytes_run hfin']
  rfl

end ClangDatabase.Symbol
