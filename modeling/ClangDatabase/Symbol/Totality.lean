import ClangDatabase.Symbol.RoundTrip

namespace ClangDatabase.Symbol

open Flatbuffers

variable {I : Identity} {buf : Bytes} {v : File}

theorem getRootAsFile_view (h : getRootAsFile buf 0 = .ok v) : ∃ t, v = { file := some t } := by
  simp only [getRootAsFile, bind, Except.bind] at h
  split at h
  · cases h
  · next t _ =>
    cases h
    exact ⟨t, rfl⟩

theorem view_mutation_nilMap (h : getRootAsFile buf 0 = .ok v) (loc d : Location) (fc : Bool) :
    v.addDecl I loc = .error .nilMap ∧ v.addDefinition I loc d = .error .nilMap ∧
      v.addCaller I loc d fc = .error .nilMap := by
  obtain ⟨t, rfl⟩ := getRootAsFile_view h
  exact ⟨rfl, rfl, rfl⟩

section Serialize

variable {order : RangeOrder} {f : File} {name tu : Bytes}

theorem serialize_nil_header (hfresh : f.builder.getD newBuilder = newBuilder)
    (hname : f.Name = .ok name) (htu : f.TranslationUnit = .ok tu)
    (hcallers : ∀ e ∈ entries f.symbols, ∀ c ∈ e.2.callers, c.isSome)
    {rest : List (Option Header)} (hh : f.headers = none :: rest)
    (hroom : f.room I name tu < maxSize) :
    f.serialize I order = .error .nilDereference := by
  have wf₀ : newBuilder.WF := fun v hv => by simp [newBuilder] at hv
  have hw : (f.writeFile I order).run newBuilder = .error .nilDereference := by
    rw [File.writeFile_split hname htu]
    refine (writePrefix_builds hcallers rfl wf₀ ?_).run_bind_error hroom
      fun _ _ _ => by rw [hh]; rfl
    simp only [offset_def, newBuilder, List.length_nil, File.room]
    omega
  simp only [File.serialize, hfresh, hw]
  rfl
end Serialize

theorem mutation_serialize_total (I : Identity) (order : RangeOrder) (name : Bytes)
    (flags : List Bytes) (calls : List Call) (hname : name ≠ []) :
    (∃ f, (newFile name flags).applyCalls I calls = .ok f ∧
      (∀ tu, (calls.filterMap Call.translationUnit?).getLast? = some tu → tu ≠ [] →
        (f.serialize I order = .error .cannotGrow ∧ maxSize ≤ f.room I name tu) ∨
        ∃ b, f.serialize I order = .ok (b, { f with builder := some b }) ∧
          finishedBytes.run' b = .ok b.bytes) ∧
      ((calls.filterMap Call.translationUnit?).getLast?.getD [] = [] →
        name.length + 8 < maxSize → f.serialize I order = .error .nilDereference)) ∧
    ∀ buf v, getRootAsFile buf 0 = .ok v → ∀ loc d fc,
      v.addDecl I loc = .error .nilMap ∧ v.addDefinition I loc d = .error .nilMap ∧
        v.addCaller I loc d fc = .error .nilMap := by
  refine ⟨?_, fun _ _ h => view_mutation_nilMap h⟩
  obtain ⟨f, hf, hb⟩ := applyCalls_built I name flags calls
  refine ⟨f, hf, fun tu hlast htu => ?_, fun hnone hsmall => ?_⟩
  · exact (hb.serialize_reads order hname hlast htu).imp_right
      fun ⟨b, hs, hfin, _⟩ => ⟨b, hs, hfin⟩
  · exact serialize_nil_translationUnit (by rw [hb.builder_eq]; rfl) (hb.name_ok hname) hsmall
      (hb.translationUnit_eq.trans hnone) hb.file_eq

theorem mutation_serialize_total_translationUnit :
    ([97] : Bytes) ≠ [] ∧
    ((∃ f, (newFile [97] []).applyCalls ⟨id, id, id, id⟩ [.addTranslationUnit [1]] = .ok f ∧
      (∀ tu, ([Call.addTranslationUnit [1]].filterMap Call.translationUnit?).getLast? = some tu →
        tu ≠ [] →
        (f.serialize ⟨id, id, id, id⟩ ⟨id, fun _ => .refl _⟩ = .error .cannotGrow ∧
          maxSize ≤ f.room ⟨id, id, id, id⟩ [97] tu) ∨
        ∃ b, f.serialize ⟨id, id, id, id⟩ ⟨id, fun _ => .refl _⟩ = .ok (b, { f with builder := some b }) ∧
          finishedBytes.run' b = .ok b.bytes) ∧
      (([Call.addTranslationUnit [1]].filterMap Call.translationUnit?).getLast?.getD [] = [] →
        ([97] : Bytes).length + 8 < maxSize →
        f.serialize ⟨id, id, id, id⟩ ⟨id, fun _ => .refl _⟩ = .error .nilDereference)) ∧
    ∀ buf v, getRootAsFile buf 0 = .ok v → ∀ loc d fc,
      v.addDecl ⟨id, id, id, id⟩ loc = .error .nilMap ∧
        v.addDefinition ⟨id, id, id, id⟩ loc d = .error .nilMap ∧
        v.addCaller ⟨id, id, id, id⟩ loc d fc = .error .nilMap) :=
  ⟨by decide, mutation_serialize_total ⟨id, id, id, id⟩ ⟨id, fun _ => .refl _⟩ [97] []
    [.addTranslationUnit [1]] (by decide)⟩

theorem serialize_without_translationUnit :
    ∃ f, (newFile [97] []).applyCalls ⟨id, id, id, id⟩ [] = .ok f ∧
      f.serialize ⟨id, id, id, id⟩ ⟨id, fun _ => .refl _⟩ = .error .nilDereference :=
  ⟨_, rfl, serialize_nil_translationUnit rfl rfl (by decide) rfl rfl⟩

end ClangDatabase.Symbol
