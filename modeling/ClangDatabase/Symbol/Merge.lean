import ClangDatabase.Symbol.File

namespace ClangDatabase.Symbol

open Flatbuffers

namespace Location

@[simp] theorem isExist_eq_true (l : Location) : l.isExist = true := rfl

theorem isExistByValue_iff (l : Location) : l.isExistByValue = true ↔ l ≠ {} := by
  simp [isExistByValue, deepEqual]

end Location

namespace Call

def key (I : Identity) : Call → Option Bytes
  | .addDecl loc | .addDefinition loc _ => some (I.toID loc.usr)
  | .addCaller sym _ _ => some (I.toID sym.usr)
  | _ => none

def decl? : Call → Option Location
  | .addDecl loc | .addDefinition loc _ => some loc
  | _ => none

def def? : Call → Option Location
  | .addDecl _ => some {}
  | .addDefinition _ d => some d
  | _ => none

def caller? : Call → Option Caller
  | .addCaller sym _ funcCall => some { location := sym, funcCall := funcCall }
  | _ => none

def translationUnit? : Call → Option Bytes
  | .addTranslationUnit buf => some buf
  | _ => none

def header? (I : Identity) : Call → Option Header
  | .addHeader _ h now => some (newHeader I h now)
  | _ => none

end Call

def mergeCall (info : Info) (c : Call) : Info :=
  { info with decls := info.decls ++ c.decl?.toList, «def» := c.def?.getD info.def,
              callers := info.callers ++ (c.caller?.map some).toList }

/-- The record of key `k` after `calls`: there once a call names `k`, with the declarations and
callers of those calls in order, and the definition of the last of them that sets one. -/
def mergedInfo (I : Identity) (calls : List Call) (k : Bytes) : Option Info :=
  let mine := calls.filter fun c => c.key I == some k
  if mine.isEmpty then none
  else some { id := k, decls := mine.filterMap Call.decl?,
              «def» := (mine.filterMap Call.def?).getLast?.getD {},
              callers := (mine.filterMap Call.caller?).map some }

structure Built (I : Identity) (name : Bytes) (flags : List Bytes) (calls : List Call) (f : File) :
    Prop where
  name_eq : f.name = name
  flags_eq : f.flags = flags
  translationUnit_eq : f.translationUnit = (calls.filterMap Call.translationUnit?).getLast?.getD []
  headers_eq : f.headers = (calls.filterMap (Call.header? I)).map some
  symbols_eq : ∃ m, f.symbols = some m ∧ ∀ k, m.lookup k = mergedInfo I calls k
  locations_eq : ∃ n, f.locations = some n ∧
    ∀ loc, n.lookup loc = if loc ∈ calls.filterMap Call.decl? then some (I.toID loc.usr) else none
  builder_eq : f.builder = some newBuilder
  file_eq : f.file = none

section Steps

variable {I : Identity} {name : Bytes} {flags : List Bytes} {calls : List Call} {f : File}

theorem getLast?_append_toList {α : Type} (l : List α) (x : Option α) (d : α) :
    (l ++ x.toList).getLast?.getD d = x.getD (l.getLast?.getD d) := by
  cases x <;> simp

theorem mergedInfo_append (calls : List Call) (c : Call) (k : Bytes) :
    mergedInfo I (calls ++ [c]) k =
      if c.key I = some k then some (mergeCall ((mergedInfo I calls k).getD { id := k }) c)
      else mergedInfo I calls k := by
  unfold mergedInfo
  by_cases hc : c.key I = some k
  · by_cases hm : calls.filter (fun c => c.key I == some k) = []
    · simp [hc, hm, mergeCall]
      cases c <;> simp [Call.decl?, Call.def?, Call.caller?]
    · simp [hc, hm, mergeCall, getLast?_append_toList]
      cases c <;> simp [Call.decl?, Call.def?, Call.caller?]
  · simp [hc]

theorem addSymbol_eq {m : AList fun _ : Bytes => Info} {n : AList fun _ : Location => Bytes}
    (hm : f.symbols = some m) (hn : f.locations = some n) (loc d : Location) :
    f.addSymbol I loc d = .ok { f with
      locations := some (n.insert loc (I.toID loc.usr)),
      symbols := some (m.insert (I.toID loc.usr)
        (mergeCall ((m.lookup (I.toID loc.usr)).getD { id := I.toID loc.usr })
          (.addDefinition loc d))) } := by
  simp [File.addSymbol, lookup, assign, hm, hn, bind, Except.bind, pure, Except.pure, mergeCall,
    Call.decl?, Call.def?, Call.caller?]

theorem addCaller_eq {m : AList fun _ : Bytes => Info} (hm : f.symbols = some m)
    (sym d : Location) (funcCall : Bool) :
    f.addCaller I sym d funcCall = .ok { f with
      symbols := some (m.insert (I.toID sym.usr)
        (mergeCall ((m.lookup (I.toID sym.usr)).getD { id := I.toID sym.usr })
          (.addCaller sym d funcCall))) } := by
  simp [File.addCaller, lookup, assign, hm, bind, Except.bind, pure, Except.pure, mergeCall,
    Call.decl?, Call.def?, Call.caller?]

theorem lookup_insert_mergeCall {m : AList fun _ : Bytes => Info}
    (hmk : ∀ k, m.lookup k = mergedInfo I calls k) (c : Call) {k₀ : Bytes} (hc : c.key I = some k₀)
    (k : Bytes) :
    (m.insert k₀ (mergeCall ((m.lookup k₀).getD { id := k₀ }) c)).lookup k =
      mergedInfo I (calls ++ [c]) k := by
  rw [mergedInfo_append]
  by_cases hk : k₀ = k
  · subst hk
    simp [hc, hmk]
  · simp [hc, hk, Ne.symm hk, hmk]

theorem lookup_insert_decl {n : AList fun _ : Location => Bytes}
    (hnk : ∀ loc, n.lookup loc =
      if loc ∈ calls.filterMap Call.decl? then some (I.toID loc.usr) else none)
    (c : Call) {loc : Location} (hc : c.decl? = some loc) (loc' : Location) :
    (n.insert loc (I.toID loc.usr)).lookup loc' =
      if loc' ∈ (calls ++ [c]).filterMap Call.decl? then some (I.toID loc'.usr) else none := by
  by_cases hl : loc' = loc
  · subst hl
    simp [hc]
  · simp [hl, hnk, hc]

theorem Built.step (h : Built I name flags calls f) (c : Call) :
    ∃ f', c.apply I f = .ok f' ∧ Built I name flags (calls ++ [c]) f' := by
  obtain ⟨h1, h2, h3, h4, ⟨m, hm, hmk⟩, ⟨n, hn, hnk⟩, h7, h8⟩ := h
  cases c with
  | addDecl loc =>
    exact ⟨_, addSymbol_eq hm hn loc {}, h1, h2, by simpa [Call.translationUnit?] using h3,
      by simpa [Call.header?] using h4, ⟨_, rfl, lookup_insert_mergeCall hmk (.addDecl loc) rfl⟩,
      ⟨_, rfl, lookup_insert_decl hnk (.addDecl loc) rfl⟩, h7, h8⟩
  | addDefinition loc d =>
    exact ⟨_, addSymbol_eq hm hn loc d, h1, h2, by simpa [Call.translationUnit?] using h3,
      by simpa [Call.header?] using h4,
      ⟨_, rfl, lookup_insert_mergeCall hmk (.addDefinition loc d) rfl⟩,
      ⟨_, rfl, lookup_insert_decl hnk (.addDefinition loc d) rfl⟩, h7, h8⟩
  | addCaller sym d funcCall =>
    exact ⟨_, addCaller_eq hm sym d funcCall, h1, h2, by simpa [Call.translationUnit?] using h3,
      by simpa [Call.header?] using h4,
      ⟨_, rfl, lookup_insert_mergeCall hmk (.addCaller sym d funcCall) rfl⟩,
      ⟨n, hn, by simpa [Call.decl?] using hnk⟩, h7, h8⟩
  | addHeader p hf now =>
    exact ⟨_, rfl, h1, h2, by simpa [Call.translationUnit?] using h3,
      by simp [File.addHeader, h4, Call.header?], ⟨m, hm, by simpa [mergedInfo_append, Call.key]⟩,
      ⟨n, hn, by simpa [Call.decl?] using hnk⟩, h7, h8⟩
  | addTranslationUnit buf =>
    exact ⟨_, rfl, h1, h2, by simp [File.addTranslationUnit, Call.translationUnit?],
      by simpa [Call.header?] using h4, ⟨m, hm, by simpa [mergedInfo_append, Call.key]⟩,
      ⟨n, hn, by simpa [Call.decl?] using hnk⟩, h7, h8⟩

theorem applyCalls_built (I : Identity) (name : Bytes) (flags : List Bytes) (calls : List Call) :
    ∃ f, (newFile name flags).applyCalls I calls = .ok f ∧ Built I name flags calls f := by
  induction calls using List.reverseRecOn with
  | nil => exact ⟨_, rfl, rfl, rfl, rfl, rfl, ⟨∅, rfl, by simp [mergedInfo]⟩, ⟨∅, rfl, by simp⟩,
      rfl, rfl⟩
  | append_singleton calls c ih =>
    obtain ⟨f, hf, hb⟩ := ih
    obtain ⟨f', hf', hb'⟩ := hb.step c
    refine ⟨f', ?_, hb'⟩
    simp only [File.applyCalls, List.foldlM_append] at hf ⊢
    simp [hf, hf', bind, Except.bind, pure, Except.pure]

end Steps

theorem merge_law (I : Identity) (name : Bytes) (flags : List Bytes) (calls : List Call) :
    ∃ f, (newFile name flags).applyCalls I calls = .ok f ∧
      (∀ k, lookup f.symbols k = mergedInfo I calls k) ∧
      ∀ loc, lookup f.locations loc =
        if loc ∈ calls.filterMap Call.decl? then some (I.toID loc.usr) else none := by
  obtain ⟨f, hf, hb⟩ := applyCalls_built I name flags calls
  obtain ⟨m, hm, hmk⟩ := hb.symbols_eq
  obtain ⟨n, hn, hnk⟩ := hb.locations_eq
  exact ⟨f, hf, fun k => by simp [lookup, hm, hmk], fun loc => by simp [lookup, hn, hnk]⟩

section Interleaving

variable {I : Identity}

theorem Call.key_of_decl? {c : Call} {loc : Location} (h : c.decl? = some loc) :
    c.key I = some (I.toID loc.usr) := by
  cases c <;> simp_all [Call.decl?, Call.key]

theorem mem_decls_iff_filter_key (calls : List Call) (loc : Location) :
    loc ∈ calls.filterMap Call.decl? ↔
      loc ∈ (calls.filter fun c => c.key I == some (I.toID loc.usr)).filterMap Call.decl? := by
  simp only [List.mem_filterMap, List.mem_filter, beq_iff_eq]
  exact ⟨fun ⟨c, hc, hd⟩ => ⟨c, ⟨hc, Call.key_of_decl? hd⟩, hd⟩, fun ⟨c, ⟨hc, _⟩, hd⟩ => ⟨c, hc, hd⟩⟩

theorem applyCalls_interleaving (name : Bytes) (flags : List Bytes) (calls₁ calls₂ : List Call)
    (hkey : ∀ k, calls₁.filter (fun c => c.key I == some k) =
      calls₂.filter (fun c => c.key I == some k))
    (hhdr : calls₁.filterMap (Call.header? I) = calls₂.filterMap (Call.header? I))
    (htu : (calls₁.filterMap Call.translationUnit?).getLast? =
      (calls₂.filterMap Call.translationUnit?).getLast?) :
    ∃ f₁ f₂, (newFile name flags).applyCalls I calls₁ = .ok f₁ ∧
      (newFile name flags).applyCalls I calls₂ = .ok f₂ ∧
      (∀ k, lookup f₁.symbols k = lookup f₂.symbols k) ∧
      (∀ loc, lookup f₁.locations loc = lookup f₂.locations loc) ∧
      f₁.headers = f₂.headers ∧ f₁.translationUnit = f₂.translationUnit := by
  obtain ⟨f₁, hf₁, hb₁⟩ := applyCalls_built I name flags calls₁
  obtain ⟨f₂, hf₂, hb₂⟩ := applyCalls_built I name flags calls₂
  obtain ⟨m₁, hm₁, hmk₁⟩ := hb₁.symbols_eq
  obtain ⟨m₂, hm₂, hmk₂⟩ := hb₂.symbols_eq
  obtain ⟨n₁, hn₁, hnk₁⟩ := hb₁.locations_eq
  obtain ⟨n₂, hn₂, hnk₂⟩ := hb₂.locations_eq
  refine ⟨f₁, f₂, hf₁, hf₂, fun k => ?_, fun loc => ?_, ?_, ?_⟩
  · simp only [lookup, hm₁, hm₂, Option.some_bind, hmk₁, hmk₂, mergedInfo, hkey k]
  · simp only [lookup, hn₁, hn₂, Option.some_bind, hnk₁, hnk₂,
      mem_decls_iff_filter_key (I := I) calls₁, mem_decls_iff_filter_key (I := I) calls₂, hkey]
  · rw [hb₁.headers_eq, hb₂.headers_eq, hhdr]
  · rw [hb₁.translationUnit_eq, hb₂.translationUnit_eq, htu]

theorem applyCalls_interleaving_swap :
    (∀ k, [Call.addDecl { usr := [1] }, .addDecl { usr := [2] }].filter
        (fun c => c.key ⟨id, id, id, id⟩ == some k) =
      [Call.addDecl { usr := [2] }, .addDecl { usr := [1] }].filter
        (fun c => c.key ⟨id, id, id, id⟩ == some k)) ∧
    [Call.addDecl { usr := [1] }, .addDecl { usr := [2] }].filterMap
        (Call.header? ⟨id, id, id, id⟩) =
      [Call.addDecl { usr := [2] }, .addDecl { usr := [1] }].filterMap
        (Call.header? ⟨id, id, id, id⟩) ∧
    ([Call.addDecl { usr := [1] }, .addDecl { usr := [2] }].filterMap
        Call.translationUnit?).getLast? =
      ([Call.addDecl { usr := [2] }, .addDecl { usr := [1] }].filterMap
        Call.translationUnit?).getLast? ∧
    ∃ f₁ f₂, (newFile [97] []).applyCalls ⟨id, id, id, id⟩
        [.addDecl { usr := [1] }, .addDecl { usr := [2] }] = .ok f₁ ∧
      (newFile [97] []).applyCalls ⟨id, id, id, id⟩
        [.addDecl { usr := [2] }, .addDecl { usr := [1] }] = .ok f₂ ∧
      (∀ k, lookup f₁.symbols k = lookup f₂.symbols k) ∧
      (∀ loc, lookup f₁.locations loc = lookup f₂.locations loc) ∧
      f₁.headers = f₂.headers ∧ f₁.translationUnit = f₂.translationUnit := by
  have hkey : ∀ k, [Call.addDecl { usr := [1] }, .addDecl { usr := [2] }].filter
        (fun c => c.key ⟨id, id, id, id⟩ == some k) =
      [Call.addDecl { usr := [2] }, .addDecl { usr := [1] }].filter
        (fun c => c.key ⟨id, id, id, id⟩ == some k) := by
    intro k
    by_cases h₁ : [(1 : UInt8)] = k <;> by_cases h₂ : [(2 : UInt8)] = k <;>
      simp [List.filter_cons, Call.key, h₁, h₂]
  exact ⟨hkey, rfl, rfl, applyCalls_interleaving [97] [] _ _ hkey rfl rfl⟩

end Interleaving

theorem addDecl_clears_def (I : Identity) (name : Bytes) (flags : List Bytes) (loc d : Location) :
    ∃ f, (newFile name flags).applyCalls I [.addDefinition loc d, .addDecl loc] = .ok f ∧
      lookup f.symbols (I.toID loc.usr) =
        some { id := I.toID loc.usr, decls := [loc, loc], «def» := {} } := by
  obtain ⟨f, hf, hb⟩ := applyCalls_built I name flags [.addDefinition loc d, .addDecl loc]
  obtain ⟨m, hm, hmk⟩ := hb.symbols_eq
  refine ⟨f, hf, ?_⟩
  simp [lookup, hm, hmk, mergedInfo, Call.key, Call.decl?, Call.def?, Call.caller?]

end ClangDatabase.Symbol
