import ClangDatabase.Symbol.Completion
import ClangDatabase.Symbol.Decode

namespace ClangDatabase.Symbol

open Flatbuffers

def CompleteItemAt (buf : Bytes) (o : Nat) (item : CompleteItem) : Prop :=
  ∃ w a m i k, 0 < w ∧ StringAt buf w item.word ∧ 0 < a ∧ StringAt buf a item.abbr ∧
    0 < m ∧ StringAt buf m item.menu ∧ 0 < i ∧ StringAt buf i item.info ∧
    0 < k ∧ StringAt buf k item.kind ∧
    TableAt buf o [.uoffset w, .uoffset a, .uoffset m, .uoffset i, .uoffset k,
      .byte (if item.icase then 1 else 0), .byte (if item.dup then 1 else 0)]

def CodeCompleteResultsAt (buf : Bytes) (o : Nat) (rs : List (List CompletionChunk)) : Prop :=
  ∃ r, VectorOf (fun buf o cs => CompleteItemAt buf o (completeItemOf cs)) buf r rs ∧
    TableAt buf o [.uoffset r]

theorem completeItemAt_stable (item : CompleteItem) :
    Stable fun buf o => CompleteItemAt buf o item :=
  fun pre _ _ ⟨w, a, m, i, k, h₁, s₁, h₂, s₂, h₃, s₃, h₄, s₄, h₅, s₅, ht⟩ =>
    ⟨w, a, m, i, k, h₁, s₁.prepend pre, h₂, s₂.prepend pre, h₃, s₃.prepend pre, h₄,
      s₄.prepend pre, h₅, s₅.prepend pre, ht.prepend pre⟩

def CompleteItem.room (item : CompleteItem) : Nat :=
  item.word.length + item.abbr.length + item.menu.length + item.info.length + item.kind.length +
    102

def ClangCodeCompleteResults.room (v : ClangCodeCompleteResults) : Nat :=
  ((v.results.map fun cs => (completeItemOf cs).room).sum + 4 * v.results.length + 7) + 20 + 23

section Write

variable {b : Builder} {L : Nat}

theorem CompleteItem.marshal_eq (cs : List CompletionChunk) :
    CompleteItem.marshal cs = (do
      let uword ← createString (completeItemOf cs).word
      let uabbr ← createString (completeItemOf cs).abbr
      let umenu ← createString (completeItemOf cs).menu
      let uinfo ← createString (completeItemOf cs).info
      let ukind ← createString (completeItemOf cs).kind
      table 7 [.uoffset uword, .uoffset uabbr, .uoffset umenu, .uoffset uinfo, .uoffset ukind,
        .byte 1, .byte 1]) := by
  simp only [CompleteItem.marshal, foldl_chunkStep, List.nil_append, table, addFields,
    Schema.completeItemStart, Schema.completeItemAddWord, Schema.completeItemAddAbbr,
    Schema.completeItemAddMenu, Schema.completeItemAddInfo, Schema.completeItemAddKind,
    Schema.completeItemAddIcase, Schema.completeItemAddDup, Schema.completeItemEnd, bind_assoc,
    pure_bind]
  rfl

theorem CompleteItem.marshal_writes (cs : List CompletionChunk) :
    Writes (CompleteItem.marshal cs) (completeItemOf cs).room
      fun buf o => CompleteItemAt buf o (completeItemOf cs) := by
  intro b L hb hwf hL
  rw [CompleteItem.marshal_eq]
  simp only [CompleteItem.room] at hL ⊢
  refine (createString_writes _ b L hb hwf (by omega)).bind
    fun w b₁ ⟨g₁, lt₁, le₁, z₁, s₁⟩ => ?_
  have hb₁ := g₁.nested_false hb
  refine (createString_writes _ b₁ L hb₁ (g₁.wf hwf) (by omega)).bind
    fun a b₂ ⟨g₂, lt₂, le₂, z₂, s₂⟩ => ?_
  have hb₂ := g₂.nested_false hb₁
  refine (createString_writes _ b₂ L hb₂ (g₂.wf (g₁.wf hwf)) (by omega)).bind
    fun m b₃ ⟨g₃, lt₃, le₃, z₃, s₃⟩ => ?_
  have hb₃ := g₃.nested_false hb₂
  refine (createString_writes _ b₃ L hb₃ (g₃.wf (g₂.wf (g₁.wf hwf))) (by omega)).bind
    fun i b₄ ⟨g₄, lt₄, le₄, z₄, s₄⟩ => ?_
  have hb₄ := g₄.nested_false hb₃
  refine (createString_writes _ b₄ L hb₄ (g₄.wf (g₃.wf (g₂.wf (g₁.wf hwf)))) (by omega)).bind
    fun k b₅ ⟨g₅, lt₅, le₅, z₅, s₅⟩ => ?_
  have o₂ := g₂.offset_le
  have o₃ := g₃.offset_le
  have o₄ := g₄.offset_le
  have o₅ := g₅.offset_le
  refine (table_grows 7 _ (by simp) (by decide) (g₅.nested_false hb₄)
    (g₅.wf (g₄.wf (g₃.wf (g₂.wf (g₁.wf hwf))))) (by simp [Field.RefBelow, -offset_def]; omega)
    (by simp only [List.map_cons, List.map_nil, List.sum_cons, List.sum_nil, Field.room]; omega)).mono ?_
  rintro o b₆ ⟨g₆, lt₆, le₆, z₆, t₆⟩
  simp only [List.map_cons, List.map_nil, List.sum_cons, List.sum_nil, Field.room] at z₆
  have G₅ := g₅.trans g₆
  have G₄ := g₄.trans G₅
  have G₃ := g₃.trans G₄
  have G₂ := g₂.trans G₃
  exact ⟨g₁.trans G₂, by omega, le₆, by omega, w, a, m, i, k, by omega,
    G₂.stable (stringAt_stable _) s₁, by omega, G₃.stable (stringAt_stable _) s₂, by omega,
    G₄.stable (stringAt_stable _) s₃, by omega, G₅.stable (stringAt_stable _) s₄, by omega,
    g₆.stable (stringAt_stable _) s₅, t₆⟩

theorem CodeCompleteResults.writeResults_eq (v : ClangCodeCompleteResults) :
    CodeCompleteResults.writeResults v = (do
      let r ← (do
        let os ← v.results.mapM CompleteItem.marshal
        prependVector (startVector 4 · 4) os)
      finish (← table 1 [.uoffset r])) := by
  simp only [CodeCompleteResults.writeResults, table, addFields,
    Schema.codeCompleteResultsStartResultsVector, Schema.codeCompleteResultsStart,
    Schema.codeCompleteResultsAddResults, Schema.codeCompleteResultsEnd, bind_assoc, pure_bind]
  rfl

theorem CodeCompleteResults.writeResults_builds (v : ClangCodeCompleteResults)
    (hb : b.nested = false) (hwf : b.WF) (hm : b.minalign ≤ 8) (hL : b.offset + v.room ≤ L) :
    Builds (CodeCompleteResults.writeResults v) b L fun _ b' => b'.finished = true ∧ ∃ root,
      RefAt b'.bytes b'.bytes.length root ∧ CodeCompleteResultsAt b'.bytes root v.results := by
  rw [CodeCompleteResults.writeResults_eq]
  simp only [ClangCodeCompleteResults.room] at hL
  refine (vectorOf_writes CompleteItem.marshal (fun cs => (completeItemOf cs).room)
    (fun buf o cs => CompleteItemAt buf o (completeItemOf cs)) v.results
    (fun cs _ => CompleteItem.marshal_writes cs) (fun cs => completeItemAt_stable _) b L hb hwf
    (by omega)).bind fun r b₁ ⟨g₁, lt₁, le₁, z₁, v₁⟩ => ?_
  refine (table_grows 1 _ (by simp) (by decide) (g₁.nested_false hb) (g₁.wf hwf)
    (by simp [Field.RefBelow, -offset_def]; omega)
    (by simp only [List.map_cons, List.map_nil, List.sum_cons, List.sum_nil, Field.room]; omega)).bind
    fun root b₂ ⟨g₂, lt₂, le₂, z₂, t₂⟩ => ?_
  have m₂ := (g₁.trans g₂).minalign
  simp only [List.map_cons, List.map_nil, List.sum_cons, List.sum_nil, Field.room] at z₂
  refine (finish_grows root (g₂.nested_false (g₁.nested_false hb)) le₂ (by omega)).mono ?_
  rintro - b₃ ⟨g₃, hfin, href⟩
  exact ⟨hfin, root, href, r,
    (g₂.trans g₃).stable (vectorOf_stable (fun cs => completeItemAt_stable _) _) v₁,
    g₃.stable (tableAt_stable _) t₂⟩

end Write

section Read

variable {buf : Bytes} {o : Nat}

theorem CompleteItemAt.resultItem (h : CompleteItemAt buf o item) :
    CodeCompleteResults.resultItem ⟨buf, buf.length - o⟩ =
      .ok { word := item.word, abbr := item.abbr, menu := item.menu, info := item.info,
            kind := item.kind, icase := true, dup := true } := by
  obtain ⟨w, a, m, i, k, h₁, s₁, h₂, s₂, h₃, s₃, h₄, s₄, h₅, s₅, ht⟩ := h
  have hp : (⟨buf, buf.length - o⟩ : Table).pos = (⟨buf, buf.length - o⟩ : Table).bytes.length - o :=
    rfl
  have hw : Table.readString ⟨buf, buf.length - o⟩ 4 = .ok item.word :=
    ht.readString hp (k := 0) rfl h₁.ne' s₁
  have ha : Table.readString ⟨buf, buf.length - o⟩ 6 = .ok item.abbr :=
    ht.readString hp (k := 1) rfl h₂.ne' s₂
  have hm : Table.readString ⟨buf, buf.length - o⟩ 8 = .ok item.menu :=
    ht.readString hp (k := 2) rfl h₃.ne' s₃
  have hi : Table.readString ⟨buf, buf.length - o⟩ 10 = .ok item.info :=
    ht.readString hp (k := 3) rfl h₄.ne' s₄
  have hk : Table.readString ⟨buf, buf.length - o⟩ 12 = .ok item.kind :=
    ht.readString hp (k := 4) rfl h₅.ne' s₅
  simp only [CodeCompleteResults.resultItem, Schema.completeItemWord, Schema.completeItemAbbr,
    Schema.completeItemMenu, Schema.completeItemInfo, Schema.completeItemKind, hw, ha, hm, hi, hk]
  rfl

theorem CompleteItemAt.icase_dup (h : CompleteItemAt buf o item) :
    Schema.completeItemIcase ⟨buf, buf.length - o⟩ = .ok (if item.icase then 1 else 0) ∧
      Schema.completeItemDup ⟨buf, buf.length - o⟩ = .ok (if item.dup then 1 else 0) := by
  obtain ⟨w, a, m, i, k, -, -, -, -, -, -, -, -, -, -, ht⟩ := h
  have hp : (⟨buf, buf.length - o⟩ : Table).pos = (⟨buf, buf.length - o⟩ : Table).bytes.length - o :=
    rfl
  exact ⟨ht.readByte hp (k := 5) rfl, ht.readByte hp (k := 6) rfl⟩

theorem CodeCompleteResultsAt.icase_dup {rs : List (List CompletionChunk)}
    (h : CodeCompleteResultsAt buf o rs) :
    ∀ j < rs.length, ∃ obj,
      Schema.codeCompleteResultsResults ⟨buf, buf.length - o⟩ j = .ok (some obj) ∧
        Schema.completeItemIcase obj = .ok 1 ∧ Schema.completeItemDup obj = .ok 1 := by
  obtain ⟨r, hv, ht⟩ := h
  have hp : (⟨buf, buf.length - o⟩ : Table).pos = (⟨buf, buf.length - o⟩ : Table).bytes.length - o :=
    rfl
  intro j hj
  obtain ⟨q, hq, hat⟩ := (ht.readTables hp (k := 0) rfl hv).2 j hj
  exact ⟨_, hq, hat.icase_dup⟩

theorem CodeCompleteResultsAt.results {rs : List (List CompletionChunk)}
    (h : CodeCompleteResultsAt buf o rs) :
    (newCodeCompleteResults (some ⟨buf, buf.length - o⟩)).Results =
      .ok (rs.map completeItemOf) := by
  obtain ⟨r, hv, ht⟩ := h
  have hp : (⟨buf, buf.length - o⟩ : Table).pos = (⟨buf, buf.length - o⟩ : Table).bytes.length - o :=
    rfl
  obtain ⟨hlen, hel⟩ := ht.readTables hp (k := 0) rfl hv
  obtain ⟨items, hitems, hr⟩ := mapM_range_forall₂ (fun i => do
      match ← Schema.codeCompleteResultsResults ⟨buf, buf.length - o⟩ i with
      | some obj => CodeCompleteResults.resultItem obj
      | none => pure {})
    (fun item cs => item = completeItemOf cs) rs fun j hj => by
      obtain ⟨q, hq, hat⟩ := hel j hj
      exact ⟨_, by simp only [Schema.codeCompleteResultsResults]; rw [hq]; exact hat.resultItem,
        rfl⟩
  have hmap : items = rs.map completeItemOf :=
    List.forall₂_eq_eq_eq ▸ (List.forall₂_map_right_iff (R := Eq)).mpr hr
  simp only [CodeCompleteResults.Results, newCodeCompleteResults, deref,
    Schema.codeCompleteResultsResultsLength, pure_bind]
  rw [← hmap]
  exact (congrArg (· >>= _) hlen).trans hitems

end Read

theorem marshal_round_trip (v : ClangCodeCompleteResults) (hv : v.results ≠ []) :
    (CodeCompleteResults.marshal (some v) = .error .cannotGrow ∧ maxSize ≤ v.room) ∨
      ∃ b, CodeCompleteResults.marshal (some v) = .ok (some b) ∧
        finishedBytes.run' b = .ok b.bytes ∧ ∃ t,
          Schema.getRootAsCodeCompleteResults b.bytes 0 = .ok t ∧
          (newCodeCompleteResults (some t)).Results = .ok (v.results.map completeItemOf) ∧
          ∀ j < v.results.length, ∃ obj, Schema.codeCompleteResultsResults t j = .ok (some obj) ∧
            Schema.completeItemIcase obj = .ok 1 ∧ Schema.completeItemDup obj = .ok 1 := by
  have hn : ¬v.results.length = 0 := fun h => hv (List.length_eq_zero.mp h)
  rcases (CodeCompleteResults.writeResults_builds v (b := newBuilder) (L := v.room) rfl
    (fun v hv => by simp [newBuilder] at hv) (by decide) (by simp [newBuilder])).run with
    ⟨h, hroom⟩ | ⟨_, b, h, hfin, root, href, hat⟩
  · exact .inl ⟨by simp [CodeCompleteResults.marshal, hn, h, bind, Except.bind], hroom⟩
  refine .inr ⟨b, by simp [CodeCompleteResults.marshal, hn, h, bind, Except.bind, pure,
    Except.pure], ?_, _, getRoot_refAt href, hat.results, hat.icase_dup⟩
  show Prod.fst <$> finishedBytes.run b = _
  rw [finishedBytes_run hfin]
  rfl

theorem marshal_round_trip_typedText :
    [[(⟨1, [102]⟩ : CompletionChunk), ⟨15, [105]⟩], [⟨1, [103]⟩]] ≠ [] ∧
    ((CodeCompleteResults.marshal (some ⟨[[⟨1, [102]⟩, ⟨15, [105]⟩], [⟨1, [103]⟩]]⟩) =
          .error .cannotGrow ∧
        maxSize ≤ (⟨[[⟨1, [102]⟩, ⟨15, [105]⟩], [⟨1, [103]⟩]]⟩ : ClangCodeCompleteResults).room) ∨
      ∃ b, CodeCompleteResults.marshal (some ⟨[[⟨1, [102]⟩, ⟨15, [105]⟩], [⟨1, [103]⟩]]⟩) =
          .ok (some b) ∧
        finishedBytes.run' b = .ok b.bytes ∧ ∃ t,
          Schema.getRootAsCodeCompleteResults b.bytes 0 = .ok t ∧
          (newCodeCompleteResults (some t)).Results =
            .ok ([[⟨1, [102]⟩, ⟨15, [105]⟩], [⟨1, [103]⟩]].map completeItemOf) ∧
          ∀ j < [[(⟨1, [102]⟩ : CompletionChunk), ⟨15, [105]⟩], [⟨1, [103]⟩]].length, ∃ obj,
            Schema.codeCompleteResultsResults t j = .ok (some obj) ∧
            Schema.completeItemIcase obj = .ok 1 ∧ Schema.completeItemDup obj = .ok 1) :=
  ⟨List.cons_ne_nil _ _, marshal_round_trip ⟨[[⟨1, [102]⟩, ⟨15, [105]⟩], [⟨1, [103]⟩]]⟩
    (List.cons_ne_nil _ _)⟩

theorem marshal_no_results_unfinished :
    CodeCompleteResults.marshal (some ⟨[]⟩) = .ok (some newBuilder) ∧
      finishedBytes.run' newBuilder = .error .notFinished :=
  ⟨rfl, rfl⟩

end ClangDatabase.Symbol
