import ClangDatabase.Symbol.Types

namespace ClangDatabase.Symbol

open Flatbuffers

/-- A chunk of a `clang.CompletionString`: `ChunkKind(i)` and `ChunkText(i)`. -/
structure CompletionChunk where
  kind : Nat
  text : Bytes

/-- `clang.CompletionChunk_TypedText`. -/
def completionChunkTypedText : Nat := 1

/-- `clang.CompletionChunk_ResultType`. -/
def completionChunkResultType : Nat := 15

/-- The `clang.CodeCompleteResults` that `Marshal` reads: the completion string of each result,
of which `NumResults()` counts the entries. -/
structure ClangCodeCompleteResults where
  results : List (List CompletionChunk)

structure CompleteItem where
  word : Bytes := []
  abbr : Bytes := []
  menu : Bytes := []
  info : Bytes := []
  kind : Bytes := []
  icase : Bool := false
  dup : Bool := false
  completeItems : Option Table := none
  deriving DecidableEq

namespace CompleteItem

def Info (c : CompleteItem) : Except Fault Bytes := do
  Schema.completeItemInfo (← deref c.completeItems)

/-- One iteration of `Marshal`'s loop: the chunk's text joins `word`, `typ` or `placeholder`
by its kind. -/
def chunkStep (acc : Bytes × Bytes × Bytes) (chunk : CompletionChunk) : Bytes × Bytes × Bytes :=
  let (word, typ, placeholder) := acc
  if chunk.kind = completionChunkTypedText then (word ++ chunk.text, typ, placeholder ++ chunk.text)
  else if chunk.kind = completionChunkResultType then (word, typ ++ chunk.text, placeholder)
  else (word, typ, placeholder ++ chunk.text)

def marshal (cs : List CompletionChunk) : BuildM Nat := do
  let (word, typ, placeholder) := cs.foldl chunkStep ([], [], [])
  let uword ← createString word
  let uabbr ← createString placeholder
  let umenu ← createString []
  let uinfo ← createString placeholder
  let ukind ← createString typ
  Schema.completeItemStart
  Schema.completeItemAddWord uword
  Schema.completeItemAddAbbr uabbr
  Schema.completeItemAddMenu umenu
  Schema.completeItemAddInfo uinfo
  Schema.completeItemAddKind ukind
  Schema.completeItemAddIcase 1
  Schema.completeItemAddDup 1
  Schema.completeItemEnd

end CompleteItem

def chunkTexts (p : Nat → Bool) (cs : List CompletionChunk) : Bytes :=
  ((cs.filter fun c => p c.kind).map CompletionChunk.text).flatten

/-- The item the completion contract makes of a candidate: its typed text as `word`, its result
type as `kind`, the texts of all its other chunks as `abbr` and `info`, and an empty `menu`. -/
def completeItemOf (cs : List CompletionChunk) : CompleteItem :=
  { word := chunkTexts (· == completionChunkTypedText) cs,
    abbr := chunkTexts (· != completionChunkResultType) cs,
    menu := [],
    info := chunkTexts (· != completionChunkResultType) cs,
    kind := chunkTexts (· == completionChunkResultType) cs,
    icase := true, dup := true }

theorem foldl_chunkStep (cs : List CompletionChunk) (word typ placeholder : Bytes) :
    cs.foldl CompleteItem.chunkStep (word, typ, placeholder) =
      (word ++ chunkTexts (· == completionChunkTypedText) cs,
        typ ++ chunkTexts (· == completionChunkResultType) cs,
        placeholder ++ chunkTexts (· != completionChunkResultType) cs) := by
  induction cs generalizing word typ placeholder with
  | nil => simp [chunkTexts]
  | cons c cs ih =>
    simp only [List.foldl_cons, CompleteItem.chunkStep]
    split_ifs <;>
      simp_all [chunkTexts, List.filter_cons, completionChunkTypedText, completionChunkResultType]

structure CodeCompleteResults where
  codeCompleteResults : Option Table

def newCodeCompleteResults (v : Option Table) : CodeCompleteResults := ⟨v⟩

namespace CodeCompleteResults

/-- The item `Results()` makes of result `i`, when the vector has it. -/
def resultItem (obj : Table) : Except Fault CompleteItem := do
  return { word := ← Schema.completeItemWord obj, abbr := ← Schema.completeItemAbbr obj,
           menu := ← Schema.completeItemMenu obj, info := ← Schema.completeItemInfo obj,
           kind := ← Schema.completeItemKind obj, icase := true, dup := true }

def Results (c : CodeCompleteResults) : Except Fault (List CompleteItem) := do
  let t ← deref c.codeCompleteResults
  let n ← Schema.codeCompleteResultsResultsLength t
  (List.range n).mapM fun i => do
    match ← Schema.codeCompleteResultsResults t i with
    | some obj => resultItem obj
    | none => pure {}

/-- What `Marshal` does on the builder when there are results. -/
def writeResults (v : ClangCodeCompleteResults) : BuildM Unit := do
  let resultsOffsets ← v.results.mapM CompleteItem.marshal
  let resultsVecOffset ←
    prependVector Schema.codeCompleteResultsStartResultsVector resultsOffsets
  Schema.codeCompleteResultsStart
  Schema.codeCompleteResultsAddResults resultsVecOffset
  finish (← Schema.codeCompleteResultsEnd)

def marshal (v : Option ClangCodeCompleteResults) : Except Fault (Option Builder) :=
  match v with
  | none => pure none
  | some v =>
    if v.results.length = 0 then pure (some newBuilder)
    else do
      let (_, builder) ← (writeResults v).run newBuilder
      return some builder

end CodeCompleteResults

end ClangDatabase.Symbol
