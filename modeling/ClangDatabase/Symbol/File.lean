import Mathlib.Data.List.AList
import ClangDatabase.Symbol.Filepath
import ClangDatabase.Symbol.Types

namespace ClangDatabase.Symbol

open Flatbuffers

/-- An order in which Go's `range` may visit the symbol map; the language leaves it open, so
it is an argument of every function that ranges over the map. -/
structure RangeOrder where
  visit : List (Σ _ : Bytes, Info) → List (Σ _ : Bytes, Info)
  perm : ∀ es, List.Perm (visit es) es

/-- A `clang.File`: its name, and `Time()` as `Unix()` gives it. -/
structure ClangFile where
  name : Bytes
  time : BitVec 64

structure File where
  name : Bytes := []
  flags : List Bytes := []
  translationUnit : Bytes := []
  locations : Option (AList fun _ : Location => Bytes) := none
  symbols : Option (AList fun _ : Bytes => Info) := none
  headers : List (Option Header) := []
  builder : Option Builder := none
  file : Option Table := none

/-- Go's `m[k] = v`, which panics on a `nil` map. -/
def assign {κ ν : Type} [DecidableEq κ] (m : Option (AList fun _ : κ => ν)) (k : κ) (v : ν) :
    Except Fault (AList fun _ : κ => ν) :=
  match m with
  | none => throw .nilMap
  | some m => pure (m.insert k v)

/-- Go's `m[k]`, for which a `nil` map is empty. -/
def lookup {κ ν : Type} [DecidableEq κ] (m : Option (AList fun _ : κ => ν)) (k : κ) : Option ν :=
  m.bind (·.lookup k)

def entries {κ ν : Type} (m : Option (AList fun _ : κ => ν)) : List (Σ _ : κ, ν) :=
  (m.map AList.entries).getD []

def newFile (name : Bytes) (flags : List Bytes) : File :=
  { name := name, flags := flags, locations := some ∅, symbols := some ∅,
    builder := some newBuilder }

def getRootAsFile (buf : Bytes) (offset : Nat) : Except Fault File := do
  return { file := some (← Schema.getRootAsFile buf offset) }

/-- `"IDoNotReallyExist-"`, the magic `notExistHeaderName` puts before a base name. -/
def notExistMagic : Bytes := Filepath.ascii "IDoNotReallyExist-"

def notExistHeaderName (headPath : Bytes) : Bytes := notExistMagic ++ Filepath.base headPath

/-- The string `AddHeader` passes to `ToFileID` for `headerFile`. -/
def headerIdentity (headerFile : ClangFile) : Bytes :=
  if headerFile.name = [] then notExistHeaderName (Filepath.clean headerFile.name)
  else Filepath.clean headerFile.name

/-- The header `AddHeader` appends; `now` is what `time.Now()` returns. -/
def newHeader (I : Identity) (headerFile : ClangFile) (now : BitVec 64) : Header :=
  { fileid := I.toFileID (headerIdentity headerFile),
    mtime := if headerFile.name = [] then now else headerFile.time }

namespace File

def Name (f : File) : Except Fault Bytes :=
  if f.name ≠ [] then pure f.name else do Schema.fileName (← deref f.file)

def Flags (f : File) : Except Fault (List Bytes) :=
  if 0 < f.flags.length then pure f.flags else do
    let t ← deref f.file
    let n ← Schema.fileFlagsLength t
    (List.range n).mapM (Schema.fileFlags t)

def TranslationUnit (f : File) : Except Fault Bytes :=
  if 0 < f.translationUnit.length then pure f.translationUnit else do
    Schema.fileTranslationUnit (← deref f.file)

def Symbols (order : RangeOrder) (f : File) : Except Fault (List (Option Info)) :=
  if 0 < (entries f.symbols).length then
    pure (List.replicate (entries f.symbols).length none ++
      (order.visit (entries f.symbols)).map fun v => some v.2)
  else do
    let t ← deref f.file
    let n ← Schema.fileSymbolsLength t
    (List.range n).mapM fun i => do
      let obj ← Schema.fileSymbols t i
      return obj.map fun o => { info := some o }

def Headers (f : File) : Except Fault (List (Option Header)) :=
  if 0 < f.headers.length then pure f.headers else do
    let t ← deref f.file
    let n ← Schema.fileHeadersLength t
    (List.range n).mapM fun i => do
      let obj ← Schema.fileHeaders t i
      return obj.map fun o => { header := some o }

def addTranslationUnit (f : File) (buf : Bytes) : File := { f with translationUnit := buf }

def addSymbol (I : Identity) (f : File) (loc «def» : Location) : Except Fault File := do
  let id := I.toID loc.usr
  let sym := (lookup f.symbols id).getD { id := id }
  let sym := { sym with decls := sym.decls ++ [loc] }
  let sym := if «def».isExist then { sym with «def» := «def» } else sym
  let locations ← assign f.locations loc id
  let symbols ← assign f.symbols id sym
  return { f with locations := some locations, symbols := some symbols }

def addDecl (I : Identity) (f : File) (loc : Location) : Except Fault File := f.addSymbol I loc {}

def addDefinition (I : Identity) (f : File) (loc «def» : Location) : Except Fault File :=
  f.addSymbol I loc «def»

/-- `AddHeader(includePath, headerFile)`, where `now` is what `time.Now()` returns. -/
def addHeader (I : Identity) (f : File) (includePath : Bytes) (headerFile : ClangFile)
    (now : BitVec 64) : File :=
  { f with headers := f.headers ++ [some (newHeader I headerFile now)] }

def addCaller (I : Identity) (f : File) (sym «def» : Location) (funcCall : Bool) :
    Except Fault File := do
  let id := I.toID sym.usr
  let syms := (lookup f.symbols id).getD { id := id }
  let syms := { syms with callers := syms.callers ++ [some { location := sym, funcCall := funcCall }] }
  let symbols ← assign f.symbols id syms
  return { f with symbols := some symbols }

/-- One iteration of `Unmarshal`'s loop over the decoded symbols. -/
def unmarshalSymbol (I : Identity) (f : File) (s : Option Info) : Except Fault File := do
  let s ← deref s
  let key ← s.ID I
  let info : Info :=
    { id := ← s.ID I, decls := ← s.Decls, «def» := ← s.Def, callers := ← s.Callers, info := s.info }
  let symbols ← assign f.symbols key info
  return { f with symbols := some symbols }

def unmarshal (I : Identity) (order : RangeOrder) (f : File) : Except Fault File := do
  let t ← deref f.file
  let f := { f with name := ← Schema.fileName t }
  let f := { f with translationUnit := ← Schema.fileTranslationUnit t }
  let f := { f with symbols := some ∅ }
  let f ← (← f.Symbols order).foldlM (unmarshalSymbol I) f
  let headers ← f.Headers
  return { f with headers := List.replicate headers.length none ++ headers }

/-- What `Serialize` does on the builder. -/
def writeFile (I : Identity) (order : RangeOrder) (f : File) : BuildM Unit := do
  let fname ← createString (← f.Name)
  let tu ← createByteString (← f.TranslationUnit)
  let flagOffsets ← f.flags.mapM createString
  let flagVecOffset ← prependVector Schema.fileStartFlagsVector flagOffsets
  let symbolOffsets ← (order.visit (entries f.symbols)).mapM fun v => v.2.serialize I
  let symbolVecOffset ← prependVector Schema.fileStartSymbolsVector symbolOffsets
  let hdrOffsets ← f.headers.mapM (Header.serialize I)
  let headerVecOffset ← prependVector Schema.fileStartHeadersVector hdrOffsets
  Schema.fileStart
  Schema.fileAddName fname
  Schema.fileAddFlags flagVecOffset
  Schema.fileAddTranslationUnit tu
  Schema.fileAddSymbols symbolVecOffset
  Schema.fileAddHeaders headerVecOffset
  finish (← Schema.fileEnd)

/-- `Serialize()`: the builder it returns, which is also the file's builder afterwards. -/
def serialize (I : Identity) (order : RangeOrder) (f : File) : Except Fault (Builder × File) := do
  let (_, b) ← (writeFile I order f).run (f.builder.getD newBuilder)
  return (b, { f with builder := some b })

end File

/-- A mutation call of `File` with its arguments; `now` is what `time.Now()` returns during an
`AddHeader` call. -/
inductive Call where
  | addDecl (loc : Location)
  | addDefinition (loc «def» : Location)
  | addCaller (sym «def» : Location) (funcCall : Bool)
  | addHeader (includePath : Bytes) (headerFile : ClangFile) (now : BitVec 64)
  | addTranslationUnit (buf : Bytes)

def Call.apply (I : Identity) (f : File) : Call → Except Fault File
  | .addDecl loc => f.addDecl I loc
  | .addDefinition loc d => f.addDefinition I loc d
  | .addCaller sym d funcCall => f.addCaller I sym d funcCall
  | .addHeader p h now => pure (f.addHeader I p h now)
  | .addTranslationUnit buf => pure (f.addTranslationUnit buf)

def File.applyCalls (I : Identity) (f : File) (calls : List Call) : Except Fault File :=
  calls.foldlM (Call.apply I) f

end ClangDatabase.Symbol
