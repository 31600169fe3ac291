import ClangDatabase.Flatbuffers.Vector
import ClangDatabase.Symbol.Schema

namespace ClangDatabase.Symbol

open Flatbuffers

/-- The identity functions of package `symbol` that src/ does not hold: `ToID` hashes a USR and
`ToFileID` a file name, and `ID.String` and `FileID.String` print the results. -/
structure Identity where
  toID : Bytes → Bytes
  toFileID : Bytes → Bytes
  idString : Bytes → Bytes
  fileIDString : Bytes → Bytes

/-- Go's dereference of a pointer that may be `nil`. -/
def deref {α : Type} : Option α → Except Fault α
  | none => throw .nilDereference
  | some a => pure a

theorem ok_of_bind_ok {ε α β : Type} {x : Except ε α} {f : α → Except ε β} {b : β}
    (h : (x >>= f) = .ok b) : ∃ a, x = .ok a ∧ f a = .ok b := by
  cases x with
  | error e => cases h
  | ok a => exact ⟨a, rfl, h⟩

theorem mapM_ok_forall {ε α β : Type} {g : α → Except ε β} {P : β → Prop}
    (hg : ∀ a b, g a = .ok b → P b) :
    ∀ {xs : List α} {ys : List β}, xs.mapM g = .ok ys → ∀ y ∈ ys, P y
  | [], _, h => by cases h; exact fun _ h => absurd h (List.not_mem_nil _)
  | x :: xs, ys, h => by
    rw [List.mapM_cons] at h
    obtain ⟨b, hb, h⟩ := ok_of_bind_ok h
    obtain ⟨bs, hbs, h⟩ := ok_of_bind_ok h
    cases h
    intro y hy
    rcases List.mem_cons.mp hy with rfl | hy
    · exact hg x y hb
    · exact mapM_ok_forall hg hbs y hy

/-- What `new(symbol.X)` allocates; a generated reader leaves it so when the field is absent. -/
def zeroTable : Table := ⟨[], 0⟩

/-- `time.Time{}.Unix()`: the zero `Time` is January 1 of year 1, UTC. -/
def zeroTimeUnix : BitVec 64 := BitVec.ofInt 64 (-62135596800)

/-- `Location`: the position of a symbol. The field defaults make `{}` Go's `Location{}`. -/
structure Location where
  fileName : Bytes := []
  line : UInt32 := 0
  col : UInt32 := 0
  offset : UInt32 := 0
  usr : Bytes := []
  location : Option Table := none
  deriving DecidableEq

namespace Location

def FileName (l : Location) : Except Fault Bytes :=
  match l.location with
  | none => pure l.fileName
  | some t => Schema.locationFileName t

def Line (l : Location) : Except Fault UInt32 := do Schema.locationLine (← deref l.location)

def Col (l : Location) : Except Fault UInt32 := do Schema.locationCol (← deref l.location)

def Offset (l : Location) : Except Fault UInt32 := do Schema.locationOffset (← deref l.location)

def USR (l : Location) : Except Fault Bytes :=
  match l.location with
  | none => pure l.usr
  | some t => Schema.locationUSR t

def serialize (l : Location) : BuildM Nat := do
  let fname ← createString l.fileName
  let usr ← createString l.usr
  Schema.locationStart
  Schema.locationAddFileName fname
  Schema.locationAddLine l.line
  Schema.locationAddCol l.col
  Schema.locationAddOffset l.offset
  Schema.locationAddUSR usr
  Schema.locationEnd

/-- An operand of `reflect.DeepEqual` in `isExist`, with its dynamic type. -/
inductive Operand where
  | value (l : Location)
  | pointer (l : Location)

/-- `reflect.DeepEqual` on such operands: operands of different types are never deeply equal,
and two pointers are when they point to equal values. -/
def deepEqual : Operand → Operand → Bool
  | .value a, .value b => a == b
  | .pointer a, .pointer b => a == b
  | _, _ => false

/-- `isExist`, whose receiver `l` is a `*Location` compared with the value `Location{}`. -/
def isExist (l : Location) : Bool := !deepEqual (.pointer l) (.value {})

/-- `isExist` as the earlier draft of the file has it, with a value receiver. -/
def isExistByValue (l : Location) : Bool := !deepEqual (.value l) (.value {})

end Location

/-- `CreateLocation(filename, line, col)`: a finished buffer holding one `Location`. -/
def createLocation (filename : Bytes) (line col : UInt32) : Except Fault Builder := do
  let l : Location := { fileName := filename, line := line, col := col }
  let body : BuildM Unit := do
    let fname ← createString l.fileName
    Schema.locationStart
    Schema.locationAddFileName fname
    Schema.locationAddLine l.line
    Schema.locationAddCol l.col
    finish (← Schema.locationEnd)
  return (← body.run newBuilder).2

structure Caller where
  location : Location := {}
  funcCall : Bool := false
  caller : Option Table := none
  deriving DecidableEq

namespace Caller

def FuncCall (c : Caller) : Except Fault Bool := do
  return (← Schema.callerFuncCall (← deref c.caller)) ≠ 0

/-- `c.serialize(builder)`, on a `*Caller` that may be `nil`. -/
def serialize : Option Caller → BuildM Nat
  | none => throw .nilDereference
  | some c => do
    let locOffset ← c.location.serialize
    Schema.callerStart
    Schema.callerAddLocation locOffset
    let funcCall : UInt8 := if c.funcCall then 1 else 0
    Schema.callerAddFuncCall funcCall
    Schema.callerEnd

def Location (c : Caller) : Except Fault Location := do
  let obj ← Schema.callerLocation (← deref c.caller)
  return { location := some (obj.getD zeroTable) }

end Caller

/-- `Header`; `mtime` is the `time.Time` as `Unix()` gives it, the only way the code reads it. -/
structure Header where
  fileid : Bytes := []
  mtime : BitVec 64 := zeroTimeUnix
  header : Option Table := none
  deriving DecidableEq

namespace Header

def FileID (I : Identity) (h : Header) : Except Fault Bytes := do
  return I.toFileID (← Schema.headerFileID (← deref h.header))

def Mtime (h : Header) : Except Fault (BitVec 64) := do Schema.headerMtime (← deref h.header)

/-- `h.serialize(builder)`, on a `*Header` that may be `nil`. -/
def serialize (I : Identity) : Option Header → BuildM Nat
  | none => throw .nilDereference
  | some h => do
    let fid ← createString (I.fileIDString h.fileid)
    Schema.headerStart
    Schema.headerAddFileID fid
    Schema.headerAddMtime h.mtime
    Schema.headerEnd

end Header

structure Info where
  id : Bytes := []
  decls : List Location := []
  «def» : Location := {}
  callers : List (Option Caller) := []
  info : Option Table := none
  deriving DecidableEq

namespace Info

def ID (I : Identity) (info : Info) : Except Fault Bytes := do
  return I.toID (← Schema.infoID (← deref info.info))

def Decls (info : Info) : Except Fault (List Location) := do
  let t ← deref info.info
  let n ← Schema.infoDeclsLength t
  (List.range n).mapM fun i => do
    let obj ← Schema.infoDecls t i
    return match obj with
      | some o => { location := some o }
      | none => {}

def Def (info : Info) : Except Fault Location := do
  let obj ← Schema.infoDef (← deref info.info)
  return { location := some (obj.getD zeroTable) }

def Callers (info : Info) : Except Fault (List (Option Caller)) := do
  let t ← deref info.info
  let n ← Schema.infoCallersLength t
  (List.range n).mapM fun i => do
    let obj ← Schema.infoCallers t i
    return obj.map fun o => { caller := some o }

def serialize (I : Identity) (info : Info) : BuildM Nat := do
  let id ← createString (I.idString info.id)
  let declVecOffset ← (if 0 < info.decls.length then do
      let declsOffsets ← info.decls.mapM Location.serialize
      prependVector Schema.infoStartDeclsVector declsOffsets
    else pure 0)
  let defOffset ← info.def.serialize
  let callerVecOffset ← (if 0 < info.callers.length then do
      let callersOffsets ← info.callers.mapM Caller.serialize
      prependVector Schema.infoStartCallersVector callersOffsets
    else pure 0)
  Schema.infoStart
  Schema.infoAddID id
  Schema.infoAddDecls declVecOffset
  Schema.infoAddDef defOffset
  Schema.infoAddCallers callerVecOffset
  Schema.infoEnd

end Info

end ClangDatabase.Symbol
