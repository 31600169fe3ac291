import ClangDatabase.Flatbuffers.Bytes

namespace ClangDatabase.Flatbuffers

/-- A `flatbuffers.Builder`. The buffer grows towards its front: `bytes` is the written part
`Bytes[head:]`, so `Offset()` is its length and an offset names a position from the end. -/
structure Builder where
  bytes : Bytes
  minalign : Nat
  vtable : List Nat
  objectEnd : Nat
  vtables : List Nat
  nested : Bool
  finished : Bool
  deriving DecidableEq

abbrev BuildM := StateT Builder (Except Fault)

def Builder.offset (b : Builder) : Nat := b.bytes.length

/-- `NewBuilder(0)`. -/
def newBuilder : Builder :=
  { bytes := [], minalign := 1, vtable := [], objectEnd := 0, vtables := [], nested := false,
    finished := false }

/-- `growByteBuffer` doubles the capacity from zero and panics on a buffer of 2^30 bytes or more,
so a reservation succeeds exactly when the written part stays below 2^30 bytes. -/
def maxSize : Nat := 2 ^ 30

def offset : BuildM Nat := return (← get).offset

def assertNotNested : BuildM Unit := do
  if (← get).nested then throw .nested

def assertNested : BuildM Unit := do
  unless (← get).nested do throw .notNested

def pad (n : Nat) : BuildM Unit :=
  modify fun b => { b with bytes := List.replicate n 0 ++ b.bytes }

/-- The padding that aligns `size` bytes written after `x`; Go computes `(^x + 1) & (size - 1)`,
which is this for the power-of-two sizes it is called with. -/
def alignPad (size x : Nat) : Nat := (size - x % size) % size

/-- `Prep(size, additionalBytes)`: align the next `size`-byte write that follows
`additionalBytes` more, after reserving room for both. -/
def prep (size additionalBytes : Nat) : BuildM Unit := do
  modify fun b => { b with minalign := max b.minalign size }
  let b ← get
  let alignSize := alignPad size (b.offset + additionalBytes)
  if maxSize ≤ b.offset + alignSize + size + additionalBytes then throw .cannotGrow
  pad alignSize

/-- `PlaceByte`, `PlaceUint16`, `PlaceUint32`, ...: `w` little-endian bytes of `x`, written into
room a `Prep` reserved. -/
def place (w x : Nat) : BuildM Unit :=
  modify fun b => { b with bytes := leBytes w x ++ b.bytes }

def prependByte (x : UInt8) : BuildM Unit := do
  prep 1 0
  place 1 x.toNat

def prependUint32 (x : UInt32) : BuildM Unit := do
  prep 4 0
  place 4 x.toNat

def prependInt64 (x : BitVec 64) : BuildM Unit := do
  prep 8 0
  place 8 x.toNat

def prependVOffsetT (off : Nat) : BuildM Unit := do
  prep 2 0
  place 2 off

/-- `PrependUOffsetT`: a reference to the object at offset `off`, stored relative to itself. -/
def prependUOffsetT (off : Nat) : BuildM Unit := do
  prep 4 0
  let o ← offset
  if off ≤ o then place 4 (o - off + 4) else throw .offsetAbove

def prependSOffsetT (off : Int) : BuildM Unit := do
  prep 4 0
  let o ← offset
  if (off % 2 ^ 32).toNat ≤ o then place 4 ((o - off + 4) % 2 ^ 32).toNat
  else throw .offsetAbove

def startVector (elemSize numElems alignment : Nat) : BuildM Nat := do
  assertNotNested
  modify fun b => { b with nested := true }
  prep 4 (elemSize * numElems)
  prep alignment (elemSize * numElems)
  offset

def endVector (vectorNumElems : Nat) : BuildM Nat := do
  assertNested
  place 4 vectorNumElems
  modify fun b => { b with nested := false }
  offset

def createString (s : Bytes) : BuildM Nat := do
  assertNotNested
  modify fun b => { b with nested := true }
  prep 4 (s.length + 1)
  place 1 0
  modify fun b => { b with bytes := s ++ b.bytes }
  endVector s.length

/-- `CreateByteString` has the body of `CreateString`. -/
def createByteString (s : Bytes) : BuildM Nat := createString s

def startObject (numfields : Nat) : BuildM Unit := do
  assertNotNested
  modify fun b =>
    { b with nested := true, vtable := List.replicate numfields 0, objectEnd := b.offset }

def slot (slotnum : Nat) : BuildM Unit := do
  let b ← get
  if slotnum < b.vtable.length then set { b with vtable := b.vtable.set slotnum b.offset }
  else throw .outOfRange

def prependUOffsetTSlot (o x d : Nat) : BuildM Unit :=
  if x ≠ d then do prependUOffsetT x; slot o else pure ()

def prependUint32Slot (o : Nat) (x d : UInt32) : BuildM Unit :=
  if x ≠ d then do prependUint32 x; slot o else pure ()

def prependInt64Slot (o : Nat) (x d : BitVec 64) : BuildM Unit :=
  if x ≠ d then do prependInt64 x; slot o else pure ()

def prependByteSlot (o : Nat) (x d : UInt8) : BuildM Unit :=
  if x ≠ d then do prependByte x; slot o else pure ()

/-- `vtableEqual`: the stored entries `b`, two bytes each, describe the fields `a` of the object
at offset `objectStart`. -/
def vtableEqual : List Nat → Nat → Bytes → Bool
  | [], _, [] => true
  | a :: as, objectStart, x0 :: x1 :: b =>
    let x := leValue [x0, x1]
    ((x == 0 && a == 0) || (x : Int) == (objectStart : Int) - a) && vtableEqual as objectStart b
  | _, _, _ => false

/-- The search of `WriteVtable` through the stored vtables `vts`, newest first. -/
def findVtable (bytes : Bytes) (vtable : List Nat) (objectOffset : Nat) :
    List Nat → Except Fault (Option Nat)
  | [] => .ok none
  | vt2Offset :: vts => do
    if bytes.length < vt2Offset then throw .outOfRange
    let vt2Start := bytes.length - vt2Offset
    let vt2Len ← getVOffsetT bytes vt2Start
    let vt2 ← slice bytes (vt2Start + 4) (vt2Start + vt2Len)
    if vtableEqual vtable objectOffset vt2 then pure (some vt2Offset)
    else findVtable bytes vtable objectOffset vts

/-- `WriteSOffsetT(b.Bytes[pos:], n)`, with `pos` counted from `head`. -/
def writeSOffsetT (pos : Nat) (n : Int) : BuildM Unit := do
  let b ← get
  if pos + 4 ≤ b.offset then
    set { b with bytes := b.bytes.take pos ++ leBytes 4 (n % 2 ^ 32).toNat ++ b.bytes.drop (pos + 4) }
  else throw .outOfRange

def trimVtable (vtable : List Nat) : List Nat := (vtable.reverse.dropWhile (· == 0)).reverse

/-- The branch of `WriteVtable` that found no equal vtable: write this one before the object and
point the object at it. -/
def writeNewVtable (vtable : List Nat) (objectEnd objectOffset : Nat) : BuildM Unit := do
  vtable.reverse.forM fun off => prependVOffsetT (if off ≠ 0 then objectOffset - off else 0)
  prependVOffsetT (objectOffset - objectEnd)
  prependVOffsetT ((vtable.length + 2) * 2)
  let o ← offset
  writeSOffsetT (o - objectOffset) ((o : Int) - objectOffset)
  modify fun b => { b with vtables := b.vtables ++ [o] }

def reuseVtable (existingVtable objectOffset : Nat) : BuildM Unit := do
  modify fun b => { b with bytes := b.bytes.drop (b.offset - objectOffset) }
  writeSOffsetT 0 ((existingVtable : Int) - objectOffset)

def writeVtable : BuildM Nat := do
  prependSOffsetT 0
  let objectOffset ← offset
  modify fun b => { b with vtable := trimVtable b.vtable }
  let b ← get
  match ← findVtable b.bytes b.vtable objectOffset b.vtables.reverse with
  | none => writeNewVtable b.vtable b.objectEnd objectOffset
  | some existingVtable => reuseVtable existingVtable objectOffset
  modify fun b => { b with vtable := [] }
  return objectOffset

def endObject : BuildM Nat := do
  assertNested
  let n ← writeVtable
  modify fun b => { b with nested := false }
  return n

def finish (rootTable : Nat) : BuildM Unit := do
  assertNotNested
  prep (← get).minalign 4
  prependUOffsetT rootTable
  modify fun b => { b with finished := true }

def finishedBytes : BuildM Bytes := do
  unless (← get).finished do throw .notFinished
  return (← get).bytes

end ClangDatabase.Flatbuffers
