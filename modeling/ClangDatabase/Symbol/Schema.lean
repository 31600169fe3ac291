import ClangDatabase.Flatbuffers.Field

namespace ClangDatabase.Schema

open Flatbuffers

def fileStart : BuildM Unit := startObject 6
def fileAddName (name : Nat) : BuildM Unit := (Field.uoffset name).add 0
def fileAddFlags (flags : Nat) : BuildM Unit := (Field.uoffset flags).add 1
def fileStartFlagsVector (numElems : Nat) : BuildM Nat := startVector 4 numElems 4
def fileAddTranslationUnit (translationUnit : Nat) : BuildM Unit :=
  (Field.uoffset translationUnit).add 2
def fileAddSymbols (symbols : Nat) : BuildM Unit := (Field.uoffset symbols).add 3
def fileStartSymbolsVector (numElems : Nat) : BuildM Nat := startVector 4 numElems 4
def fileAddHeaders (headers : Nat) : BuildM Unit := (Field.uoffset headers).add 4
def fileStartHeadersVector (numElems : Nat) : BuildM Nat := startVector 4 numElems 4
def fileEnd : BuildM Nat := endObject

def infoStart : BuildM Unit := startObject 4
def infoAddID (id : Nat) : BuildM Unit := (Field.uoffset id).add 0
def infoAddDecls (decls : Nat) : BuildM Unit := (Field.uoffset decls).add 1
def infoStartDeclsVector (numElems : Nat) : BuildM Nat := startVector 4 numElems 4
def infoAddDef (def_ : Nat) : BuildM Unit := (Field.uoffset def_).add 2
def infoAddCallers (callers : Nat) : BuildM Unit := (Field.uoffset callers).add 3
def infoStartCallersVector (numElems : Nat) : BuildM Nat := startVector 4 numElems 4
def infoEnd : BuildM Nat := endObject

def headerStart : BuildM Unit := startObject 2
def headerAddFileID (fileID : Nat) : BuildM Unit := (Field.uoffset fileID).add 0
def headerAddMtime (mtime : BitVec 64) : BuildM Unit := (Field.int64 mtime).add 1
def headerEnd : BuildM Nat := endObject

def callerStart : BuildM Unit := startObject 2
def callerAddLocation (location : Nat) : BuildM Unit := (Field.uoffset location).add 0
def callerAddFuncCall (funcCall : UInt8) : BuildM Unit := (Field.byte funcCall).add 1
def callerEnd : BuildM Nat := endObject

def locationStart : BuildM Unit := startObject 5
def locationAddFileName (fileName : Nat) : BuildM Unit := (Field.uoffset fileName).add 0
def locationAddLine (line : UInt32) : BuildM Unit := (Field.uint32 line).add 1
def locationAddCol (col : UInt32) : BuildM Unit := (Field.uint32 col).add 2
def locationAddOffset (offset : UInt32) : BuildM Unit := (Field.uint32 offset).add 3
def locationAddUSR (usr : Nat) : BuildM Unit := (Field.uoffset usr).add 4
def locationEnd : BuildM Nat := endObject

def completeItemStart : BuildM Unit := startObject 7
def completeItemAddWord (word : Nat) : BuildM Unit := (Field.uoffset word).add 0
def completeItemAddAbbr (abbr : Nat) : BuildM Unit := (Field.uoffset abbr).add 1
def completeItemAddMenu (menu : Nat) : BuildM Unit := (Field.uoffset menu).add 2
def completeItemAddInfo (info : Nat) : BuildM Unit := (Field.uoffset info).add 3
def completeItemAddKind (kind : Nat) : BuildM Unit := (Field.uoffset kind).add 4
def completeItemAddIcase (icase : UInt8) : BuildM Unit := (Field.byte icase).add 5
def completeItemAddDup (dup : UInt8) : BuildM Unit := (Field.byte dup).add 6
def completeItemEnd : BuildM Nat := endObject

def codeCompleteResultsStart : BuildM Unit := startObject 1
def codeCompleteResultsAddResults (results : Nat) : BuildM Unit := (Field.uoffset results).add 0
def codeCompleteResultsStartResultsVector (numElems : Nat) : BuildM Nat := startVector 4 numElems 4
def codeCompleteResultsEnd : BuildM Nat := endObject

def getRootAsFile (buf : Bytes) (offset : Nat) : Except Fault Table := getRoot buf offset
def fileName (t : Table) : Except Fault Bytes := t.readString 4
def fileFlagsLength (t : Table) : Except Fault Nat := t.readVectorLen 6
def fileFlags (t : Table) (j : Nat) : Except Fault Bytes := t.readStringAt 6 j
def fileTranslationUnit (t : Table) : Except Fault Bytes := t.readString 8
def fileSymbolsLength (t : Table) : Except Fault Nat := t.readVectorLen 10
def fileSymbols (t : Table) (j : Nat) : Except Fault (Option Table) := t.readTableAt 10 j
def fileHeadersLength (t : Table) : Except Fault Nat := t.readVectorLen 12
def fileHeaders (t : Table) (j : Nat) : Except Fault (Option Table) := t.readTableAt 12 j

def infoID (t : Table) : Except Fault Bytes := t.readString 4
def infoDeclsLength (t : Table) : Except Fault Nat := t.readVectorLen 6
def infoDecls (t : Table) (j : Nat) : Except Fault (Option Table) := t.readTableAt 6 j
def infoDef (t : Table) : Except Fault (Option Table) := t.readTable 8
def infoCallersLength (t : Table) : Except Fault Nat := t.readVectorLen 10
def infoCallers (t : Table) (j : Nat) : Except Fault (Option Table) := t.readTableAt 10 j

def headerFileID (t : Table) : Except Fault Bytes := t.readString 4
def headerMtime (t : Table) : Except Fault (BitVec 64) := t.readInt64 6

def callerLocation (t : Table) : Except Fault (Option Table) := t.readTable 4
def callerFuncCall (t : Table) : Except Fault UInt8 := t.readByte 6

def getRootAsLocation (buf : Bytes) (offset : Nat) : Except Fault Table := getRoot buf offset
def locationFileName (t : Table) : Except Fault Bytes := t.readString 4
def locationLine (t : Table) : Except Fault UInt32 := t.readUint32 6
def locationCol (t : Table) : Except Fault UInt32 := t.readUint32 8
def locationOffset (t : Table) : Except Fault UInt32 := t.readUint32 10
def locationUSR (t : Table) : Except Fault Bytes := t.readString 12

def completeItemWord (t : Table) : Except Fault Bytes := t.readString 4
def completeItemAbbr (t : Table) : Except Fault Bytes := t.readString 6
def completeItemMenu (t : Table) : Except Fault Bytes := t.readString 8
def completeItemInfo (t : Table) : Except Fault Bytes := t.readString 10
def completeItemKind (t : Table) : Except Fault Bytes := t.readString 12
def completeItemIcase (t : Table) : Except Fault UInt8 := t.readByte 14
def completeItemDup (t : Table) : Except Fault UInt8 := t.readByte 16

def getRootAsCodeCompleteResults (buf : Bytes) (offset : Nat) : Except Fault Table :=
  getRoot buf offset
def codeCompleteResultsResultsLength (t : Table) : Except Fault Nat := t.readVectorLen 4
def codeCompleteResultsResults (t : Table) (j : Nat) : Except Fault (Option Table) :=
  t.readTableAt 4 j

end ClangDatabase.Schema
