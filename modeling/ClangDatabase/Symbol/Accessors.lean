import ClangDatabase.Symbol.RoundTrip

namespace ClangDatabase.Symbol

open Flatbuffers

section Accessors

variable {I : Identity} {name : Bytes} {flags : List Bytes} {calls : List Call} {f : File}

end Accessors

end ClangDatabase.Symbol
