import ClangDatabase.Symbol.Accessors
import ClangDatabase.Symbol.Unmarshal
import ClangDatabase.Symbol.CompletionRoundTrip
import ClangDatabase.Symbol.HeaderIdentity
