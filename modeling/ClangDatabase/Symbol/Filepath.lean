import ClangDatabase.Flatbuffers.Bytes

namespace ClangDatabase.Filepath

open Flatbuffers

/-- A Go string literal of ASCII characters, as its bytes. -/
def ascii (s : String) : Bytes := s.toList.map fun c => c.toNat.toUInt8

def separator : UInt8 := 47

def dot : UInt8 := 46

/-- Where the loop of `Clean` stands: at the start of a path element, inside an element it is
copying, or on the second dot of a `..` element it has already handled. -/
inductive Scan where
  | element
  | copying
  | skipDot
  deriving DecidableEq

/-- `Clean`'s backtracking over the last element written, for a `..`: the output is kept last
byte first, and the first `dotdot` bytes are never removed. -/
def backtrack (dotdot : Nat) : Bytes → Bytes
  | [] => []
  | c :: rest => if dotdot < rest.length ∧ c ≠ separator then backtrack dotdot rest else rest

/-- The loop of `Clean` over the bytes not yet read, with the output written so far (last byte
first) and the length `dotdot` of the output that `..` may not back up over. -/
def cleanLoop (rooted : Bool) : Scan → Bytes → Bytes → Nat → Bytes
  | _, [], out, _ => out
  | .skipDot, _ :: path, out, dotdot => cleanLoop rooted .element path out dotdot
  | .copying, c :: path, out, dotdot =>
    if c = separator then cleanLoop rooted .element path out dotdot
    else cleanLoop rooted .copying path (c :: out) dotdot
  | .element, c :: path, out, dotdot =>
    if c = separator then cleanLoop rooted .element path out dotdot
    else if c = dot ∧ (path.head? = none ∨ path.head? = some separator) then
      cleanLoop rooted .element path out dotdot
    else if c = dot ∧ path.head? = some dot ∧
        (path.tail.head? = none ∨ path.tail.head? = some separator) then
      if dotdot < out.length then cleanLoop rooted .skipDot path (backtrack dotdot out) dotdot
      else if !rooted then
        let out := dot :: dot :: (if 0 < out.length then separator :: out else out)
        cleanLoop rooted .skipDot path out out.length
      else cleanLoop rooted .skipDot path out dotdot
    else
      let out := if rooted && out.length ≠ 1 || !rooted && out.length ≠ 0 then separator :: out
        else out
      cleanLoop rooted .copying path (c :: out) dotdot

/-- `filepath.Clean`: the shortest path name equivalent to `path` by lexical processing. -/
def clean (path : Bytes) : Bytes :=
  if path = [] then [dot] else
  let out := if path.head? = some separator then cleanLoop true .element path.tail [separator] 1
    else cleanLoop false .element path [] 0
  if out = [] then [dot] else out.reverse

/-- `filepath.Base`: the last element of `path`, trailing separators removed. -/
def base (path : Bytes) : Bytes :=
  if path = [] then [dot] else
  let path := (path.reverse.dropWhile (· == separator)).reverse
  let path := (path.reverse.takeWhile (· != separator)).reverse
  if path = [] then [separator] else path

theorem cleanLoop_copying (rooted : Bool) (path out : Bytes) (dotdot : Nat)
    (h : separator ∉ path) :
    cleanLoop rooted .copying path out dotdot = path.reverse ++ out := by
  induction path generalizing out with
  | nil => rfl
  | cons c path ih =>
    have hc : c ≠ separator := fun e => h (e ▸ List.mem_cons_self _ _)
    rw [cleanLoop, if_neg hc, ih _ fun hm => h (List.mem_cons_of_mem _ hm)]
    simp

theorem clean_element (c : UInt8) (path : Bytes) (hc : c ≠ separator) (hd : c ≠ dot)
    (h : separator ∉ path) : clean (c :: path) = c :: path := by
  simp [clean, cleanLoop, hc, hd, cleanLoop_copying false path [c] 0 h]

theorem separator_not_mem_base (path : Bytes) (h : base path ≠ [separator]) :
    separator ∉ base path := by
  unfold base at h ⊢
  dsimp only at h ⊢
  split_ifs at h ⊢
  · decide
  · exact absurd rfl h
  · intro hm
    simpa using List.mem_takeWhile_imp (List.mem_reverse.mp hm)

example : clean (ascii "a//b/./c/../d/") = ascii "a/b/d" := by decide
example : clean (ascii "/../x") = ascii "/x" := by decide
example : clean (ascii "../a/..") = ascii ".." := by decide
example : base (ascii "include/stdio.h") = ascii "stdio.h" := by decide

end ClangDatabase.Filepath
