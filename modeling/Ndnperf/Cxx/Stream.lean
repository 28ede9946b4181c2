import Ndnperf.Ndn.Name

namespace Ndnperf.Cxx

open Ndn

/-- What opening a path for reading finds. `special` stands for directories and
the like: they open and report some end offset, but no byte can be read. -/
inductive Node where
  | regular (content : Bytes)
  | special (endOffset : Int)
deriving DecidableEq, Repr

def Node.endOffset : Node → Int
  | .regular content => content.length
  | .special endOffset => endOffset

def Node.readAt (position count : Nat) : Node → Bytes
  | .regular content => (content.drop position).take count
  | .special _ => []

/-- The file system at one moment; `none` where opening the path fails. -/
abbrev FileSystem := Bytes → Option Node

/-- `std::ifstream`: the open file, the read position and the stream state. -/
structure IfStream where
  node : Option Node
  position : Nat
  eofbit : Bool
  failbit : Bool
  badbit : Bool
  gcount : Nat
deriving DecidableEq, Repr

namespace IfStream

def closed : IfStream :=
  { node := none, position := 0, eofbit := false, failbit := false, badbit := false, gcount := 0 }

def isOpen (stream : IfStream) : Bool := stream.node.isSome

def good (stream : IfStream) : Bool := !(stream.eofbit || stream.failbit || stream.badbit)

/-- `open(path, in | binary | ate)`: success clears the stream state and
positions the stream at the end of the file. -/
def openAtEnd (stream : IfStream) (fileSystem : FileSystem) (path : Bytes) : IfStream :=
  match stream.node, fileSystem path with
  | none, some node =>
      { stream with
        node := some node
        position := node.endOffset.toNat
        eofbit := false
        failbit := false
        badbit := false }
  | _, _ => { stream with failbit := true }

def close (stream : IfStream) : IfStream :=
  match stream.node with
  | some _ => { stream with node := none }
  | none => { stream with failbit := true }

def tellg (stream : IfStream) : Int := if stream.failbit || stream.badbit then -1 else stream.position

/-- `seekg(offset, beg)`: the system call refuses a negative offset. -/
def seekg (stream : IfStream) (offset : Int) : IfStream :=
  let cleared := { stream with eofbit := false }
  if cleared.good ∧ 0 ≤ offset then { cleared with position := offset.toNat }
  else { cleared with failbit := true }

/-- `read(buffer, count)`: the bytes stored in the buffer, and the stream after it. -/
def read (stream : IfStream) (count : Nat) : Bytes × IfStream :=
  match stream.node with
  | some node =>
      if stream.good then
        let bytes := node.readAt stream.position count
        (bytes, { stream with
          position := stream.position + bytes.length
          gcount := bytes.length
          eofbit := decide (bytes.length < count)
          failbit := decide (bytes.length < count) })
      else ([], { stream with gcount := 0, failbit := true })
  | none => ([], { stream with gcount := 0, failbit := true })

variable {stream : IfStream} {fileSystem : FileSystem} {path content : Bytes} {node : Node}

theorem openAtEnd_isOpen (idle : stream.isOpen = false) :
    (stream.openAtEnd fileSystem path).isOpen = (fileSystem path).isSome := by
  have vacant : stream.node = none := by simpa [isOpen] using idle
  cases found : fileSystem path <;> simp [openAtEnd, vacant, found, isOpen]

theorem openAtEnd_some (idle : stream.isOpen = false) (found : fileSystem path = some node) :
    stream.openAtEnd fileSystem path =
      { stream with
        node := some node
        position := node.endOffset.toNat
        eofbit := false
        failbit := false
        badbit := false } := by
  have vacant : stream.node = none := by simpa [isOpen] using idle
  simp [openAtEnd, vacant, found]

theorem close_isOpen : stream.close.isOpen = false := by
  unfold close
  split <;> simp_all [isOpen]

theorem read_gcount (count : Nat) : (stream.read count).2.gcount = (stream.read count).1.length := by
  unfold read
  split <;> [split; skip] <;> rfl

/-- After opening a regular file, a seek and a read deliver the bytes from the
offset on, and nothing at all when the offset is negative or past the end. -/
theorem seek_read_regular (idle : stream.isOpen = false) (found : fileSystem path = some (.regular content))
    (offset : Int) (count : Nat) :
    (((stream.openAtEnd fileSystem path).seekg offset).read count).1 =
      if 0 ≤ offset then (content.drop offset.toNat).take count else [] := by
  rw [openAtEnd_some idle found]
  by_cases forward : 0 ≤ offset <;> simp [seekg, read, good, forward, Node.readAt]

theorem tellg_openAtEnd (idle : stream.isOpen = false) (found : fileSystem path = some (.regular content)) :
    (stream.openAtEnd fileSystem path).tellg = content.length := by
  rw [openAtEnd_some idle found]
  simp [tellg, Node.endOffset]

end IfStream

/-- `std::ofstream` on a local file: what each successful `write` call appended, in order. -/
structure OfStream where
  path : Bytes
  written : List Bytes
  isOpen : Bool
  badbit : Bool
deriving DecidableEq, Repr

namespace OfStream

def closed : OfStream := { path := [], written := [], isOpen := false, badbit := false }

/-- `open(path, out | binary)`, which empties the file; `opens` tells whether the system allows it. -/
def openEmpty (stream : OfStream) (opens : Bool) (path : Bytes) : OfStream :=
  if opens then { stream with path, written := [], isOpen := true } else { stream with badbit := true }

def write (stream : OfStream) (bytes : Bytes) : OfStream :=
  if stream.isOpen then { stream with written := stream.written ++ [bytes] } else { stream with badbit := true }

def close (stream : OfStream) : OfStream := { stream with isOpen := false }

def content (stream : OfStream) : Bytes := stream.written.flatten

@[simp] theorem write_isOpen (stream : OfStream) (bytes : Bytes) : (stream.write bytes).isOpen = stream.isOpen := by
  unfold write
  split <;> rfl

theorem write_written (stream : OfStream) (bytes : Bytes) (opened : stream.isOpen = true) :
    (stream.write bytes).written = stream.written ++ [bytes] := by
  simp only [write, opened, if_true]

end OfStream

end Ndnperf.Cxx
