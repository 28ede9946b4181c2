import Mathlib.Data.List.AList
import Ndnperf.Ndn.Name
import Ndnperf.Java.Text

namespace Ndnperf.Java

open Ndn

/-- A `FileChannel` of a `RandomAccessFile` in mode "rw": the content of the
file and the position of the next write. -/
structure Channel where
  content : Bytes
  position : Nat
  isOpen : Bool

namespace Channel

/-- Opening keeps what the file holds; an absent file is created empty. -/
def openFile (existing : Option Bytes) : Channel where
  content := existing.getD []
  position := 0
  isOpen := true

/-- Writing replaces what is there; a gap before the position is filled with zeros. -/
def write (channel : Channel) (bytes : Bytes) : Channel :=
  if channel.isOpen then
    { channel with
      content := channel.content.take channel.position ++
        List.replicate (channel.position - channel.content.length) 0 ++ bytes ++
        channel.content.drop (channel.position + bytes.length)
      position := channel.position + bytes.length }
  else channel

def close (channel : Channel) : Channel := { channel with isOpen := false }

/-- A channel that has written `bytes` from the start over what the file held before. -/
structure Wrote (existing bytes : Bytes) (channel : Channel) : Prop where
  content : channel.content = bytes ++ existing.drop bytes.length
  position : channel.position = bytes.length

variable {existing bytes more : Bytes} {channel : Channel}

theorem wrote_openFile (existing : Option Bytes) : Wrote (existing.getD []) [] (openFile existing) := ⟨rfl, rfl⟩

theorem Wrote.write (wrote : Wrote existing bytes channel) (opened : channel.isOpen = true) :
    Wrote existing (bytes ++ more) (channel.write more) := by
  obtain ⟨content, position⟩ := wrote
  have gap : channel.position - channel.content.length = 0 := by
    rw [content, position, List.length_append]
    omega
  have kept : channel.content.take channel.position = bytes := by rw [content, position, List.take_left]
  have rest : channel.content.drop (channel.position + more.length) = existing.drop (bytes.length + more.length) := by
    rw [content, position, List.drop_append, List.drop_eq_nil_of_le (by omega), List.nil_append, List.drop_drop]
    congr 1
    omega
  constructor
  · simp only [Channel.write, opened, if_true, gap, kept, rest, List.replicate_zero, List.append_nil,
      List.length_append]
  · simp only [Channel.write, opened, if_true, position, List.length_append]

theorem Wrote.close (wrote : Wrote existing bytes channel) : Wrote existing bytes channel.close :=
  ⟨wrote.content, wrote.position⟩

end Channel

structure PendingFile where
  segments : AList fun _ : Int => Bytes
  channel : Channel
  maxSegment : Int
  position : Nat

namespace PendingFile

def new (existing : Option Bytes) (maxSegment : Int) : PendingFile where
  segments := ∅
  channel := .openFile existing
  maxSegment
  position := 0

def put (file : PendingFile) (segment : Int) (content : Bytes) : PendingFile :=
  { file with segments := file.segments.insert segment content }

/-- `get(position)` -/
def current (file : PendingFile) : Option Bytes := file.segments.lookup (file.position : Int)

/-- `remove(position++)` -/
def advance (file : PendingFile) : PendingFile :=
  { file with segments := file.segments.erase (file.position : Int), position := file.position + 1 }

def write (file : PendingFile) (content : Bytes) : PendingFile := { file with channel := file.channel.write content }

def close (file : PendingFile) : PendingFile := { file with channel := file.channel.close }

def isPending (file : PendingFile) : Bool := file.position < file.maxSegment

end PendingFile

end Ndnperf.Java
