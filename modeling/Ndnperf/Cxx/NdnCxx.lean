import Ndnperf.Library.Wire
import Ndnperf.Ndn.Uri

namespace Ndnperf.Cxx

open Ndn Library

/-- The functions of ndn-cxx that `client.cpp` and `server.cpp` call, with the
documented behaviour they rely on. `toSegment` is `none` where the library
throws because the component is no segment number. -/
structure NdnCxx where
  fromSegment : Nat → Component
  toSegment : Component → Option Nat
  componentToUri : Component → Bytes
  nameToUri : Name → Bytes
  nameOfUri : Bytes → Name
  toSegment_fromSegment : ∀ segment < 2 ^ 64, toSegment (fromSegment segment) = some segment
  componentToUri_plain : ∀ text, Plain text → componentToUri (.generic text) = text
  nameOfUri_plain : ∀ text, Plain text → nameOfUri text = [.generic text]

namespace NdnCxx

theorem fromSegment_injective (ndn : NdnCxx) {left right : Nat} (leftBound : left < 2 ^ 64)
    (rightBound : right < 2 ^ 64) (same : ndn.fromSegment left = ndn.fromSegment right) : left = right := by
  have decoded := congrArg ndn.toSegment same
  rw [ndn.toSegment_fromSegment left leftBound, ndn.toSegment_fromSegment right rightBound] at decoded
  exact Option.some.inj decoded

end NdnCxx

/-- `ndn::Data`, without the signature: nothing modelled reads it. Content and
final block are empty until they are set. -/
structure Data where
  name : Name
  freshnessPeriod : Nat
  content : Bytes
  finalBlock : Option Component
deriving DecidableEq, Repr

/-! A concrete library that follows the NDN naming conventions: typed segment
components holding a non-negative integer, percent-escaped URIs. -/

namespace Reference

def segmentType : Nat := 50

def fromSegment (segment : Nat) : Component :=
  { type := segmentType, value := Library.Wire.bigEndian (Library.Wire.shortWidth segment) segment }

def toSegment (component : Component) : Option Nat :=
  if component.type = segmentType ∧ component.value.length ∈ [1, 2, 4, 8] then
    some (Library.Wire.ofBigEndian component.value)
  else none

theorem toSegment_fromSegment (segment : Nat) (bound : segment < 2 ^ 64) :
    toSegment (fromSegment segment) = some segment := by
  simp only [toSegment, fromSegment, Library.Wire.bigEndian_length, Library.Wire.shortWidth_cases, and_self, if_true,
    Library.Wire.ofBigEndian_shortWidth bound]

theorem toSegment_lt {component : Component} {segment : Nat} (decoded : toSegment component = some segment) :
    segment < 2 ^ 64 := by
  simp only [toSegment, Option.ite_none_right_eq_some, Option.some.injEq] at decoded
  obtain ⟨⟨_, width⟩, rfl⟩ := decoded
  have bound := Library.Wire.ofBigEndian_lt component.value
  have narrow : component.value.length ≤ 8 := by
    simp only [List.mem_cons, List.not_mem_nil, or_false] at width
    omega
  exact bound.trans_le (Nat.pow_le_pow_right (by decide) narrow)

def writeName (name : Name) : Bytes :=
  if name = [] then [slash] else name.flatMap fun component => slash :: writeComponent unreserved component

/-- Empty texts between slashes make no components. -/
def readPath (path : Bytes) : Name := ((path.splitOn slash).filter (· ≠ [])).map fun text =>
    .generic (Percent.decode text)

theorem readPath_plain (text : Bytes) (plain : Plain text) : readPath text = [.generic text] := by
  obtain ⟨stands, byte, member, _⟩ := plain_iff.mp plain
  have encoded := Percent.encode_kept stands
  have single : slash ∉ text := encoded ▸ slash_notMem_encode escapes_unreserved text
  have decoded : Percent.decode text = text := by
    conv_lhs => rw [← encoded]
    exact Percent.decode_encode escapes_unreserved.percent text
  simp [readPath, List.splitOn_eq_singleton single, List.ne_nil_of_mem member, decoded]

end Reference

def NdnCxx.reference : NdnCxx where
  fromSegment := Reference.fromSegment
  toSegment := Reference.toSegment
  componentToUri := writeComponent unreserved
  nameToUri := Reference.writeName
  nameOfUri := Reference.readPath
  toSegment_fromSegment := Reference.toSegment_fromSegment
  componentToUri_plain := writeComponent_plain
  nameOfUri_plain := Reference.readPath_plain

end Ndnperf.Cxx
