import Ndnperf.Library.Word
import Ndnperf.Library.Wire
import Ndnperf.Ndn.Name
import Ndnperf.Java.Text

namespace Ndnperf.Java

open Ndn Library.Word

/-- The functions of jNDN and of `java.lang.String` that the Java programs call,
with the documented behaviour of segment components. `toSegment` is `none`
where the library throws an `EncodingException`. `nameOfUri` is the constructor
`new Name(uri)`, which is assumed to throw for no text. -/
structure Jndn where
  toUri : Name → Text
  nameOfUri : Text → Name
  toEscapedString : Component → Text
  fromSegment : Int → Component
  toSegment : Component → Option Int
  /-- `getBytes` and the constructor of `String` from bytes, in the default charset. -/
  getBytes : Text → Bytes
  ofBytes : Bytes → Text
  /-- The bytes a `Blob` makes of a string, and the string a `Blob` makes of its bytes. -/
  blob : Text → Bytes
  blobText : Bytes → Text
  toSegment_fromSegment : ∀ segment, 0 ≤ segment → segment < 2 ^ 63 → toSegment (fromSegment segment) = some segment
  blobText_blob : ∀ text : Text, (∀ letter ∈ text, letter.toNat < 128) → blobText (blob text) = text

/-- A `double`, as its 64-bit pattern. -/
structure Double where
  bits : UInt64
deriving DecidableEq, Repr

namespace Double

/-- The `double` equal to an `int`. -/
def ofInt (value : Int) : Double :=
  let magnitude := value.natAbs
  let exponent := magnitude.log2
  if magnitude = 0 then ⟨0⟩
  else ⟨UInt64.ofNat ((if value < 0 then 2 ^ 63 else 0) + (exponent + 1023) * 2 ^ 52 +
    (magnitude * 2 ^ (52 - exponent) - 2 ^ 52))⟩

/-- `value >= 0.0`: positive, infinite included, or a zero of either sign. -/
def nonNegative (value : Double) : Bool := value.bits.toNat ≤ 2047 * 2 ^ 52 || value.bits.toNat == 2 ^ 63

end Double

/-- A `Data` packet with the parts of its `SignatureInfo` that differ between
packets. A `Blob` without buffer is `none`. -/
structure Data where
  name : Name
  freshnessPeriod : Double
  content : Option Bytes
  keyLocator : Option Name
  signatureBits : Option Bytes
deriving DecidableEq, Repr

/-- `new Data()` -/
def Data.fresh : Data where
  name := []
  freshnessPeriod := Double.ofInt (-1)
  content := none
  keyLocator := none
  signatureBits := none

/-- A name survives the conversion to its URI, and the URI the default charset. -/
structure Jndn.Lossless (jndn : Jndn) (name : Name) : Prop where
  uri : jndn.nameOfUri (jndn.toUri name) = name
  charset : jndn.ofBytes (jndn.getBytes (jndn.toUri name)) = jndn.toUri name

/-! A concrete library: segment components start with a zero marker, plain URIs. -/

namespace Reference

def fromSegment (segment : Int) : Component :=
  .generic (0 :: Library.Wire.bigEndian (Library.Wire.shortWidth segment.toNat) segment.toNat)

def toSegment (component : Component) : Option Int :=
  match component.value with
  | 0 :: digits => some (int64 (Library.Wire.ofBigEndian digits))
  | _ => none

theorem toSegment_fromSegment (segment : Int) (nonnegative : 0 ≤ segment) (bound : segment < 2 ^ 63) :
    toSegment (fromSegment segment) = some segment := by
  simp only [toSegment, fromSegment, Component.generic, Option.some.injEq]
  rw [Library.Wire.ofBigEndian_shortWidth (by omega), int64_of_bounds (by omega) (by omega)]
  omega

def latin (text : Text) : Bytes := text.map fun letter => UInt8.ofNat letter.toNat

def ofLatin (bytes : Bytes) : Text := bytes.map fun byte => Char.ofNat byte.toNat

theorem ofLatin_latin (text : Text) (basic : ∀ letter ∈ text, letter.toNat < 128) : ofLatin (latin text) = text := by
  rw [ofLatin, latin, List.map_map]
  refine (List.map_congr_left fun letter member => ?_).trans (List.map_id text)
  have small := basic letter member
  have byte : (UInt8.ofNat letter.toNat).toNat = letter.toNat := by
    rw [UInt8.toNat_ofNat']
    omega
  simp [byte]

theorem latin_ofLatin (bytes : Bytes) : latin (ofLatin bytes) = bytes := by
  have table : ∀ code : Fin 256, UInt8.ofNat (Char.ofNat (UInt8.ofNat code).toNat).toNat = UInt8.ofNat code := by
    decide +kernel
  rw [latin, ofLatin, List.map_map]
  refine (List.map_congr_left fun byte _ => ?_).trans (List.map_id bytes)
  simpa using table ⟨byte.toNat, byte.toNat_lt⟩

def toUri (name : Name) : Text := name.flatMap fun component => '/' :: ofLatin component.value

def nameOfUri (uri : Text) : Name := (uri.splitOn '/').tail.map fun text => .generic (latin text)

end Reference

def Jndn.reference : Jndn where
  toUri := Reference.toUri
  nameOfUri := Reference.nameOfUri
  toEscapedString component := Reference.ofLatin component.value
  fromSegment := Reference.fromSegment
  toSegment := Reference.toSegment
  getBytes := Reference.latin
  ofBytes := Reference.ofLatin
  blob := Reference.latin
  blobText := Reference.ofLatin
  toSegment_fromSegment := Reference.toSegment_fromSegment
  blobText_blob := Reference.ofLatin_latin

end Ndnperf.Java
