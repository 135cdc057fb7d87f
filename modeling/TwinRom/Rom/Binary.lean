import TwinRom.Rom.Image
import TwinRom.Rom.LoadError

/-!
# Binary images

An image as 512 bytes: the instruction bytes, then the data bytes. It can also be written over
the start of something longer (`Binary.overwrite`), one stream at a time and each at its place.
-/

namespace TwinRom.Binary

/-- The bytes of an image. -/
def render (x : Image) : List UInt8 := x.instructions.toList ++ x.data.toList

@[simp] theorem length_render (x : Image) : (render x).length = 512 := by
  simp [render]

/-- Writes bytes at a position. What is there is replaced, and what is too short is filled up
with zeros first. -/
def writeAt (position : Nat) (bytes out : List UInt8) : List UInt8 :=
  (out.rightpad position 0).take position ++ bytes ++ out.drop (position + bytes.length)

/-- Writes an image over the start of `out`. -/
def overwrite (x : Image) (out : List UInt8) : List UInt8 :=
  writeAt 256 x.data.toList (writeAt 0 x.instructions.toList out)

/-- The streams of a file. -/
def read (bytes : List UInt8) : Except LoadError Streams :=
  if bytes.length = 512 then .ok ⟨bytes.take 256, bytes.drop 256⟩
  else .error (.binarySize bytes.length)

end TwinRom.Binary
