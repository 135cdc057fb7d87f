import TwinRom.Log
import TwinRom.Rom.Binary
import TwinRom.Rom.HexLines
import TwinRom.Rom.JsonText
import TwinRom.Rom.Listing
import TwinRom.Rom.Markers
import TwinRom.Rom.Table

/-!
# Images and files

`Image.render` writes an image in a format and `Image.load` reads one. Every format except the
binary one is a text. A format that always holds full streams does not say how many positions are
in use, so what it gives is trimmed.
-/

namespace TwinRom

/-- The streams of a text in a format. -/
def Format.readText (format : Format) (t : Text) : Except LoadError Streams :=
  match format with
  | .table => Table.read t
  | .markers => Markers.read t
  | .hex => HexLines.read t
  | .json => JsonText.read t
  | .bin | .listing => .error (.notLoadable format)

/-- The streams of a file in a format. -/
def Format.read (format : Format) (bytes : List UInt8) : Except LoadError Streams :=
  match format with
  | .bin => Binary.read bytes
  | format =>
    match Utf8.decode bytes with
    | .ok t => format.readText t
    | .error fault => .error (.notText fault)

/-- Whether files in a format always hold full streams. -/
def Format.isFull : Format → Bool
  | json | bin => true
  | _ => false

namespace Image

/-- An image as a file in a format. -/
def render (x : Image) : Format → List UInt8
  | .table => Utf8.encode (Table.render x)
  | .markers => Utf8.encode (Markers.render x)
  | .hex => Utf8.encode (HexLines.render x)
  | .json => Utf8.encode (JsonText.render x)
  | .bin => Binary.render x
  | .listing => Utf8.encode (Listing.render x)

/-- The image of loaded streams. -/
def ofLoaded (format : Format) (s : Streams) : Image :=
  if format.isFull then (ofStreams s.instructions s.data).trimmed
  else ofStreams s.instructions s.data

/-- The image in a file. -/
def load (format : Format) (bytes : List UInt8) : Except LoadError Image :=
  (format.read bytes).map (ofLoaded format)

/-- The events of `load`: streams that are too long are cut. -/
def loadEvents (format : Format) (bytes : List UInt8) : List Event :=
  match format.read bytes with
  | .ok s =>
    if 256 < s.instructions.length ∨ 256 < s.data.length then
      [.truncated s.instructions.length s.data.length]
    else []
  | .error _ => []

end Image

end TwinRom
