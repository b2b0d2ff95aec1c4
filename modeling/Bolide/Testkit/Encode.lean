/-
Bolide.Testkit.Encode — the server half of the encodings
(`bolide-testkit/src/encode.rs`, and `Screen` from its `lib.rs`).

Translation notes. A `Screen` carries the length its doc comment promises,
so `pixel` cannot index out of it. Functions that push onto a buffer return
what they push. An `expect`, an index and a checked subtraction panic
through `orPanic`. The tile loops of `ZrleWriter::tiles` visit
`x0 + tileStarts w` and `y0 + tileStarts h`; the `as u16` casts are kept.
-/
import Bolide.Rfb.Zrle

namespace Bolide.Testkit

open Lib Rfb

/-! ## Screens -/

/-- What the fake server shows: `width * height * 4` bytes. -/
structure Screen where
  width : UInt16
  height : UInt16
  rgba : List UInt8
  length_rgba : rgba.length = width.toNat * height.toNat * 4

namespace Screen

/-- A screen of one colour. -/
def solid (width height : UInt16) (c : Rgba) : Screen where
  width := width
  height := height
  rgba := pixelBytes (List.replicate (width.toNat * height.toNat) c)
  length_rgba := by
    rw [length_pixelBytes, List.length_replicate, Nat.mul_comm]

/-- The pixel at `(x, y)`, or `none` off-screen. -/
def pixel (s : Screen) (x y : UInt16) : Option Rgba :=
  if x ≥ s.width ∨ y ≥ s.height then none
  else Rgba.ofBytes? (pixelAt s.rgba s.width.toNat x.toNat y.toNat)

end Screen

/-- `u16::saturating_add`. -/
def satAdd (a b : UInt16) : UInt16 := if a.toNat + b.toNat < 65536 then a + b else 65535

/-- The pixels of a region, row-major, `BLACK` past the edge of the screen. -/
def region (screen : Screen) (x y w h : UInt16) : List Rgba :=
  (List.range h.toNat).flatMap fun row => (List.range w.toNat).map fun col =>
    (screen.pixel (satAdd x (UInt16.ofNat col)) (satAdd y (UInt16.ofNat row))).getD Rfb.black

/-! ## Raw and CopyRect -/

/-- Raw rect payload for a region of `screen`. -/
def rawRect (screen : Screen) (x y w h : UInt16) (fmt : PixelFormat) : List UInt8 :=
  (region screen x y w h).flatMap fun c => fmt.writePixel (fmt.fromRgba c)

/-- CopyRect payload: the source x/y the rect is copied from. -/
def copyRectPayload (srcX srcY : UInt16) : List UInt8 := be16 srcX ++ be16 srcY

/-! ## Pieces of a ZRLE tile -/

/-- `ZrleTiling`. -/
inductive ZrleTiling where
  | auto
  | raw
  | solid
  | packedPalette
  | plainRle
  | paletteRle
  deriving DecidableEq, Repr

/-- The pixel values of one tile, in the client's format, row-major. -/
def tilePixels (screen : Screen) (x y w h : UInt16) (fmt : PixelFormat) : List UInt32 :=
  (region screen x y w h).map fmt.fromRgba

/-- A CPIXEL: the pixel's wire bytes with the padding byte dropped. -/
def writeCpixel (fmt : PixelFormat) (pixel : UInt32) : Outcome (List UInt8) := do
  let wire := fmt.writePixel pixel
  let off := fmt.cpixelOffset
  let room ← orPanic (sub? wire.length off)
  orPanic (slice? wire off (off + min fmt.cpixelBytes room))

def writeCpixels (fmt : PixelFormat) (px : List UInt32) : Outcome (List UInt8) := do
  let pieces ← px.mapM (writeCpixel fmt)
  return pieces.flatten

/-- The loop of `palette_of`. -/
def paletteFrom (palette : List UInt32) : List UInt32 → List UInt32
  | [] => palette
  | p :: px =>
      if p ∈ palette then paletteFrom palette px
      else if (palette ++ [p]).length > 128 then palette ++ [p]
      else paletteFrom (palette ++ [p]) px

/-- Colours in order of first appearance, given up on past 128. -/
def paletteOf (px : List UInt32) : List UInt32 := paletteFrom [] px

/-- One more pixel for a list of runs: the last run grows, or a new one starts. -/
def addToRuns (runs : List (UInt32 × Nat)) (p : UInt32) : List (UInt32 × Nat) :=
  match runs.getLast? with
  | some (v, n) => if v = p then runs.dropLast ++ [(v, n + 1)] else runs ++ [(p, 1)]
  | none => [(p, 1)]

/-- `(value, length)` runs over the tile read as one linear sequence. -/
def runsOf (px : List UInt32) : List (UInt32 × Nat) := px.foldl addToRuns []

/-- Bits per packed index for a palette of `n`. -/
def indexBits (n : Nat) : Option Nat :=
  if n = 2 then some 1
  else if 3 ≤ n ∧ n ≤ 4 then some 2
  else if 5 ≤ n ∧ n ≤ 16 then some 4
  else none

/-- The loop of `write_run_length`. -/
def runLengthBytes (n : Nat) : List UInt8 :=
  if n ≥ 255 then 255 :: runLengthBytes (n - 255) else [UInt8.ofNat n]

def writeRunLength (len : Nat) : Outcome (List UInt8) := do
  let n ← orPanic (sub? len 1)
  return runLengthBytes n

/-- `palette.iter().position(|&c| c == p).expect("in palette")`. -/
def position (palette : List UInt32) (p : UInt32) : Outcome Nat :=
  orPanic (palette.findIdx? (· == p))

/-- The packed row loop: the byte being filled, and how many of its bits are used. -/
def packRowFrom (palette : List UInt32) (bits : Nat) (acc : UInt8) (used : Nat) :
    List UInt32 → Outcome (List UInt8)
  | [] => do
      if used > 0 then
        -- the tail is padded with zeroes
        let room ← orPanic (sub? 8 used)
        return [acc <<< UInt8.ofNat room]
      else return []
  | p :: row => do
      let idx ← position palette p
      let acc := (acc <<< UInt8.ofNat bits) ||| UInt8.ofNat idx
      if used + bits = 8 then
        let rest ← packRowFrom palette bits 0 0 row
        return acc :: rest
      else packRowFrom palette bits acc (used + bits) row

def packRow (palette : List UInt32) (bits : Nat) (row : List UInt32) : Outcome (List UInt8) :=
  packRowFrom palette bits 0 0 row

/-- `px.chunks(w)`, at most `n` of them. -/
def chunks {α : Type} (w : Nat) : Nat → List α → List (List α)
  | 0, _ => []
  | n + 1, px => if px = [] then [] else px.take w :: chunks w n (px.drop w)

/-- One run of a plain RLE tile. -/
def writePlainRun (fmt : PixelFormat) (run : UInt32 × Nat) : Outcome (List UInt8) := do
  let cs ← writeCpixel fmt run.1
  let ls ← writeRunLength run.2
  return cs ++ ls

/-- One run of a palette RLE tile. -/
def writePaletteRun (palette : List UInt32) (run : UInt32 × Nat) : Outcome (List UInt8) := do
  let idx ← position palette run.1
  if run.2 = 1 then return [UInt8.ofNat idx]
  else
    let ls ← writeRunLength run.2
    return (UInt8.ofNat idx ||| 0x80) :: ls

/-! ## Tiles -/

/-- What a server would pick left to itself. -/
def autoTiling (palette runs pixels : Nat) : ZrleTiling :=
  if palette = 1 then .solid
  else if (indexBits palette).isSome then .packedPalette
  else if palette ≤ 127 then .paletteRle
  else if runs * 2 < pixels then .plainRle
  else .raw

/-- The form spent on a tile: the one asked for if the tile can express it. -/
def chooseTiling (tiling : ZrleTiling) (palette runs pixels : Nat) : ZrleTiling :=
  match tiling with
  | .raw => .raw
  | .plainRle => .plainRle
  | .solid => if palette = 1 then .solid else autoTiling palette runs pixels
  | .packedPalette =>
      if (indexBits palette).isSome then .packedPalette else autoTiling palette runs pixels
  | .paletteRle =>
      if 2 ≤ palette ∧ palette ≤ 127 then .paletteRle else autoTiling palette runs pixels
  | .auto => autoTiling palette runs pixels

/-- Encode one tile, spending `tiling` where the tile allows it. -/
def encodeTile (px : List UInt32) (w : Nat) (tiling : ZrleTiling) (fmt : PixelFormat) :
    Outcome (List UInt8) :=
  let palette := paletteOf px
  let runs := runsOf px
  match chooseTiling tiling palette.length runs.length px.length with
  | .auto | .raw => do
      let cs ← writeCpixels fmt px
      return 0 :: cs
  | .solid => do
      let p ← orPanic palette[0]?
      let cs ← writeCpixel fmt p
      return 1 :: cs
  | .packedPalette => do
      let bits ← orPanic (indexBits palette.length)
      let ps ← writeCpixels fmt palette
      -- `chunks` panics when it is asked for chunks of nothing
      if w = 0 then .error .panic
      else
        let rows ← (chunks w px.length px).mapM (packRow palette bits)
        return UInt8.ofNat palette.length :: (ps ++ rows.flatten)
  | .plainRle => do
      let rs ← runs.mapM (writePlainRun fmt)
      return 128 :: rs.flatten
  | .paletteRle => do
      let ps ← writeCpixels fmt palette
      let rs ← runs.mapM (writePaletteRun palette)
      return (128 + UInt8.ofNat palette.length) :: (ps ++ rs.flatten)

/-- The uncompressed tile stream for a rect: tiles left to right then top to
bottom, clipped at the right and bottom edges. -/
def tiles (screen : Screen) (tiling : ZrleTiling) (x y w h : UInt16) (fmt : PixelFormat) :
    Outcome (List UInt8) := do
  let rows ← (tileStarts h.toNat).mapM fun dy => do
    let th := UInt16.ofNat (min zrleTile (h.toNat - dy))
    let row ← (tileStarts w.toNat).mapM fun dx =>
      let tw := UInt16.ofNat (min zrleTile (w.toNat - dx))
      encodeTile (tilePixels screen (UInt16.ofNat (x.toNat + dx)) (UInt16.ofNat (y.toNat + dy))
        tw th fmt) tw.toNat tiling fmt
    return row.flatten
  return rows.flatten

end Bolide.Testkit
