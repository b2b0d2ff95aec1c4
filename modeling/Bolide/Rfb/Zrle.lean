/-
Bolide.Rfb.Zrle — the ZRLE tile decoder (`bolide-rfb/src/zrle.rs`).

`decodeTiles` splits an inflated payload into tiles of 64 pixels a side and
decodes each; the inflater that feeds it is `Bolide.Rfb.Inflate`.

Translation notes. The source's `Cursor` is the bytes from its position on:
reading is a `TileM`, a parser over those bytes that can also panic. (Its
`checked_add` guards a position past 2^64, which no slice has.) `px`, the
bytes of a tile under construction, is the list of its pixels, so
`px.len() / 4` is a length. Every index, shift and range copy goes through
an operation that answers out-of-range with a panic. The two `while` loops
over tiles visit `tileStarts`, and the run loops are bounded by the tile's
pixel count, since every run has at least one pixel.
-/
import Bolide.Rfb.Framebuffer
import Bolide.Lib.Recogniser

namespace Bolide.Rfb

open Lib

/-- A computation on the tile bytes that are left. -/
abbrev TileM (α : Type) := Parser UInt8 Stop α

/-! ## The cursor -/

/-- `Cursor::take`. -/
def takeBytes (n : Nat) : TileM (List UInt8) := fun rest =>
  if rest.length < n then
    protocolError s!"ZRLE: tile stream ended {n - rest.length} bytes early"
  else .ok (rest.take n, rest.drop n)

/-- `Cursor::u8`. -/
def takeByte : TileM UInt8 := do
  let bytes ← takeBytes 1
  liftM (orPanic bytes[0]?)

/-! ## CPIXELs, palettes and run lengths -/

/-- The RGBA value of a CPIXEL's bytes: a 3-byte CPIXEL is put back into
the full pixel, zero-filled, before the value is read. -/
def cpixelRgba (fmt : PixelFormat) (bytes : List UInt8) : Outcome Rgba := do
  let cb := fmt.cpixelBytes
  let bpp := fmt.bytesPerPixel
  if cb = bpp then return fmt.toRgba (fmt.readPixel bytes)
  let off := fmt.cpixelOffset
  let wire ← orPanic (splice? (List.replicate bpp 0) off (off + cb) bytes)
  return fmt.toRgba (fmt.readPixel wire)

/-- One CPIXEL. -/
def readCpixel (fmt : PixelFormat) : TileM Rgba := do
  let bytes ← takeBytes fmt.cpixelBytes
  liftM (cpixelRgba fmt bytes)

def readPalette (fmt : PixelFormat) (n : Nat) : TileM (List Rgba) := times (readCpixel fmt) n

/-- The loop of `read_run_length`, from a length so far. -/
def runLengthFrom (len : Nat) : TileM Nat
  | [] => protocolError "ZRLE: tile stream ended 1 bytes early"
  | b :: rest => if b ≠ 0xff then .ok (len + b.toNat, rest) else runLengthFrom (len + b.toNat) rest

/-- Zero or more `0xff`, then one byte below it; the length is their sum plus one. -/
def readRunLength : TileM Nat := runLengthFrom 1

/-- Append `run` copies of `colour`, refusing to overflow the tile. -/
def pushRun (px : List Rgba) (colour : Rgba) (run count : Nat) : Outcome (List Rgba) :=
  if px.length + run > count then
    protocolError s!"ZRLE: a run of {run} overflows a tile of {count} pixels"
  else .ok (px ++ List.replicate run colour)

/-- The `while px.len() < count * 4` loop of both run codings: `entry` reads
one colour and its run. -/
def decodeRuns (entry : TileM (Rgba × Nat)) (count : Nat) : Nat → List Rgba → TileM (List Rgba)
  | 0, px => pure px
  | fuel + 1, px =>
      if px.length < count then do
        let (colour, run) ← entry
        let px ← liftM (pushRun px colour run count)
        decodeRuns entry count fuel px
      else pure px

/-- One entry of a plain RLE tile. -/
def plainEntry (fmt : PixelFormat) : TileM (Rgba × Nat) := do
  let colour ← readCpixel fmt
  let run ← readRunLength
  return (colour, run)

/-- One entry of a palette RLE tile. -/
def paletteEntry (palette : List Rgba) : TileM (Rgba × Nat) := do
  let b ← takeByte
  let (idx, run) ←
    if b &&& 0x80 ≠ 0 then do
      let run ← readRunLength
      pure ((b &&& 0x7f).toNat, run)
    else pure (b.toNat, 1)
  match palette[idx]? with
  | some entry => return (entry, run)
  | none => liftM (protocolError (α := Rgba × Nat)
      s!"ZRLE: RLE palette index {idx} is outside a palette of {palette.length}")

/-! ## Packed palettes -/

/-- The narrowest index field that fits a palette of `n`. -/
def packedBits (n : Nat) : Nat :=
  if n ≤ 2 then 1 else if n ≤ 4 then 2 else 4

/-- `a - b` on `usize`. -/
def sub? (a b : Nat) : Option Nat := if b ≤ a then some (a - b) else none

/-- `b >> shift` on `u8`. -/
def shr? (b : UInt8) (shift : Nat) : Option UInt8 :=
  if shift < 8 then some (b >>> UInt8.ofNat shift) else none

/-- The packed index of column `col` in a row's bytes. -/
def packedIndexAt (bits : Nat) (raw : List UInt8) (col : Nat) : Option Nat := do
  let bit := col * bits
  let room ← sub? 8 bits
  let shift ← sub? room (bit % 8)
  let mask := (((1 : UInt16) <<< UInt16.ofNat bits) - 1).toUInt8
  let byte ← raw[bit / 8]?
  let field ← shr? byte shift
  return (field &&& mask).toNat

/-- The colour of column `col` of a packed row. -/
def packedColumn (palette : List Rgba) (raw : List UInt8) (col : Nat) : Outcome Rgba := do
  let idx ← orPanic (packedIndexAt (packedBits palette.length) raw col)
  match palette[idx]? with
  | some entry => return entry
  | none => protocolError s!"ZRLE: packed index {idx} is outside a palette of {palette.length}"

/-- One row of a packed-palette tile. Every row restarts on a byte boundary. -/
def packedRow (palette : List Rgba) (tw : Nat) : TileM (List Rgba) := do
  let raw ← takeBytes ((tw * packedBits palette.length + 7) / 8)
  liftM ((List.range tw).mapM (packedColumn palette raw))

/-! ## Tiles -/

/-- The pixels of a tile, by its subencoding byte. -/
def decodeBody (fmt : PixelFormat) (tw th : Nat) (sub : UInt8) : TileM (List Rgba) :=
  let count := tw * th
  if sub = 0 then times (readCpixel fmt) count
  else if sub = 1 then do
    let colour ← readCpixel fmt
    pure (List.replicate count colour)
  else if 2 ≤ sub ∧ sub ≤ 16 then do
    let palette ← readPalette fmt sub.toNat
    let rows ← times (packedRow palette tw) th
    pure rows.flatten
  else if sub = 128 then decodeRuns (plainEntry fmt) count count []
  else if 130 ≤ sub then do
    let palette ← readPalette fmt (sub.toNat - 128)
    decodeRuns (paletteEntry palette) count count []
  else liftM (protocolError (α := List Rgba) s!"ZRLE: subencoding {sub} is not a thing")

/-- One tile of `tw` by `th` pixels. -/
def decodeTile (fmt : PixelFormat) (tw th : Nat) : TileM (List Rgba) := do
  let sub ← takeByte
  let px ← decodeBody fmt tw th sub
  if px.length ≠ tw * th then
    liftM (protocolError (α := Unit) s!"ZRLE: tile carried {px.length} of {tw * th} pixels")
  return px

/-- Where the tiles of one axis of length `n` start. -/
def tileStarts (n : Nat) : List Nat :=
  (List.range ((n + (zrleTile - 1)) / zrleTile)).map (· * zrleTile)

/-- Split the inflated bytes into tiles and decode each one; what the tiles
did not use is left over. -/
def decodeTilesFrom (fmt : PixelFormat) (rw rh : Nat) : TileM (List UInt8) :=
  (tileStarts rh).foldlM (fun out ty => do
    let th := min zrleTile (rh - ty)
    (tileStarts rw).foldlM (fun out tx => do
      let tw := min zrleTile (rw - tx)
      let pixels ← decodeTile fmt tw th
      liftM (orPanic (copyRows? 4 out rw tx ty (pixelBytes pixels) tw 0 0 tw th))) out)
    (List.replicate (rw * rh * 4) 0)

/-- `decode_tiles`. -/
def decodeTiles (data : List UInt8) (fmt : PixelFormat) (w h : UInt16) : Outcome (List UInt8) := do
  let (out, _) ← decodeTilesFrom fmt w.toNat h.toNat data
  return out

end Bolide.Rfb
