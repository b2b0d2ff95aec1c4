/-
Bolide.Rfb.Proto — the RFB wire as data (`bolide-rfb/src/proto.rs`).

Versions, security types, message and encoding numbers, the pixel format
with its codec, and the fixed client messages. Nothing here has state.

Translation notes. A `u16` or `u32` that is only compared or used as a size
is a `UInt16`, `UInt32` or its `Nat` value; a pixel value is a `UInt32` and
every operation on it is the wrapping one. A shift of a `u32` by a `u8`
masks the amount to five bits, as Rust does in a release build (a debug
build panics when the amount is 32 or more). `write_pixel` pushes onto its
argument in the source and returns the pushed bytes here.
-/
import Bolide.Rfb.Error

namespace Bolide.Rfb

open Lib

/-! ## Version handshake -/

/-- The bytes of an ASCII literal. -/
def ascii (s : String) : List UInt8 := s.toList.map (fun c => UInt8.ofNat c.toNat)

def version3_8 : List UInt8 := ascii "RFB 003.008\n"
def version3_3 : List UInt8 := ascii "RFB 003.003\n"
def version3_7 : List UInt8 := ascii "RFB 003.007\n"

/-- The value of a string of decimal digits. -/
def decimal (bs : List UInt8) : Option Nat :=
  bs.foldl (fun acc b => do
    let v ← acc
    if 48 ≤ b ∧ b ≤ 57 then some (v * 10 + (b.toNat - 48)) else none) (some 0)

/-- `str::parse::<u32>`: digits, at least one, after an optional `+`. -/
def parseU32 (bs : List UInt8) : Option Nat := do
  let digits := match bs with
    | 43 :: rest => rest
    | _ => bs
  if digits = [] then none
  let v ← decimal digits
  if v < 2 ^ 32 then some v else none

/-- Parse a 12-byte ProtocolVersion banner into `(major, minor)`. -/
def parseVersion (banner : List UInt8) : Option (Nat × Nat) := do
  if banner.length ≠ 12 ∨ banner.take 4 ≠ ascii "RFB " ∨ banner[11]? ≠ some 10 then none
  let major ← parseU32 ((banner.drop 4).take 3)
  let minor ← parseU32 ((banner.drop 8).take 3)
  if banner[7]? ≠ some 46 then none
  some (major, minor)

/-! ## Security types -/

def securityNone : UInt8 := 1
def securityVncAuth : UInt8 := 2
def securityArd : UInt8 := 30
def securityResultOk : UInt32 := 0

/-! ## Message types and encodings -/

namespace ClientMsg
def setPixelFormat : UInt8 := 0
def setEncodings : UInt8 := 2
def framebufferUpdateRequest : UInt8 := 3
def keyEvent : UInt8 := 4
def pointerEvent : UInt8 := 5
def clientCutText : UInt8 := 6
end ClientMsg

namespace ServerMsg
def framebufferUpdate : UInt8 := 0
def setColourMapEntries : UInt8 := 1
def bell : UInt8 := 2
def serverCutText : UInt8 := 3
end ServerMsg

def encRaw : Int32 := 0
def encCopyRect : Int32 := 1
def encZrle : Int32 := 16
def encDesktopSize : Int32 := -223

/-- ZRLE's tile edge. -/
def zrleTile : Nat := 64

def advertisedEncodings : List Int32 := [encZrle, encCopyRect, encRaw, encDesktopSize]

/-! ## Pixels -/

/-- An RGBA8888 pixel, `[u8; 4]`. -/
structure Rgba where
  r : UInt8
  g : UInt8
  b : UInt8
  a : UInt8
  deriving DecidableEq, Repr

/-- The four bytes of a pixel, as a framebuffer holds them. -/
def Rgba.bytes (c : Rgba) : List UInt8 := [c.r, c.g, c.b, c.a]

/-- `[0, 0, 0, 255]`. -/
def black : Rgba := ⟨0, 0, 0, 255⟩

@[simp] theorem Rgba.length_bytes (c : Rgba) : c.bytes.length = 4 := rfl

/-- The 16-byte PIXEL_FORMAT block. -/
structure PixelFormat where
  bitsPerPixel : UInt8
  depth : UInt8
  bigEndian : Bool
  trueColour : Bool
  redMax : UInt16
  greenMax : UInt16
  blueMax : UInt16
  redShift : UInt8
  greenShift : UInt8
  blueShift : UInt8
  deriving DecidableEq, Repr

namespace PixelFormat

/-- What bolide asks every server for: 32bpp, little-endian, R,G,B,X. -/
def rgbx32 : PixelFormat where
  bitsPerPixel := 32
  depth := 24
  bigEndian := false
  trueColour := true
  redMax := 255
  greenMax := 255
  blueMax := 255
  redShift := 0
  greenShift := 8
  blueShift := 16

/-- Bytes on the wire per pixel. -/
def bytesPerPixel (f : PixelFormat) : Nat := (f.bitsPerPixel.toNat + 7) / 8

/-- The CPIXEL width in bytes. -/
def cpixelBytes (f : PixelFormat) : Nat :=
  let maxShift := max (max f.redShift f.greenShift) f.blueShift
  let minShift := min (min f.redShift f.greenShift) f.blueShift
  if f.bitsPerPixel = 32 ∧ f.depth ≤ 24 ∧ f.trueColour = true then
    if maxShift ≤ 23 ∨ minShift ≥ 8 then 3 else f.bytesPerPixel
  else f.bytesPerPixel

/-- True when a CPIXEL drops the most significant byte. -/
def cpixelDropsHighByte (f : PixelFormat) : Bool :=
  max (max f.redShift f.greenShift) f.blueShift ≤ 23

/-- Index of the first CPIXEL byte inside the full pixel's wire bytes. -/
def cpixelOffset (f : PixelFormat) : Nat :=
  if f.cpixelBytes = f.bytesPerPixel then 0
  else match f.bigEndian, f.cpixelDropsHighByte with
    | false, true => 0
    | false, false => 1
    | true, true => 1
    | true, false => 0

/-- Encode as the 16-byte wire block, 3 trailing padding bytes included. -/
def encode (f : PixelFormat) : List UInt8 :=
  [f.bitsPerPixel, f.depth, if f.bigEndian then 1 else 0, if f.trueColour then 1 else 0] ++
    be16 f.redMax ++ be16 f.greenMax ++ be16 f.blueMax ++
    [f.redShift, f.greenShift, f.blueShift, 0, 0, 0]

@[simp] theorem length_encode (f : PixelFormat) : f.encode.length = 16 := by
  simp [encode]

/-- Decode a 16-byte wire block. -/
def decode (b : List UInt8) : PixelFormat where
  bitsPerPixel := b.getD 0 0
  depth := b.getD 1 0
  bigEndian := b.getD 2 0 ≠ 0
  trueColour := b.getD 3 0 ≠ 0
  redMax := ofBe16 ((b.drop 4).take 2)
  greenMax := ofBe16 ((b.drop 6).take 2)
  blueMax := ofBe16 ((b.drop 8).take 2)
  redShift := b.getD 10 0
  greenShift := b.getD 11 0
  blueShift := b.getD 12 0

/-- Assemble wire bytes into the pixel's numeric value. -/
def readPixel (f : PixelFormat) (wire : List UInt8) : UInt32 :=
  let bytes := wire.take (min f.bytesPerPixel 4)
  let ordered := if f.bigEndian then bytes else bytes.reverse
  ordered.foldl (fun v byte => (v <<< 8) ||| byte.toUInt32) 0

/-- The wire bytes of a pixel value. -/
def writePixel (f : PixelFormat) (pixel : UInt32) : List UInt8 :=
  let low := (List.range (min f.bytesPerPixel 4)).map
    (fun i => (pixel >>> UInt32.ofNat (8 * i)).toUInt8)
  if f.bigEndian then low.reverse else low

/-- A channel's raw value to 0..=255. -/
def scale (raw : UInt32) (max : UInt16) : UInt8 :=
  if max = 0 then 0
  else
    let v := raw &&& max.toUInt32
    if max = 255 then v.toUInt8
    else ((v * 255 + max.toUInt32 / 2) / max.toUInt32).toUInt8

/-- 0..=255 to a channel's raw value. -/
def unscale (v : UInt8) (max : UInt16) : UInt32 :=
  if max = 0 then 0
  else if max = 255 then v.toUInt32
  else ((v.toUInt32 * max.toUInt32 + 127) / 255) &&& max.toUInt32

/-- One pixel value to RGBA; alpha is always 255. -/
def toRgba (f : PixelFormat) (pixel : UInt32) : Rgba where
  r := scale (pixel >>> f.redShift.toUInt32) f.redMax
  g := scale (pixel >>> f.greenShift.toUInt32) f.greenMax
  b := scale (pixel >>> f.blueShift.toUInt32) f.blueMax
  a := 255

/-- RGBA to one pixel value. -/
def fromRgba (f : PixelFormat) (c : Rgba) : UInt32 :=
  (unscale c.r f.redMax <<< f.redShift.toUInt32) |||
    (unscale c.g f.greenMax <<< f.greenShift.toUInt32) |||
    (unscale c.b f.blueMax <<< f.blueShift.toUInt32)

@[simp] theorem toRgba_a (f : PixelFormat) (p : UInt32) : (f.toRgba p).a = 255 := rfl

/-- A written pixel has `bytes_per_pixel` bytes, four at most. -/
@[simp] theorem length_writePixel (f : PixelFormat) (p : UInt32) :
    (f.writePixel p).length = min f.bytesPerPixel 4 := by
  unfold writePixel
  split <;> simp

end PixelFormat

/-! ## Client messages -/

/-- SetPixelFormat (message 0). -/
def setPixelFormat (f : PixelFormat) : List UInt8 :=
  [ClientMsg.setPixelFormat, 0, 0, 0] ++ f.encode

/-- SetEncodings (message 2). -/
def setEncodings (encodings : List Int32) : List UInt8 :=
  [ClientMsg.setEncodings, 0] ++ be16 (UInt16.ofNat encodings.length) ++ encodings.flatMap beI32

/-- FramebufferUpdateRequest (message 3). -/
def framebufferUpdateRequest (incremental : Bool) (x y width height : UInt16) : List UInt8 :=
  [ClientMsg.framebufferUpdateRequest, if incremental then 1 else 0] ++
    be16 x ++ be16 y ++ be16 width ++ be16 height

/-- KeyEvent (message 4). -/
def keyEvent (keysym : UInt32) (down : Bool) : List UInt8 :=
  [ClientMsg.keyEvent, if down then 1 else 0, 0, 0] ++ be32 keysym

/-- PointerEvent (message 5). -/
def pointerEvent (x y : UInt16) (buttons : UInt8) : List UInt8 :=
  [ClientMsg.pointerEvent, buttons] ++ be16 x ++ be16 y

/-! ## Latin-1 -/

/-- The latin-1 lowering: CR stripped, what is past U+00FF becomes `?`. -/
def toLatin1 (text : String) : List UInt8 :=
  (text.toList.filter (fun c => c ≠ '\r')).map
    (fun c => if c.toNat < 0x100 then UInt8.ofNat c.toNat else 63)

/-- ClientCutText (message 6). -/
def clientCutText (text : String) : List UInt8 :=
  let latin1 := toLatin1 text
  [ClientMsg.clientCutText, 0, 0, 0] ++ be32 (UInt32.ofNat latin1.length) ++ latin1

/-- The latin-1 lifting applied to ServerCutText. -/
def fromLatin1 (bytes : List UInt8) : String :=
  String.ofList (bytes.map (fun b => Char.ofNat b.toNat))

/-! ## VNC authentication -/

/-- The DES block cipher the client calls: a block keeps its length. -/
structure Des where
  encryptBlock : List UInt8 → List UInt8 → List UInt8
  length_encryptBlock : ∀ key block, (encryptBlock key block).length = block.length

/-- `u8::reverse_bits`. -/
def reverseBits (b : UInt8) : UInt8 := UInt8.ofBitVec b.toBitVec.reverse

/-- The DES-challenge response for security type 2: two ECB blocks under the
password's bytes with their bits reversed, cut or zero-padded to eight. -/
def vncAuthResponse (des : Des) (password : String) (challenge : List UInt8) : List UInt8 :=
  let bits := (password.toUTF8.toList.take 8).map reverseBits
  let key := bits ++ List.replicate (8 - bits.length) 0
  des.encryptBlock key (challenge.take 8) ++ des.encryptBlock key (challenge.drop 8)

/-- The response is as long as the challenge. -/
theorem length_vncAuthResponse (des : Des) (password : String) (challenge : List UInt8) :
    (vncAuthResponse des password challenge).length = challenge.length := by
  simp only [vncAuthResponse, List.length_append, des.length_encryptBlock, List.length_take,
    List.length_drop]
  omega

end Bolide.Rfb
