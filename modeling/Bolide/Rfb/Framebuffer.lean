/-
Bolide.Rfb.Framebuffer — the screen a client holds (`bolide-rfb/src/lib.rs`)
and the three ways a rect is drawn on it (the decoders of `client.rs`).

Translation notes. `rgba` is public in the source and nothing about its
length is promised by the type, so it is a plain list here too; that it
stays `width * height * 4` bytes long is proved in
`Bolide.Rfb.FramebufferTheorems`. Every slice and copy is the checked one of
`Bolide.Lib.Flat` and panics out of range. `check_bounds` adds in `u32`,
which two `u16`s never overflow.
-/
import Bolide.Rfb.Proto

namespace Bolide.Rfb

open Lib

/-! ## The screen -/

/-- A complete screen, RGBA8888, row-major. -/
structure Framebuffer where
  width : UInt16
  height : UInt16
  rgba : List UInt8
  deriving DecidableEq, Repr

/-- The four bytes at `(x, y)` of an RGBA image of width `w`. -/
def pixelAt (px : List UInt8) (w x y : Nat) : List UInt8 := record 4 px (y * w + x)

/-- The bytes of a list of pixels. -/
def pixelBytes (px : List Rgba) : List UInt8 := px.flatMap Rgba.bytes

@[simp] theorem length_pixelBytes (px : List Rgba) : (pixelBytes px).length = 4 * px.length := by
  rw [pixelBytes, List.flatMap_def, length_flatten_of_forall (k := 4), List.length_map]
  simp

/-- Four bytes as a pixel. -/
def Rgba.ofBytes? : List UInt8 → Option Rgba
  | [r, g, b, a] => some ⟨r, g, b, a⟩
  | _ => none

/-- Four bytes are the bytes of a pixel. -/
theorem Rgba.exists_bytes {l : List UInt8} (h : l.length = 4) : ∃ c : Rgba, l = c.bytes := by
  match l, h with
  | [r, g, b, a], _ => exact ⟨⟨r, g, b, a⟩, rfl⟩

@[simp] theorem Rgba.ofBytes?_bytes (c : Rgba) : Rgba.ofBytes? c.bytes = some c := rfl

namespace Framebuffer

/-- A black framebuffer of the given size. -/
def black (width height : UInt16) : Framebuffer where
  width := width
  height := height
  rgba := pixelBytes (List.replicate (width.toNat * height.toNat) Rfb.black)

/-- The pixel at `(x, y)`, or `none` when it is off-screen. -/
def pixel (fb : Framebuffer) (x y : UInt16) : Outcome (Option Rgba) :=
  if x ≥ fb.width ∨ y ≥ fb.height then .ok none
  else do
    let c ← orPanic (Rgba.ofBytes? (pixelAt fb.rgba fb.width.toNat x.toNat y.toNat))
    return some c

end Framebuffer

/-! ## Drawing on it -/

/-- Every rect has to land inside the framebuffer. -/
def checkBounds (fb : Framebuffer) (x y w h : UInt16) : Outcome Unit :=
  if x.toNat + w.toNat > fb.width.toNat ∨ y.toNat + h.toNat > fb.height.toNat then
    protocolError
      s!"a {w}x{h} rect at ({x},{y}) does not fit a {fb.width}x{fb.height} framebuffer"
  else .ok ()

/-- The pixel loops of `blit_raw`. -/
def blitRawLoop (rgba : List UInt8) (width x y w h : Nat) (format : PixelFormat)
    (data : List UInt8) : Option (List UInt8) :=
  let bpp := format.bytesPerPixel
  let stride := width * 4
  (List.range h).foldlM (fun acc row =>
    (List.range w).foldlM (fun acc col => do
      let src := (row * w + col) * bpp
      let wire ← slice? data src (src + bpp)
      let px := format.toRgba (format.readPixel wire)
      let dst := (y + row) * stride + (x + col) * 4
      splice? acc dst (dst + 4) px.bytes) acc) rgba

/-- Raw: `w * h` pixels in the negotiated format, row-major. -/
def blitRaw (fb : Framebuffer) (x y w h : UInt16) (format : PixelFormat) (data : List UInt8) :
    Outcome Framebuffer := do
  checkBounds fb x y w h
  let need := w.toNat * h.toNat * format.bytesPerPixel
  if data.length < need then
    protocolError s!"a raw {w}x{h} rect needs {need} bytes, got {data.length}"
  else
    let rgba ← orPanic (blitRawLoop fb.rgba fb.width.toNat x.toNat y.toNat w.toNat h.toNat
      format data)
    return { fb with rgba }

/-- A rect that is already RGBA (what ZRLE hands back). -/
def blitRgba (fb : Framebuffer) (x y w h : UInt16) (rgba : List UInt8) :
    Outcome Framebuffer := do
  checkBounds fb x y w h
  if rgba.length < w.toNat * h.toNat * 4 then
    protocolError "a decoded rect came up short"
  else
    let rgba ← orPanic (copyRows? 4 fb.rgba fb.width.toNat x.toNat y.toNat
      rgba w.toNat 0 0 w.toNat h.toNat)
    return { fb with rgba }

/-- CopyRect: the source is copied out whole before anything is written back. -/
def copyRect (fb : Framebuffer) (x y w h srcX srcY : UInt16) : Outcome Framebuffer := do
  checkBounds fb x y w h
  checkBounds fb srcX srcY w h
  let scratch ← orPanic (copyRows? 4 (List.replicate (w.toNat * h.toNat * 4) 0) w.toNat 0 0
    fb.rgba fb.width.toNat srcX.toNat srcY.toNat w.toNat h.toNat)
  let rgba ← orPanic (copyRows? 4 fb.rgba fb.width.toNat x.toNat y.toNat
    scratch w.toNat 0 0 w.toNat h.toNat)
  return { fb with rgba }

/-- A drawing operation that leaves the size of the framebuffer alone. -/
def KeepsSize (f : Framebuffer → Outcome Framebuffer) : Prop :=
  ∀ fb fb', f fb = .ok fb' → fb'.width = fb.width ∧ fb'.height = fb.height

end Bolide.Rfb
