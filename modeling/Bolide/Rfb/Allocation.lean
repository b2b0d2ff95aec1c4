/-
Bolide.Rfb.Allocation — the read loop, and the buffers it allocates.

A rect makes the reader allocate on the server's say-so: the payload of a Raw
rect, the payload of a ZRLE rect, and the pixels its tiles are decoded to.
`markedReaderTask` is `readerTask` with a mark where a header that asks for
such buffers has been read, and one where each buffer is allocated; without
the marks it is `readerTask` (`erase_readerTask`).

Translation notes. `Conn::bytes` allocates its buffer before it reads, and
`decode_tiles` its output before it decodes.
-/
import Bolide.Rfb.Client
import Bolide.Lib.Marks

namespace Bolide.Rfb

open Lib Lib.Prog

/-- The position and the size of a rect. -/
structure RectHeader where
  x : UInt16
  y : UInt16
  w : UInt16
  h : UInt16
  deriving DecidableEq, Repr

/-- What the reader is about to do. -/
inductive Mark where
  -- the header of a Raw rect has been read
  | raw (rect : RectHeader)
  -- the header of a ZRLE rect has been read, and the length of its payload
  | zrle (rect : RectHeader) (len : UInt32)
  -- `n` bytes are allocated for a rect
  | buffer (rect : RectHeader) (n : Nat)
  deriving DecidableEq, Repr

/-- A marked task of the session. -/
abbrev MarkedTask (α : Type) := Marked SessionSig Mark Stop α

section Rects

variable {z : Decompress} (p : Progress z) (x y w h : UInt16)

/-- `readRaw`, with its buffer. -/
def markedRaw : MarkedTask (Progress z) := do
  mark (.raw ⟨x, y, w, h⟩)
  mark (.buffer ⟨x, y, w, h⟩ (w.toNat * h.toNat * p.decoders.format.bytesPerPixel))
  unmarked (readRaw p x y w h)

/-- `readZrle`, with its two buffers. -/
def markedZrle : MarkedTask (Progress z) := do
  let len ← unmarked Conn.u32
  mark (.zrle ⟨x, y, w, h⟩ len)
  if len.toNat > maxZrlePayload then
    Prog.ofExcept (protocolError s!"ZRLE rect claims {len} bytes")
  else
    mark (.buffer ⟨x, y, w, h⟩ len.toNat)
    let payload ← unmarked (Conn.bytes len.toNat)
    let (plain, zrle) ← Prog.ofExcept (inflateSlice z p.decoders.zrle payload)
    mark (.buffer ⟨x, y, w, h⟩ (w.toNat * h.toNat * 4))
    let rgba ← Prog.ofExcept (decodeTiles plain p.decoders.format w h)
    unmarked (draw (fun fb => blitRgba fb x y w h rgba))
    return { p with decoders := { p.decoders with zrle }, paintedAny := true }

end Rects

def markedRect {z : Decompress} (p : Progress z) : MarkedTask (Progress z) := do
  let x ← unmarked Conn.u16
  let y ← unmarked Conn.u16
  let w ← unmarked Conn.u16
  let h ← unmarked Conn.u16
  let encoding ← unmarked Conn.i32
  if encoding = encRaw then markedRaw p x y w h
  else if encoding = encCopyRect then unmarked (readCopyRect p x y w h)
  else if encoding = encZrle then markedZrle p x y w h
  else if encoding = encDesktopSize then unmarked (readDesktopSize p w h)
  else Prog.fail (.err (.unsupportedEncoding encoding))

def markedRects {z : Decompress} : Nat → Progress z → MarkedTask (Progress z)
  | 0, p => pure p
  | n + 1, p => do
      let p ← markedRect p
      markedRects n p

def markedUpdate {z : Decompress} (continuous : Bool) (d : Decoders z) :
    MarkedTask (Decoders z) := do
  let update ← unmarked (op .beginUpdate)
  let _pad ← unmarked Conn.u8
  let count ← unmarked Conn.u16
  let p ← markedRects count.toNat { decoders := d, paintedAny := false, resized := false }
  unmarked (finishUpdate continuous update p)

def markedHandle {z : Decompress} (continuous : Bool) (d : Decoders z) (message : UInt8) :
    MarkedTask (Decoders z) :=
  if message = ServerMsg.framebufferUpdate then markedUpdate continuous d
  else unmarked (handleMessage continuous d message)

def markedMessage {z : Decompress} (continuous : Bool) (d : Decoders z) :
    MarkedTask (Decoders z) := do
  unmarked (op .disarm)
  let message ← unmarked Conn.u8
  unmarked (op .arm)
  markedHandle continuous d message

def markedReaderTask {z : Decompress} (continuous : Bool) : Nat → Decoders z → MarkedTask Unit
  | 0, _ => pure ()
  | n + 1, d => do
      let outcome ← (markedMessage continuous d).attempt
      match outcome with
      | .ok d => markedReaderTask continuous n d
      | .error (.err e) => unmarked (markDead (some e))
      | .error stop => Prog.fail stop

/-! ## Without the marks -/

section Erase

variable {z : Decompress}

theorem erase_raw (p : Progress z) (x y w h : UInt16) :
    (markedRaw p x y w h).erase = readRaw p x y w h := by
  simp [markedRaw]

theorem erase_zrle (p : Progress z) (x y w h : UInt16) :
    (markedZrle p x y w h).erase = readZrle p x y w h := by
  unfold markedZrle readZrle
  rw [erase_bind, erase_unmarked]
  congr 1
  funext len
  rw [erase_bind, erase_mark, ret_bind]
  split
  · rw [erase_ofExcept]
  · rw [erase_bind, erase_mark, ret_bind, erase_bind, erase_unmarked]
    congr 1
    funext payload
    unfold decodeRect
    simp only [erase_bind, erase_ofExcept, erase_mark, erase_unmarked, ret_bind]
    cases inflateSlice z p.decoders.zrle payload with
    | error e => rfl
    | ok r =>
        obtain ⟨plain, zrle⟩ := r
        simp only [ofExcept_ok, ret_bind, ok_bind]
        cases decodeTiles plain p.decoders.format w h with
        | error e => rfl
        | ok rgba => rfl

theorem erase_rect (p : Progress z) : (markedRect p).erase = readRect p := by
  unfold markedRect readRect
  simp only [erase_bind, erase_unmarked, apply_ite erase, erase_raw, erase_zrle, erase_fail]

theorem erase_rects : ∀ (n : Nat) (p : Progress z), (markedRects n p).erase = readRects n p
  | 0, _ => rfl
  | n + 1, p => by
      rw [markedRects, readRects, erase_bind, erase_rect]
      congr 1
      funext p
      exact erase_rects n p

theorem erase_message (continuous : Bool) (d : Decoders z) :
    (markedMessage continuous d).erase = readMessage continuous d := by
  have hhandle : ∀ message,
      (markedHandle continuous d message).erase = handleMessage continuous d message := by
    intro message
    unfold markedHandle
    split
    · next h =>
        rw [handleMessage, if_pos h, markedUpdate, readFramebufferUpdate]
        simp only [erase_bind, erase_unmarked, erase_rects]
    · rw [erase_unmarked]
  unfold markedMessage readMessage
  simp only [erase_bind, erase_unmarked, hhandle]

/-- Without its marks, the marked reader is the reader. -/
theorem erase_readerTask (continuous : Bool) : ∀ (n : Nat) (d : Decoders z),
    (markedReaderTask continuous n d).erase = readerTask continuous n d
  | 0, _ => rfl
  | n + 1, d => by
      rw [markedReaderTask, readerTask, erase_bind, erase_attempt, erase_message]
      congr 1
      funext outcome
      match outcome with
      | .ok d => exact erase_readerTask continuous n d
      | .error (.err e) => exact erase_unmarked _
      | .error .panic => rfl
      | .error .parked => rfl

end Erase

end Bolide.Rfb
