/-
Bolide.Rfb.Client — the read loop (`bolide-rfb/src/client.rs`).

`readMessage` is one server message, read off the connection and applied to
the shared state one operation at a time; `readerTask` is the reader task's
loop over as many messages as it gets to. The decoders are the reader's own
and are threaded through.

Translation notes. `Conn::skip` loops over a 1024-byte sink. A rect's
decoder runs under the state lock, so it is one `draw`. The loop of
`reader_task` also ends when `shutdown.changed()` fires, which drops the
message being read: that is a run that stops anywhere.
-/
import Bolide.Rfb.Session
import Bolide.Rfb.Inflate

namespace Bolide.Rfb

open Lib

def maxString : Nat := 64 * 1024
def maxCutText : Nat := 8 * 1024 * 1024
def maxZrlePayload : Nat := 64 * 1024 * 1024

/-! ## `Conn` -/

namespace Conn

def u8 : Task UInt8 := do
  let b ← fill 1
  Prog.ofExcept (orPanic b[0]?)

def u16 : Task UInt16 := do
  let b ← fill 2
  return ofBe16 b

def u32 : Task UInt32 := do
  let b ← fill 4
  return ofBe32 b

def i32 : Task Int32 := do
  let v ← u32
  return v.toInt32

def bytes (n : Nat) : Task (List UInt8) := fill n

/-- Read and throw away. -/
def skip (n : Nat) : Task Unit :=
  if 0 < n then do
    let take := min n 1024
    let _ ← fill take
    skip (n - take)
  else pure ()

/-- A `u32`-prefixed latin-1 string, capped. -/
def string (cap : Nat) : Task String := do
  let len ← u32
  if len.toNat > cap then
    Prog.ofExcept (protocolError s!"a string of {len} bytes is past the {cap}-byte limit")
  else
    let text ← bytes len.toNat
    return fromLatin1 text

end Conn

/-! ## Updates -/

/-- Everything the read loop owns and nobody else may touch. -/
structure Decoders (z : Decompress) where
  zrle : z.State
  format : PixelFormat

/-- The decoders `reader_task` starts with. -/
def Decoders.new (z : Decompress) : Decoders z where
  zrle := z.new
  format := .rgbx32

/-- The locals of `read_framebuffer_update`'s loop. -/
structure Progress (z : Decompress) where
  decoders : Decoders z
  paintedAny : Bool
  resized : Bool

section Rects

variable {z : Decompress} (p : Progress z) (x y w h : UInt16)

/-- The `ENC_RAW` arm. -/
def readRaw : Task (Progress z) := do
  let data ← Conn.bytes (w.toNat * h.toNat * p.decoders.format.bytesPerPixel)
  draw (fun fb => blitRaw fb x y w h p.decoders.format data)
  return { p with paintedAny := true }

/-- The `ENC_COPY_RECT` arm. -/
def readCopyRect : Task (Progress z) := do
  let srcX ← Conn.u16
  let srcY ← Conn.u16
  draw (fun fb => copyRect fb x y w h srcX srcY)
  return { p with paintedAny := true }

/-- The `ENC_ZRLE` arm. -/
def readZrle : Task (Progress z) := do
  let len ← Conn.u32
  if len.toNat > maxZrlePayload then
    Prog.ofExcept (protocolError s!"ZRLE rect claims {len} bytes")
  else
    let payload ← Conn.bytes len.toNat
    let (rgba, zrle) ← Prog.ofExcept (decodeRect z p.decoders.zrle payload p.decoders.format w h)
    draw (fun fb => blitRgba fb x y w h rgba)
    return { p with decoders := { p.decoders with zrle }, paintedAny := true }

/-- The `ENC_DESKTOP_SIZE` arm. -/
def readDesktopSize : Task (Progress z) := do
  op (.desktopSize w h)
  op (.storeNeedsFull true)
  op (.emit (.resized w h))
  return { p with resized := true }

end Rects

/-- One rect: its header, its payload, and the decoder it calls for. -/
def readRect {z : Decompress} (p : Progress z) : Task (Progress z) := do
  let x ← Conn.u16
  let y ← Conn.u16
  let w ← Conn.u16
  let h ← Conn.u16
  let encoding ← Conn.i32
  if encoding = encRaw then readRaw p x y w h
  else if encoding = encCopyRect then readCopyRect p x y w h
  else if encoding = encZrle then readZrle p x y w h
  else if encoding = encDesktopSize then readDesktopSize p w h
  else Prog.fail (.err (.unsupportedEncoding encoding))

def readRects {z : Decompress} : Nat → Progress z → Task (Progress z)
  | 0, p => pure p
  | n + 1, p => do
      let p ← readRect p
      readRects n p

/-- A resize always earns a request, and continuous mode asks again after
every update. -/
def askAgain (wanted : Bool) : Task Unit :=
  if wanted = true then do
    let _ ← send (.request true)
    pure ()
  else pure ()

/-- An update that drew anything marks the screen painted and says so. -/
def announcePainted (update : Nat) (paintedAny : Bool) : Task Unit :=
  if paintedAny = true then do
    let generation ← op .nextGeneration
    op (.storeLastPainted update)
    op .setPainted
    op (.emit (.painted generation))
  else pure ()

/-- What follows the last rect of an update. -/
def finishUpdate {z : Decompress} (continuous : Bool) (update : Nat) (p : Progress z) :
    Task (Decoders z) := do
  op (.storeOutstanding 0)
  askAgain (p.resized || continuous)
  announcePainted update p.paintedAny
  return p.decoders

def readFramebufferUpdate {z : Decompress} (continuous : Bool) (d : Decoders z) :
    Task (Decoders z) := do
  let update ← op .beginUpdate
  let _pad ← Conn.u8
  let count ← Conn.u16
  let p ← readRects count.toNat { decoders := d, paintedAny := false, resized := false }
  finishUpdate continuous update p

/-! ## Messages -/

/-- SetColourMapEntries: noise, but sized noise. -/
def readColourMap : Task Unit := do
  let _pad ← Conn.u8
  let _first ← Conn.u16
  let count ← Conn.u16
  Conn.skip (count.toNat * 6)

/-- ServerCutText. -/
def readCutText : Task Unit := do
  Conn.skip 3
  let text ← Conn.string maxCutText
  op (.setCutText text)
  op (.emit (.cutText text))

/-- What a message type asks for. -/
def handleMessage {z : Decompress} (continuous : Bool) (d : Decoders z) (message : UInt8) :
    Task (Decoders z) :=
  if message = ServerMsg.framebufferUpdate then readFramebufferUpdate continuous d
  else if message = ServerMsg.setColourMapEntries then do
    readColourMap
    return d
  else if message = ServerMsg.bell then do
    op (.emit .bell)
    return d
  else if message = ServerMsg.serverCutText then do
    readCutText
    return d
  else
    Prog.ofExcept (protocolError s!"server message type {message} is not one of 0..=3")

/-- One server message: its first byte may take for ever, the rest is owed. -/
def readMessage {z : Decompress} (continuous : Bool) (d : Decoders z) : Task (Decoders z) := do
  op .disarm
  let message ← Conn.u8
  op .arm
  handleMessage continuous d message

/-- The reader's loop, for `n` messages that are all read. -/
def readMessages {z : Decompress} (continuous : Bool) : Nat → Decoders z → Task (Decoders z)
  | 0, d => pure d
  | n + 1, d => do
      let d ← readMessage continuous d
      readMessages continuous n d

/-- `reader_task`, for as many as `n` messages: an error ends the session. -/
def readerTask {z : Decompress} (continuous : Bool) : Nat → Decoders z → Task Unit
  | 0, _ => pure ()
  | n + 1, d => do
      let outcome ← (readMessage continuous d).attempt
      match outcome with
      | .ok d => readerTask continuous n d
      | .error (.err e) => markDead (some e)
      | .error stop => Prog.fail stop

end Bolide.Rfb
