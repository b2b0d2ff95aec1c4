/-
Bolide.Testkit.Server — the server half of a session
(`bolide-testkit/src/server.rs`, and `Screen::fill_rect` of its `lib.rs`).

What the fake server writes once its handshake is over: it takes client
messages and directives one at a time, in whatever order they come, and
each may change its screen, its stream and its settings and may write.

Translation notes. `flate2::Compress` is a parameter: a state and the slice
of the stream it adds for some input, flushed, which is what the loop of
`ZrleWriter::deflate` collects. The two sources `serve` selects on are one
list of inputs, in the order it took them. A socket that fails to write ends
`serve`, as the end of the list does.
-/
import Bolide.Testkit.Encode
import Bolide.Rfb.Message

namespace Bolide.Testkit

open Lib Rfb

/-! ## Changing a screen -/

/-- The pixel loops of `fill_rect`. -/
def fillRows (width : Nat) (c : Rgba) (rows cols : List Nat) (rgba : List UInt8) :
    Option (List UInt8) :=
  rows.foldlM (fun acc row => cols.foldlM (fun acc col =>
    let i := (row * width + col) * 4
    splice? acc i (i + 4) c.bytes) acc) rgba

theorem length_splice? {α : Type} {l xs out : List α} {a b : Nat}
    (h : splice? l a b xs = some out) : out.length = l.length := by
  rw [splice?] at h
  split at h
  · next hab =>
      cases h
      rw [length_splice (by omega)]
  · cases h

theorem length_foldlM {α : Type} {f : List UInt8 → α → Option (List UInt8)}
    (hf : ∀ l a out, f l a = some out → out.length = l.length) :
    ∀ {as : List α} {l out : List UInt8}, as.foldlM f l = some out → out.length = l.length
  | [], l, out, h => by cases h; rfl
  | a :: as, l, out, h => by
      rw [List.foldlM_cons] at h
      cases ha : f l a with
      | none => rw [ha] at h; cases h
      | some l' =>
          rw [ha] at h
          exact (length_foldlM hf h).trans (hf l a l' ha)

/-- Filling keeps the screen's length. -/
theorem length_fillRows {width : Nat} {c : Rgba} {rows cols : List Nat} {rgba out : List UInt8}
    (h : fillRows width c rows cols rgba = some out) : out.length = rgba.length :=
  length_foldlM (fun _ _ _ h => length_foldlM (fun _ _ _ h => length_splice? h) h) h

/-- `a..b`. -/
def span (a b : UInt16) : List Nat := List.range' a.toNat (b.toNat - a.toNat)

/-- Paint a rectangle, clipped to the screen. -/
def Screen.fillRect (s : Screen) (x y width height : UInt16) (c : Rgba) : Outcome Screen :=
  match h : fillRows s.width.toNat c (span y (min (satAdd y height) s.height))
      (span x (min (satAdd x width) s.width)) s.rgba with
  | some rgba => .ok { s with rgba, length_rgba := (length_fillRows h).trans s.length_rgba }
  | none => .error .panic

/-- Move a region of the screen, reading a snapshot. -/
def blit (screen : Screen) (srcX srcY dstX dstY w h : UInt16) : Outcome Screen :=
  let taken := region screen srcX srcY w h
  (List.range h.toNat).foldlM (fun screen row =>
    (List.range w.toNat).foldlM (fun screen col => do
      let rgba ← orPanic taken[row * w.toNat + col]?
      screen.fillRect (satAdd dstX (UInt16.ofNat col)) (satAdd dstY (UInt16.ofNat row)) 1 1 rgba)
      screen) screen

/-! ## The stream -/

/-- `flate2::Compress` as `ZrleWriter::deflate` uses it: the flushed slice
that some input adds to the stream. -/
structure Compress where
  State : Type
  new : State
  deflate : State → List UInt8 → List UInt8 × State

section Stream

variable (c : Compress) (plain : List UInt8 → Option (List UInt8))

/-- A deflater that was given `data` has written `bytes`. -/
inductive Deflated : c.State → List UInt8 → List UInt8 → Prop
  | new : Deflated c.new [] []
  | slice {s bytes data} (more : List UInt8) : Deflated s bytes data →
      Deflated (c.deflate s more).2 (bytes ++ (c.deflate s more).1) (data ++ more)

/-- The codec is lossless: what a deflater wrote inflates to what it was
given, flush by flush. -/
def Lossless : Prop := ∀ {s bytes data}, Deflated c s bytes data → plain bytes = some data

end Stream

/-- `ZrleWriter`: one per connection. -/
structure ZrleWriter (c : Compress) where
  deflate : c.State
  tiling : ZrleTiling

/-- `ZrleWriter::with_tiling`. -/
def ZrleWriter.withTiling (c : Compress) (tiling : ZrleTiling) : ZrleWriter c where
  deflate := c.new
  tiling := tiling

/-- A whole ZRLE rect payload: the byte count, and that many bytes of this
connection's stream. -/
def ZrleWriter.rect {c : Compress} (zrle : ZrleWriter c) (screen : Screen) (x y w h : UInt16)
    (fmt : PixelFormat) : Outcome (List UInt8 × ZrleWriter c) := do
  let plain ← tiles screen zrle.tiling x y w h fmt
  let (compressed, deflate) := c.deflate zrle.deflate plain
  return (be32 (UInt32.ofNat compressed.length) ++ compressed, { zrle with deflate })

/-! ## Writing the screen -/

/-- Which encoding the fake uses for the rects it sends. -/
inductive Encoding where
  | negotiated
  | raw
  | zrle
  deriving DecidableEq, Repr

/-- The fields of a `FakeServerBuilder` that a session reads. -/
structure Builder where
  encoding : Encoding
  screen : Screen
  zrleTiling : ZrleTiling

def updateHeader (rects : UInt16) : List UInt8 := [ServerMsg.framebufferUpdate, 0] ++ be16 rects

def rectHeader (x y w h : UInt16) (encoding : Int32) : List UInt8 :=
  be16 x ++ be16 y ++ be16 w ++ be16 h ++ beI32 encoding

def serverCutText (text : String) : List UInt8 :=
  let latin1 := toLatin1 text
  [ServerMsg.serverCutText, 0, 0, 0] ++ be32 (UInt32.ofNat latin1.length) ++ latin1

/-- Which encoding a rect goes out in. -/
def chooseEncoding (encoding : Encoding) (advertised : List Int32) : Int32 :=
  match encoding with
  | .raw => encRaw
  | .zrle => encZrle
  | .negotiated => (advertised.find? fun e => e = encZrle ∨ e = encRaw).getD encRaw

/-- What `serve` keeps between two inputs. -/
structure Server (c : Compress) where
  screen : Screen
  fmt : PixelFormat
  advertised : List Int32
  zrle : ZrleWriter c

/-- The session `serve` starts after its handshake. -/
def Server.new (c : Compress) (cfg : Builder) : Server c where
  screen := cfg.screen
  fmt := .rgbx32
  advertised := []
  zrle := .withTiling c cfg.zrleTiling

section Serve

variable {c : Compress}

/-- A whole FramebufferUpdate carrying the current screen as one rect. -/
def framebufferUpdate (cfg : Builder) (srv : Server c) : Outcome (List UInt8 × Server c) := do
  let encoding := chooseEncoding cfg.encoding srv.advertised
  let (payload, zrle) ←
    if encoding = encZrle then
      srv.zrle.rect srv.screen 0 0 srv.screen.width srv.screen.height srv.fmt
    else .ok (rawRect srv.screen 0 0 srv.screen.width srv.screen.height srv.fmt, srv.zrle)
  return (updateHeader 1 ++ rectHeader 0 0 srv.screen.width srv.screen.height encoding ++ payload,
    { srv with zrle })

/-! ## Inputs -/

/-- Something a test told the fake to do. -/
inductive Directive where
  | setScreen (screen : Screen)
  | cutText (text : String)
  | bell
  | resize (w h : UInt16)
  | copyRect (srcX srcY dstX dstY width height : UInt16)
  | drop
  | shutdown

/-- One thing the client sent. -/
inductive ClientEvent where
  | setPixelFormat (f : PixelFormat)
  | setEncodings (list : List Int32)
  | updateRequest (incremental : Bool) (x y width height : UInt16)
  | pointer (x y : UInt16) (buttons : UInt8)
  | key (keysym : UInt32) (down : Bool)
  | cutText (text : String)

/-- What `serve` selects on. -/
inductive Input where
  | message (event : ClientEvent)
  | directive (directive : Directive)

/-- Apply a directive to a live connection: what it writes, and the state after. -/
def applyOnline (cfg : Builder) (srv : Server c) :
    Directive → Outcome (List UInt8 × Server c)
  | .setScreen screen => framebufferUpdate cfg { srv with screen }
  | .cutText text => .ok (serverCutText text, srv)
  | .bell => .ok ([ServerMsg.bell], srv)
  | .resize w h =>
      .ok (updateHeader 1 ++ rectHeader 0 0 w h encDesktopSize,
        { srv with screen := .solid w h Rfb.black })
  | .copyRect srcX srcY dstX dstY width height => do
      let screen ← blit srv.screen srcX srcY dstX dstY width height
      return (updateHeader 1 ++ rectHeader dstX dstY width height encCopyRect ++
        copyRectPayload srcX srcY, { srv with screen })
  | .drop | .shutdown => .ok ([], srv)

/-- One turn of `serve`'s loop: nothing when it ends the connection. -/
def serveInput (cfg : Builder) (srv : Server c) :
    Input → Outcome (Option (List UInt8 × Server c))
  | .message (.setPixelFormat fmt) => .ok (some ([], { srv with fmt }))
  | .message (.setEncodings advertised) => .ok (some ([], { srv with advertised }))
  | .message (.updateRequest _ _ _ _ _) => some <$> framebufferUpdate cfg srv
  | .message _ => .ok (some ([], srv))
  | .directive .drop | .directive .shutdown => .ok none
  | .directive d => some <$> applyOnline cfg srv d

/-- `serve` over a list of inputs: everything it writes, and the state it ends in. -/
def serve (cfg : Builder) : List Input → Server c → Outcome (List UInt8 × Server c)
  | [], srv => .ok ([], srv)
  | input :: inputs, srv => do
      match ← serveInput cfg srv input with
      | none => return ([], srv)
      | some (bytes, srv) =>
          let (rest, srv) ← serve cfg inputs srv
          return (bytes ++ rest, srv)

end Serve

end Bolide.Testkit
