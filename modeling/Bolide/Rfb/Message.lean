/-
Bolide.Rfb.Message — server messages as data, as bytes, and as what they do.

`encode` is the serialisation of RFC 6143 (the layouts of `client.rs`'s module
doc). `apply` says in one step what the read loop does with a message: it is
the read loop's specification, and `Bolide.Rfb.ClientTheorems` proves that
the loop, reading byte by byte, does exactly that. `WellFormed` is the
format's own notion of a message a server may send, and mentions no decoder
of the client.
-/
import Bolide.Rfb.Client
import Bolide.Rfb.ZrleGrammar

namespace Bolide.Rfb

open Lib

/-! ## Messages -/

/-- What follows a rect's header. -/
inductive RectBody where
  | raw (data : List UInt8)
  | copyRect (srcX srcY : UInt16)
  | zrle (payload : List UInt8)
  | desktopSize
  deriving DecidableEq, Repr

/-- One rect of an update. -/
structure Rect where
  x : UInt16
  y : UInt16
  w : UInt16
  h : UInt16
  body : RectBody
  deriving DecidableEq, Repr

/-- A server message, its padding included. -/
inductive Message where
  | update (pad : UInt8) (rects : List Rect)
  | colourMap (pad : UInt8) (first : UInt16) (entries : List (UInt16 × UInt16 × UInt16))
  | bell
  | cutText (pad : UInt8 × UInt8 × UInt8) (text : List UInt8)
  deriving DecidableEq, Repr

namespace RectBody

def encoding : RectBody → Int32
  | raw _ => encRaw
  | copyRect _ _ => encCopyRect
  | zrle _ => encZrle
  | desktopSize => encDesktopSize

def payload : RectBody → List UInt8
  | raw data => data
  | copyRect srcX srcY => be16 srcX ++ be16 srcY
  | zrle data => be32 (UInt32.ofNat data.length) ++ data
  | desktopSize => []

/-- The rect carries pixels. -/
def carriesPixels : RectBody → Bool
  | desktopSize => false
  | _ => true

end RectBody

/-- A rect as bytes. -/
def Rect.encode (r : Rect) : List UInt8 :=
  be16 r.x ++ be16 r.y ++ be16 r.w ++ be16 r.h ++ beI32 r.body.encoding ++ r.body.payload

/-- A message as bytes. -/
def Message.encode : Message → List UInt8
  | .update pad rects =>
      [ServerMsg.framebufferUpdate, pad] ++ be16 (UInt16.ofNat rects.length) ++
        rects.flatMap Rect.encode
  | .colourMap pad first entries =>
      [ServerMsg.setColourMapEntries, pad] ++ be16 first ++ be16 (UInt16.ofNat entries.length) ++
        entries.flatMap (fun e => be16 e.1 ++ be16 e.2.1 ++ be16 e.2.2)
  | .bell => [ServerMsg.bell]
  | .cutText pad text =>
      [ServerMsg.serverCutText, pad.1, pad.2.1, pad.2.2] ++ be32 (UInt32.ofNat text.length) ++ text

/-- The rects of a message. -/
def Message.rects : Message → List Rect
  | .update _ rects => rects
  | _ => []

/-- The counts fit their fields, and raw pixels are as many as the rect has. -/
def Rect.Serial (fmt : PixelFormat) (r : Rect) : Prop :=
  match r.body with
  | .raw data => data.length = r.w.toNat * r.h.toNat * fmt.bytesPerPixel
  | .zrle payload => payload.length < 2 ^ 32
  | _ => True

def Message.Serial (fmt : PixelFormat) : Message → Prop
  | .update _ rects => rects.length < 2 ^ 16 ∧ ∀ r ∈ rects, r.Serial fmt
  | .colourMap _ _ entries => entries.length < 2 ^ 16
  | .bell => True
  | .cutText _ text => text.length < 2 ^ 32

instance (fmt : PixelFormat) : DecidablePred (Rect.Serial fmt)
  | ⟨_, _, _, _, .raw _⟩ => inferInstanceAs (Decidable (_ = _))
  | ⟨_, _, _, _, .copyRect _ _⟩ => inferInstanceAs (Decidable True)
  | ⟨_, _, _, _, .zrle _⟩ => inferInstanceAs (Decidable (_ < _))
  | ⟨_, _, _, _, .desktopSize⟩ => inferInstanceAs (Decidable True)

instance (fmt : PixelFormat) : DecidablePred (Message.Serial fmt)
  | .update _ _ => inferInstanceAs (Decidable (_ ∧ _))
  | .colourMap _ _ _ => inferInstanceAs (Decidable (_ < _))
  | .bell => inferInstanceAs (Decidable True)
  | .cutText _ _ => inferInstanceAs (Decidable (_ < _))

/-! ## What the client does with them -/

section Apply

variable {z : Decompress}

/-- The decoder a rect calls for, on the framebuffer and the stream. -/
def Rect.decode (fmt : PixelFormat) (s : Framebuffer × z.State) (r : Rect) :
    Outcome (Framebuffer × z.State) :=
  match r.body with
  | .raw data => do
      let fb ← blitRaw s.1 r.x r.y r.w r.h fmt data
      return (fb, s.2)
  | .copyRect srcX srcY => do
      let fb ← copyRect s.1 r.x r.y r.w r.h srcX srcY
      return (fb, s.2)
  | .zrle payload =>
      if payload.length > maxZrlePayload then
        protocolError s!"ZRLE rect claims {UInt32.ofNat payload.length} bytes"
      else do
        let (rgba, zrle) ← decodeRect z s.2 payload fmt r.w r.h
        let fb ← blitRgba s.1 r.x r.y r.w r.h rgba
        return (fb, zrle)
  | .desktopSize => .ok (.black r.w r.h, s.2)

/-- The shared state after a rect that decoded to `fb`. -/
def Inner.afterRect (i : Inner) (r : Rect) (fb : Framebuffer) : Inner :=
  if r.body.carriesPixels then i.setFb fb
  else
    { i with
      state := { i.state with fb, painted := false }
      needsFull := true
      events := i.events ++ [.resized r.w r.h] }

/-- One rect, on the loop's locals and the shared state. -/
def Rect.apply (r : Rect) (p : Progress z) (i : Inner) : Outcome (Progress z × Inner) := do
  let (fb, zrle) ← r.decode p.decoders.format (i.state.fb, p.decoders.zrle)
  return ({ decoders := { p.decoders with zrle },
            paintedAny := p.paintedAny || r.body.carriesPixels,
            resized := p.resized || !r.body.carriesPixels },
          i.afterRect r fb)

/-- The rects of an update in order. -/
def applyRects : List Rect → Progress z → Inner → Outcome (Progress z × Inner)
  | [], p, i => .ok (p, i)
  | r :: rs, p, i => do
      let (p, i) ← r.apply p i
      applyRects rs p i

/-- The shared state after a request for more, if one is wanted. -/
def Inner.asked (i : Inner) (wanted : Bool) : Inner :=
  if wanted && i.connected then
    { i with
      outstanding := i.outstanding + 1
      commands := if i.commandsOpen then i.commands ++ [.request true] else i.commands }
  else i

/-- The shared state after an update that drew something was announced. -/
def Inner.announced (i : Inner) (update : Nat) (paintedAny : Bool) : Inner :=
  if paintedAny then
    { i with
      generation := i.generation + 1
      lastPaintedUpdate := update
      state := { i.state with painted := true }
      events := i.events ++ [.painted (i.generation + 1)] }
  else i

/-- One message, on the decoders and the shared state. -/
def Message.apply (continuous : Bool) (m : Message) (d : Decoders z) (i : Inner) :
    Outcome (Decoders z × Inner) :=
  match m with
  | .update _ rects => do
      let begun := { i with updatesBegun := i.updatesBegun + 1 }
      let (p, i') ← applyRects rects { decoders := d, paintedAny := false, resized := false } begun
      let cleared := { i' with outstanding := 0 }
      return (p.decoders, (cleared.asked (p.resized || continuous)).announced
        (i.updatesBegun + 1) p.paintedAny)
  | .colourMap _ _ _ => .ok (d, i)
  | .bell => .ok (d, i.emit .bell)
  | .cutText _ text =>
      if text.length > maxCutText then
        protocolError s!"a string of {UInt32.ofNat text.length} bytes is past the {maxCutText}-byte limit"
      else .ok (d, (i.setCutText (fromLatin1 text)).emit (.cutText (fromLatin1 text)))

def applyMessages (continuous : Bool) :
    List Message → Decoders z → Inner → Outcome (Decoders z × Inner)
  | [], d, i => .ok (d, i)
  | m :: ms, d, i => do
      let (d, i) ← m.apply continuous d i
      applyMessages continuous ms d i

end Apply

/-! ## What a server may send -/

/-- The rect is inside a screen of this size. -/
def Rect.Inside (r : Rect) (size : UInt16 × UInt16) : Prop :=
  r.x.toNat + r.w.toNat ≤ size.1.toNat ∧ r.y.toNat + r.h.toNat ≤ size.2.toNat

instance (r : Rect) (size : UInt16 × UInt16) : Decidable (r.Inside size) :=
  inferInstanceAs (Decidable (_ ∧ _))

/-- The screen's size after a rect. -/
def Rect.sizeAfter (r : Rect) (size : UInt16 × UInt16) : UInt16 × UInt16 :=
  match r.body with
  | .desktopSize => (r.w, r.h)
  | _ => size

section WellFormed

variable (plain : List UInt8 → Option (List UInt8))

/-- A rect of a server that keeps to the format, on a screen of this size:
it fits, raw pixels are all there, and a ZRLE payload, of at most `cap`
bytes, is the next slice of the connection's zlib stream and adds the rect's
tiles to what that inflates to. The stream goes from `s` to `s'`. -/
def Rect.WellFormed (cap : Nat) (size : UInt16 × UInt16) (s : List UInt8) (r : Rect)
    (s' : List UInt8) : Prop :=
  match r.body with
  | .raw data => r.Inside size ∧ data.length = r.w.toNat * r.h.toNat * 4 ∧ s' = s
  | .copyRect srcX srcY => r.Inside size ∧ srcX.toNat + r.w.toNat ≤ size.1.toNat ∧
      srcY.toNat + r.h.toNat ≤ size.2.toNat ∧ s' = s
  | .zrle payload => r.Inside size ∧ payload.length ≤ cap ∧ s' = s ++ payload ∧
      ∃ given tiles px, plain s = some given ∧ plain s' = some (given ++ tiles) ∧
        Denotes RgbCPixel r.w.toNat r.h.toNat tiles px
  | .desktopSize => s' = s

/-- Each rect fits the screen as the rects before it left it. -/
inductive RectsWellFormed (cap : Nat) : UInt16 × UInt16 → List UInt8 → List Rect →
    UInt16 × UInt16 → List UInt8 → Prop
  | nil {size s} : RectsWellFormed cap size s [] size s
  | cons {size s r s' rs size' s''} : r.WellFormed plain cap size s s' →
      RectsWellFormed cap (r.sizeAfter size) s' rs size' s'' →
      RectsWellFormed cap size s (r :: rs) size' s''

/-- A sequence of messages of a server that keeps to the format. -/
inductive MessagesWellFormed (cap : Nat) : UInt16 × UInt16 → List UInt8 → List Message → Prop
  | nil {size s} : MessagesWellFormed cap size s []
  | update {size s pad rects size' s' ms} : rects.length < 2 ^ 16 →
      RectsWellFormed plain cap size s rects size' s' → MessagesWellFormed cap size' s' ms →
      MessagesWellFormed cap size s (.update pad rects :: ms)
  | colourMap {size s pad first entries ms} : entries.length < 2 ^ 16 →
      MessagesWellFormed cap size s ms →
      MessagesWellFormed cap size s (.colourMap pad first entries :: ms)
  | bell {size s ms} : MessagesWellFormed cap size s ms →
      MessagesWellFormed cap size s (.bell :: ms)
  | cutText {size s pad text ms} : text.length ≤ maxCutText →
      MessagesWellFormed cap size s ms →
      MessagesWellFormed cap size s (.cutText pad text :: ms)

end WellFormed

/-! ## What an observer should see -/

/-- The events one message calls for, `generation` updates having painted before it. -/
def Message.events (generation : Nat) : Message → List ServerEvent
  | .update _ rects =>
      (rects.filter (fun r => !r.body.carriesPixels)).map (fun r => .resized r.w r.h) ++
        if rects.any (fun r => r.body.carriesPixels) then [.painted (generation + 1)] else []
  | .colourMap _ _ _ => []
  | .bell => [.bell]
  | .cutText _ text => [.cutText (fromLatin1 text)]

/-- A message that paints counts one generation on. -/
def Message.generationAfter (generation : Nat) (m : Message) : Nat :=
  if m.rects.any (fun r => r.body.carriesPixels) then generation + 1 else generation

/-- The events of a sequence of messages: generations count 1, 2, 3, … -/
def eventsFrom : Nat → List Message → List ServerEvent
  | _, [] => []
  | g, m :: ms => m.events g ++ eventsFrom (m.generationAfter g) ms

/-- The painted flag a message leaves: a resize clears it, and an update that
drew anything sets it when it ends. -/
def Message.paintedAfter (painted : Bool) (m : Message) : Bool :=
  (painted && m.rects.all fun r => r.body.carriesPixels) ||
    m.rects.any fun r => r.body.carriesPixels

/-- The text a message leaves in the clipboard. -/
def Message.cutTextAfter (text : Option String) : Message → Option String
  | .cutText _ bytes => some (fromLatin1 bytes)
  | _ => text

end Bolide.Rfb
