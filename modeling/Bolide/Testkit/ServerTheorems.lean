/-
Bolide.Testkit.ServerTheorems — the client shows what the server shows.

Both halves of the protocol draw on an image of their own: the server on the
`Screen` a test scripts, the client on its framebuffer. Everything the server
writes is a well-formed message, and what the client's decoder draws for it
is what the server drew, so a client that has read everything holds the
server's screen, from the first input that sends all of it.
-/
import Bolide.Testkit.Server
import Bolide.Testkit.EncodeTheorems
import Bolide.Rfb.MessageTheorems

namespace Bolide.Testkit

open Lib Rfb

/-! ## Drawing on a screen -/

theorem span_one {x n : UInt16} (h : x < n) : span x (min (satAdd x 1) n) = [x.toNat] := by
  have hx : x.toNat < n.toNat := h
  have hn := n.toNat_lt
  have hone : (1 : UInt16).toNat = 1 := rfl
  have hadd : (x + 1).toNat = x.toNat + 1 := by
    rw [UInt16.toNat_add, hone]
    omega
  have hmin : min (x + 1) n = x + 1 := if_pos (by rw [UInt16.le_iff_toNat_le, hadd]; omega)
  rw [satAdd_eq (by omega), hmin, span, hadd, Nat.add_sub_cancel_left]
  rfl

/-- Coordinates inside a screen add without saturating. -/
theorem toNat_satAdd {a : UInt16} {i : Nat} (h : a.toNat + i < 65536) :
    (satAdd a (UInt16.ofNat i)).toNat = a.toNat + i := by
  have hi : (UInt16.ofNat i).toNat = i := by rw [UInt16.toNat_ofNat']; omega
  rw [satAdd_eq (by omega), UInt16.toNat_add]
  omega

/-- One pixel of a screen filled. -/
theorem fillRect_pixel (s : Screen) {x y : UInt16} (c : Rgba) (hx : x < s.width)
    (hy : y < s.height) :
    ∃ s', s.fillRect x y 1 1 c = .ok s' ∧ s'.width = s.width ∧ s'.height = s.height ∧
      ∀ i < s.width.toNat, ∀ j, pixelAt s'.rgba s.width.toNat i j
        = if i = x.toNat ∧ j = y.toNat then c.bytes else pixelAt s.rgba s.width.toNat i j := by
  obtain ⟨rgba, hsplice, hlen, hpx⟩ := splice_pixel (x := x.toNat) (y := y.toNat) c s.length_rgba hx hy
  have hoff : (y.toNat * s.width.toNat + x.toNat) * 4
      = y.toNat * (s.width.toNat * 4) + x.toNat * 4 := by ring
  have hfill : fillRows s.width.toNat c (span y (min (satAdd y 1) s.height))
      (span x (min (satAdd x 1) s.width)) s.rgba = some rgba := by
    rw [span_one hx, span_one hy]
    simp only [fillRows, List.foldlM_cons, List.foldlM_nil, hoff, hsplice]
    rfl
  refine ⟨{ s with rgba, length_rgba := hlen.trans s.length_rgba }, ?_, rfl, rfl, hpx⟩
  unfold Screen.fillRect
  split
  · next rgba' h => rw [hfill] at h; cases h; rfl
  · next h => rw [hfill] at h; cases h

/-- The server's CopyRect draws the pixels that were at the source, whatever
the overlap. -/
theorem blit_spec (s : Screen) {srcX srcY dstX dstY w h : UInt16}
    (hsx : srcX.toNat + w.toNat ≤ s.width.toNat) (hsy : srcY.toNat + h.toNat ≤ s.height.toNat)
    (hdx : dstX.toNat + w.toNat ≤ s.width.toNat) (hdy : dstY.toNat + h.toNat ≤ s.height.toNat) :
    ∃ s', blit s srcX srcY dstX dstY w h = .ok s' ∧ (s'.width = s.width ∧ s'.height = s.height) ∧
      Drawn s.width.toNat s.rgba s'.rgba dstX.toNat dstY.toNat w.toNat h.toNat
        (fun i j => pixelAt s.rgba s.width.toNat (srcX.toNat + i) (srcY.toNat + j)) := by
  refine pixelLoop_drawn (m := Outcome) Screen.rgba
    (fun s' => s'.width = s.width ∧ s'.height = s.height)
    (fun row col s' => do
      let rgba ← orPanic (region s srcX srcY w h)[row * w.toNat + col]?
      s'.fillRect (satAdd dstX (UInt16.ofNat col)) (satAdd dstY (UInt16.ofNat row)) 1 1 rgba)
    ⟨rfl, rfl⟩ fun row hrow col hcol s' hs' => ?_
  have hsw := s.width.toNat_lt
  have hsh := s.height.toNat_lt
  have hsX := toNat_satAdd (a := srcX) (i := col) (by omega)
  have hsY := toNat_satAdd (a := srcY) (i := row) (by omega)
  have hdX := toNat_satAdd (a := dstX) (i := col) (by omega)
  have hdY := toNat_satAdd (a := dstY) (i := row) (by omega)
  have hget := getElem?_region s srcX srcY w h hcol hrow
  obtain ⟨c, hc, hbytes⟩ := s.pixel_eq (x := satAdd srcX (UInt16.ofNat col))
    (y := satAdd srcY (UInt16.ofNat row)) (by rw [UInt16.lt_iff_toNat_lt, hsX]; omega)
    (by rw [UInt16.lt_iff_toNat_lt, hsY]; omega)
  rw [hc, Option.getD_some] at hget
  obtain ⟨out, hfill, hwidth, hheight, hpx⟩ := fillRect_pixel s' (x := satAdd dstX (UInt16.ofNat col))
    (y := satAdd dstY (UInt16.ofNat row)) c
    (by rw [UInt16.lt_iff_toNat_lt, hdX, hs'.1]; omega)
    (by rw [UInt16.lt_iff_toNat_lt, hdY, hs'.2]; omega)
  refine ⟨out, by rw [hget]; exact hfill, ⟨hwidth.trans hs'.1, hheight.trans hs'.2⟩, ?_, ?_⟩
  · rw [out.length_rgba, s'.length_rgba, hwidth, hheight]
  · rw [hs'.1, hdX, hdY] at hpx
    rw [← hsX, ← hsY, hbytes]
    exact hpx

/-! ## Painting a whole screen -/

/-- Every pixel of the screen is opaque. -/
def Screen.FullAlpha (s : Screen) : Prop :=
  ∀ i < s.width.toNat, ∀ j < s.height.toNat,
    (pixelAt s.rgba s.width.toNat i j)[3]? = some 255

instance (s : Screen) : Decidable s.FullAlpha := inferInstanceAs (Decidable (∀ _ < _, ∀ _ < _, _))

/-- An opaque colour survives the negotiated format. -/
theorem toRgba_fromRgba {c : Rgba} (ha : c.a = 255) :
    PixelFormat.rgbx32.toRgba (PixelFormat.rgbx32.fromRgba c) = c := by
  have hr : c.r.toNat < 2 ^ 8 := c.r.toNat_lt
  have hg : c.g.toNat < 2 ^ 8 := c.g.toNat_lt
  have hb : c.b.toNat < 2 ^ 8 := c.b.toNat_lt
  have hp : (PixelFormat.rgbx32.fromRgba c).toNat
      = (c.b.toNat * 256 + c.g.toNat) * 256 + c.r.toNat := by
    have hval : PixelFormat.rgbx32.fromRgba c
        = (c.r.toUInt32 <<< 0 ||| c.g.toUInt32 <<< 8) ||| c.b.toUInt32 <<< 16 := rfl
    have h0 : (0 : UInt32).toNat % 32 = 0 := rfl
    have h8 : (8 : UInt32).toNat % 32 = 8 := rfl
    have h16 : (16 : UInt32).toNat % 32 = 16 := rfl
    rw [hval]
    simp only [UInt32.toNat_or, UInt32.toNat_shiftLeft, UInt8.toNat_toUInt32, h0, h8, h16,
      Nat.shiftLeft_zero]
    rw [Nat.mod_eq_of_lt (by omega : c.r.toNat < 2 ^ 32),
      Nat.mod_eq_of_lt (by rw [Nat.shiftLeft_eq]; omega),
      Nat.mod_eq_of_lt (by rw [Nat.shiftLeft_eq]; omega), Nat.or_comm c.r.toNat,
      ← Nat.shiftLeft_add_eq_or_of_lt hr, Nat.or_comm,
      ← Nat.shiftLeft_add_eq_or_of_lt (by rw [Nat.shiftLeft_eq]; omega), Nat.shiftLeft_eq,
      Nat.shiftLeft_eq]
    omega
  obtain ⟨r, g, b, a⟩ := c
  simp only [PixelFormat.toRgba, Rgba.mk.injEq]
  simp only at hp hr hg hb ha
  refine ⟨UInt8.toNat_inj.mp ?_, UInt8.toNat_inj.mp ?_, UInt8.toNat_inj.mp ?_, ha.symm⟩
  · exact (scale_255 _ 0 (by omega)).trans (by rw [hp]; omega)
  · exact (scale_255 _ 1 (by omega)).trans (by rw [hp]; omega)
  · exact (scale_255 _ 2 (by omega)).trans (by rw [hp]; omega)

theorem readPixel_writePixel_rgbx32 (p : UInt32) :
    PixelFormat.rgbx32.readPixel (PixelFormat.rgbx32.writePixel p) = p := by
  apply UInt32.toNat_inj.mp
  rw [PixelFormat.readPixel_writePixel]
  exact Nat.mod_eq_of_lt p.toNat_lt

/-- The pixel of an opaque screen, by its bytes. -/
theorem Screen.FullAlpha.pixel {s : Screen} (hs : s.FullAlpha) {x y : UInt16} (hx : x < s.width)
    (hy : y < s.height) : ∃ c, s.pixel x y = some c ∧ c.a = 255 ∧
      pixelAt s.rgba s.width.toNat x.toNat y.toNat = c.bytes := by
  obtain ⟨c, hc, hbytes⟩ := s.pixel_eq hx hy
  have ha := hs x.toNat hx y.toNat hy
  rw [hbytes] at ha
  exact ⟨c, hc, Option.some.inj ha, hbytes⟩

/-- A drawing of a whole image leaves that image. -/
theorem drawn_whole {width height : Nat} {old new image : List UInt8}
    {src : Nat → Nat → List UInt8} (hold : old.length = width * height * 4)
    (himage : image.length = width * height * 4)
    (hd : Drawn width old new 0 0 width height src)
    (hsrc : ∀ i < width, ∀ j < height, src i j = pixelAt image width i j) : new = image := by
  refine eq_of_pixelAt (hd.1.trans hold) himage fun i hi j hj => ?_
  rw [hd.2 i hi j, if_pos (by omega)]
  exact hsrc i hi j hj

/-- The raw bytes of a whole opaque screen, read back pixel by pixel. -/
theorem rawPixel_rawRect {s : Screen} (hs : s.FullAlpha) {i j : Nat} (hi : i < s.width.toNat)
    (hj : j < s.height.toNat) :
    (rawPixel .rgbx32 (rawRect s 0 0 s.width s.height .rgbx32) (j * s.width.toNat + i)).bytes
      = pixelAt s.rgba s.width.toNat i j := by
  have hsw := s.width.toNat_lt
  have hsh := s.height.toNat_lt
  have hx : (satAdd 0 (UInt16.ofNat i)).toNat = i :=
    (toNat_satAdd (by rw [UInt16.toNat_zero]; omega)).trans (Nat.zero_add i)
  have hy : (satAdd 0 (UInt16.ofNat j)).toNat = j :=
    (toNat_satAdd (by rw [UInt16.toNat_zero]; omega)).trans (Nat.zero_add j)
  obtain ⟨c, hc, ha, hbytes⟩ := hs.pixel (x := satAdd 0 (UInt16.ofNat i))
    (y := satAdd 0 (UInt16.ofNat j)) (by rw [UInt16.lt_iff_toNat_lt, hx]; exact hi)
    (by rw [UInt16.lt_iff_toNat_lt, hy]; exact hj)
  rw [hx, hy] at hbytes
  let pixels := (region s 0 0 s.width s.height).map fun c =>
    PixelFormat.rgbx32.writePixel (PixelFormat.rgbx32.fromRgba c)
  have hpixels : ∀ l ∈ pixels, l.length = 4 := by
    intro l hl
    obtain ⟨c, -, rfl⟩ := List.mem_map.mp hl
    exact PixelFormat.length_writePixel _ _
  have hlt : j * s.width.toNat + i < pixels.length := by
    rw [List.length_map, length_region]
    exact index_lt hi hj
  have hget : pixels[j * s.width.toNat + i]?
      = some (PixelFormat.rgbx32.writePixel (PixelFormat.rgbx32.fromRgba c)) := by
    rw [List.getElem?_map, getElem?_region s 0 0 s.width s.height hi hj, hc]
    rfl
  have hrec := record_flatten hpixels hlt
  rw [(List.getElem?_eq_some_iff.mp hget).2, ← List.flatMap_def, record, Nat.mul_comm] at hrec
  have hwire : ((rawRect s 0 0 s.width s.height .rgbx32).drop ((j * s.width.toNat + i) * 4)).take 4
      = PixelFormat.rgbx32.writePixel (PixelFormat.rgbx32.fromRgba c) := hrec
  show (PixelFormat.toRgba _ (PixelFormat.readPixel _ _)).bytes = _
  rw [show PixelFormat.rgbx32.bytesPerPixel = 4 from rfl, hwire, readPixel_writePixel_rgbx32,
    toRgba_fromRgba ha, hbytes]

theorem length_rawRect (s : Screen) (x y w h : UInt16) :
    (rawRect s x y w h .rgbx32).length = w.toNat * h.toNat * 4 := by
  have hpixels : ∀ l ∈ (region s x y w h).map fun c =>
      PixelFormat.rgbx32.writePixel (PixelFormat.rgbx32.fromRgba c), l.length = 4 := by
    intro l hl
    obtain ⟨c, -, rfl⟩ := List.mem_map.mp hl
    exact PixelFormat.length_writePixel _ _
  rw [rawRect, List.flatMap_def, length_flatten_of_forall hpixels, List.length_map, length_region,
    Nat.mul_comm]

/-- The tiles of a whole opaque screen denote it. -/
theorem tiles_whole {s : Screen} (hs : s.FullAlpha) (tiling : ZrleTiling) :
    ∃ bytes, tiles s tiling 0 0 s.width s.height .rgbx32 = .ok bytes ∧
      Denotes RgbCPixel s.width.toNat s.height.toNat bytes s.rgba := by
  have hx : (0 : UInt16).toNat + s.width.toNat ≤ s.width.toNat := by rw [UInt16.toNat_zero]; omega
  have hy : (0 : UInt16).toNat + s.height.toNat ≤ s.height.toNat := by rw [UInt16.toNat_zero]; omega
  have hkeeps : PixelFormat.rgbx32.CpixelKeepsColour := by decide
  obtain ⟨bytes, px, hbytes, hden, hpx⟩ := tiles_denotes tiling (.inr (.inr rfl)) hkeeps hx hy
  obtain rfl : px = s.rgba := by
    refine eq_of_pixelAt hden.1 s.length_rgba fun i hi j hj => ?_
    have hsw := s.width.toNat_lt
    have hsh := s.height.toNat_lt
    have hi' : (UInt16.ofNat i).toNat = i := by rw [UInt16.toNat_ofNat']; omega
    have hj' : (UInt16.ofNat j).toNat = j := by rw [UInt16.toNat_ofNat']; omega
    have hiw : UInt16.ofNat i < s.width := by rw [UInt16.lt_iff_toNat_lt, hi']; exact hi
    have hjh : UInt16.ofNat j < s.height := by rw [UInt16.lt_iff_toNat_lt, hj']; exact hj
    obtain ⟨c, hc, ha, hbytes⟩ := hs.pixel hiw hjh
    obtain ⟨c', hc', hpixel⟩ := hpx (UInt16.ofNat i) (UInt16.ofNat j) hiw hjh
    rw [UInt16.zero_add, UInt16.zero_add, hc] at hc'
    obtain rfl := Option.some.inj hc'
    rw [hi', hj'] at hbytes hpixel
    rw [hpixel, toRgba_fromRgba ha, hbytes]
  exact ⟨bytes, hbytes, cpixel_rgbx32 ▸ hden⟩

/-! ## One input -/

/-- What the claim of a session asks of its inputs: the negotiated format,
screens that are opaque and of the size in force, and copies inside it. -/
def Input.Allowed {c : Compress} (srv : Server c) : Input → Prop
  | .message (.setPixelFormat f) => f = .rgbx32
  | .message _ => True
  | .directive (.setScreen screen) => screen.FullAlpha ∧ screen.width = srv.screen.width ∧
      screen.height = srv.screen.height
  | .directive (.copyRect srcX srcY dstX dstY w h) =>
      (srcX.toNat + w.toNat ≤ srv.screen.width.toNat ∧
        srcY.toNat + h.toNat ≤ srv.screen.height.toNat) ∧
      dstX.toNat + w.toNat ≤ srv.screen.width.toNat ∧
        dstY.toNat + h.toNat ≤ srv.screen.height.toNat
  | .directive .drop | .directive .shutdown => False
  | .directive _ => True

/-- The input sends the whole screen, or a new one. -/
def Input.paints : Input → Bool
  | .message (.updateRequest _ _ _ _ _) => true
  | .directive (.setScreen _) | .directive (.resize _ _) => true
  | _ => false

/-- The slice of an update's stream is under the client's limit. -/
def UpdateFits {c : Compress} (cfg : Builder) (srv : Server c) : Prop :=
  chooseEncoding cfg.encoding srv.advertised = encZrle → ∀ plain,
    tiles srv.screen srv.zrle.tiling 0 0 srv.screen.width srv.screen.height srv.fmt = .ok plain →
    (c.deflate srv.zrle.deflate plain).1.length ≤ maxZrlePayload

/-- What the server writes for the input is under the client's limits. -/
def Input.Fits {c : Compress} (cfg : Builder) (srv : Server c) : Input → Prop
  | .message (.updateRequest _ _ _ _ _) => UpdateFits cfg srv
  | .directive (.setScreen screen) => UpdateFits cfg { srv with screen }
  | .directive (.cutText text) => (toLatin1 text).length ≤ maxCutText
  | _ => True

/-! ## The simulation -/

section Simulation

variable {z : Decompress} {c : Compress} {plain : List UInt8 → Option (List UInt8)}

/-- The client is in step with the server: it holds a framebuffer of the
screen's size and has taken the whole stream, and once `synced` it shows the
screen. -/
structure InStep (z : Decompress) (plain : List UInt8 → Option (List UInt8)) (srv : Server c)
    (s : List UInt8) (synced : Prop) (fb : Framebuffer) (st : z.State) : Prop where
  format : srv.fmt = .rgbx32
  alpha : srv.screen.FullAlpha
  keeps : KeepsUp z plain (srv.screen.width, srv.screen.height) s fb st
  stream : ∃ data, Deflated c srv.zrle.deflate s data
  same : synced → fb.rgba = srv.screen.rgba

/-- What was written are messages that take the client along. -/
def Served (z : Decompress) (plain : List UInt8 → Option (List UInt8))
    (out : List UInt8 × Server c) (synced : Prop) (fb : Framebuffer) (st : z.State) : Prop :=
  ∃ ms s fb' st', out.1 = ms.flatMap Message.encode ∧ (∀ m ∈ ms, m.Serial .rgbx32) ∧
    InStep z plain out.2 s synced fb' st' ∧
    ∀ (continuous : Bool) (d : Decoders z) (i : Inner), d.format = .rgbx32 → d.zrle = st →
      i.state.fb = fb → ∃ d' i', applyMessages continuous ms d i = .ok (d', i') ∧
        d'.format = .rgbx32 ∧ d'.zrle = st' ∧ i'.state.fb = fb'

variable {srv : Server c} {s : List UInt8} {synced : Prop} {fb : Framebuffer} {st : z.State}

/-- Nothing was written. -/
theorem served_nothing {srv' : Server c} (h : InStep z plain srv' s synced fb st) :
    Served z plain ([], srv') synced fb st :=
  ⟨[], s, fb, st, rfl, by simp, h, fun _ d i hf hst hfb => ⟨d, i, rfl, hf, hst, hfb⟩⟩

/-- A message without rects was written. -/
theorem served_quiet {srv' : Server c} (h : InStep z plain srv' s synced fb st) {m : Message}
    (hserial : m.Serial .rgbx32) (happly : ∀ (continuous : Bool) (d : Decoders z) (i : Inner),
      ∃ i', m.apply continuous d i = .ok (d, i') ∧ i'.state.fb = i.state.fb) :
    Served z plain (m.encode, srv') synced fb st := by
  refine ⟨[m], s, fb, st, (List.flatMap_singleton ..).symm, by simpa using hserial, h, ?_⟩
  intro continuous d i hf hst hfb
  obtain ⟨i', hm, hfb'⟩ := happly continuous d i
  exact ⟨d, i', by rw [applyMessages, hm]; rfl, hf, hst, hfb'.trans hfb⟩

/-- An update of one rect was written. -/
theorem served_rect {srv' : Server c} {r : Rect} {s' : List UInt8} {fb' : Framebuffer}
    {st' : z.State} (hserial : r.Serial .rgbx32)
    (hdec : r.decode .rgbx32 (fb, st) = .ok (fb', st'))
    (h : InStep z plain srv' s' synced fb' st') :
    Served z plain (updateHeader 1 ++ rectHeader r.x r.y r.w r.h r.body.encoding ++ r.body.payload,
      srv') synced fb st := by
  refine ⟨[.update 0 [r]], s', fb', st', ?_, ?_, h, ?_⟩
  · simp only [List.flatMap_cons, List.flatMap_nil, List.append_nil, Message.encode, Rect.encode,
      updateHeader, rectHeader, List.append_assoc]
    rfl
  · refine List.forall_mem_singleton.mpr ⟨by simp, List.forall_mem_singleton.mpr hserial⟩
  · intro continuous d i hf hst hfb
    have happly : ∃ d' i', applyMessages continuous [.update 0 [r]] d i = .ok (d', i') ∧
        d'.format = d.format ∧ d'.zrle = st' ∧ i'.state.fb = fb' :=
      apply_single (by rw [hf, hst, hfb]; exact hdec)
    rwa [hf] at happly

theorem chooseEncoding_cases (encoding : Encoding) (advertised : List Int32) :
    chooseEncoding encoding advertised = encZrle ∨ chooseEncoding encoding advertised = encRaw := by
  cases encoding with
  | raw => exact .inr rfl
  | zrle => exact .inl rfl
  | negotiated =>
      rw [chooseEncoding]
      cases hfind : advertised.find? fun e => e = encZrle ∨ e = encRaw with
      | none => exact .inr rfl
      | some e => simpa using List.find?_some hfind

theorem framebufferUpdate_zrle {cfg : Builder} {bytes : List UInt8}
    (henc : chooseEncoding cfg.encoding srv.advertised = encZrle)
    (htiles : tiles srv.screen srv.zrle.tiling 0 0 srv.screen.width srv.screen.height srv.fmt
      = .ok bytes) :
    let slice := c.deflate srv.zrle.deflate bytes
    framebufferUpdate cfg srv = .ok (updateHeader 1 ++
      rectHeader 0 0 srv.screen.width srv.screen.height encZrle ++
        (be32 (UInt32.ofNat slice.1.length) ++ slice.1),
      { srv with zrle := { srv.zrle with deflate := slice.2 } }) := by
  simp only [framebufferUpdate, henc, ↓reduceIte, ZrleWriter.rect, htiles]
  rfl

theorem framebufferUpdate_raw {cfg : Builder}
    (henc : chooseEncoding cfg.encoding srv.advertised = encRaw) :
    framebufferUpdate cfg srv = .ok (updateHeader 1 ++
      rectHeader 0 0 srv.screen.width srv.screen.height encRaw ++
        rawRect srv.screen 0 0 srv.screen.width srv.screen.height srv.fmt, srv) := by
  have hne : ¬ encRaw = encZrle := by decide
  simp only [framebufferUpdate, henc, if_neg hne]
  rfl

/-- **An update carries the whole screen.** -/
theorem framebufferUpdate_spec (hz : Inflates z plain) (hc : Lossless c plain) (cfg : Builder)
    (h : InStep z plain srv s synced fb st) (hfits : UpdateFits cfg srv) :
    ∃ out, framebufferUpdate cfg srv = .ok out ∧ Served z plain out True fb st ∧
      out.2.screen = srv.screen := by
  obtain ⟨hf, halpha, hk, ⟨data, hdata⟩, -⟩ := h
  have hsize : fb.width = srv.screen.width ∧ fb.height = srv.screen.height := by
    simpa using hk.size
  have hwhole : ∀ {out : List UInt8} {src : Nat → Nat → List UInt8},
      Drawn fb.width.toNat fb.rgba out 0 0 srv.screen.width.toNat srv.screen.height.toNat src →
      (∀ i < srv.screen.width.toNat, ∀ j < srv.screen.height.toNat,
        src i j = pixelAt srv.screen.rgba srv.screen.width.toNat i j) → out = srv.screen.rgba := by
    intro out src hd hsrc
    have hlen := hk.wellFormed.length
    rw [hsize.1, hsize.2] at hlen
    rw [hsize.1] at hd
    exact drawn_whole hlen srv.screen.length_rgba hd hsrc
  have hin : ∀ body : RectBody, (⟨0, 0, srv.screen.width, srv.screen.height, body⟩ : Rect).Inside
      (srv.screen.width, srv.screen.height) := fun _ =>
    ⟨(Nat.zero_add _).le, (Nat.zero_add _).le⟩
  rcases chooseEncoding_cases cfg.encoding srv.advertised with henc | henc
  · obtain ⟨tileBytes, htiles, hden⟩ := tiles_whole halpha srv.zrle.tiling
    have hcap := hfits henc tileBytes (by rw [hf]; exact htiles)
    have hnext := hdata.slice tileBytes
    obtain ⟨out, st', hdec, hkeeps, hdrawn⟩ :=
      decode_zrle hz hk (hin _) hcap (hc hdata) (hc hnext) hden
    refine ⟨_, framebufferUpdate_zrle henc (by rw [hf]; exact htiles), ?_, rfl⟩
    have hstep : InStep z plain { srv with zrle := { srv.zrle with
        deflate := (c.deflate srv.zrle.deflate tileBytes).2 } } _ True { fb with rgba := out } st' :=
      ⟨hf, halpha, hkeeps, ⟨_, hnext⟩, fun _ => hwhole hdrawn fun _ _ _ _ => rfl⟩
    exact served_rect (r := ⟨0, 0, srv.screen.width, srv.screen.height, .zrle _⟩)
      (Nat.lt_of_le_of_lt hcap (by decide)) hdec hstep
  · have hlen := length_rawRect srv.screen 0 0 srv.screen.width srv.screen.height
    obtain ⟨out, hdec, hkeeps, hdrawn⟩ := decode_raw hk (hin _) hlen
    refine ⟨_, framebufferUpdate_raw henc, ?_, rfl⟩
    rw [hf]
    have hstep : InStep z plain srv s True { fb with rgba := out } st :=
      ⟨hf, halpha, hkeeps, ⟨_, hdata⟩, fun _ =>
        hwhole hdrawn fun i hi j hj => rawPixel_rawRect halpha hi hj⟩
    exact served_rect (r := ⟨0, 0, srv.screen.width, srv.screen.height, .raw _⟩) hlen hdec hstep

/-- The server's copy and the client's draw the same pixels. -/
theorem copyRect_spec (h : InStep z plain srv s synced fb st)
    {srcX srcY dstX dstY w ht : UInt16}
    (hsx : srcX.toNat + w.toNat ≤ srv.screen.width.toNat)
    (hsy : srcY.toNat + ht.toNat ≤ srv.screen.height.toNat)
    (hdx : dstX.toNat + w.toNat ≤ srv.screen.width.toNat)
    (hdy : dstY.toNat + ht.toNat ≤ srv.screen.height.toNat) :
    ∃ screen, blit srv.screen srcX srcY dstX dstY w ht = .ok screen ∧
      Served z plain (updateHeader 1 ++ rectHeader dstX dstY w ht encCopyRect ++
        copyRectPayload srcX srcY, { srv with screen }) synced fb st := by
  obtain ⟨hf, halpha, hk, hstream, hsame⟩ := h
  have hsize : fb.width = srv.screen.width ∧ fb.height = srv.screen.height := by
    simpa using hk.size
  obtain ⟨screen, hblit, ⟨hwidth, hheight⟩, hdrawn⟩ := blit_spec srv.screen hsx hsy hdx hdy
  obtain ⟨out, hdec, hkeeps, hdrawn'⟩ := decode_copyRect hk ⟨hdx, hdy⟩ hsx hsy
  refine ⟨screen, hblit, served_rect (r := ⟨dstX, dstY, w, ht, .copyRect srcX srcY⟩) trivial hdec
    ⟨hf, ?_, ?_, hstream, fun hs => ?_⟩⟩
  · intro i hi j hj
    show (pixelAt screen.rgba screen.width.toNat i j)[3]? = some 255
    simp only [hwidth, hheight] at hi hj ⊢
    rw [hdrawn.2 i hi j]
    split
    · exact halpha _ (by omega) _ (by omega)
    · exact halpha i hi j hj
  · simp only [hwidth, hheight]
    exact hkeeps
  · rw [hsize.1, hsame hs] at hdrawn'
    exact (hdrawn'.eq srv.screen.length_rgba hdrawn fun _ _ _ _ => rfl :)

/-- A resize leaves both with a black screen. -/
theorem resize_spec (h : InStep z plain srv s synced fb st) (w ht : UInt16) :
    Served z plain (updateHeader 1 ++ rectHeader 0 0 w ht encDesktopSize,
      { srv with screen := .solid w ht Rfb.black }) True fb st := by
  obtain ⟨hf, -, hk, hstream, -⟩ := h
  have hstep : InStep z plain { srv with screen := .solid w ht Rfb.black } s True (.black w ht) st :=
    ⟨hf, (black_wellFormed w ht).alpha, hk.resized w ht, hstream, fun _ => rfl⟩
  have hdec : (⟨0, 0, w, ht, .desktopSize⟩ : Rect).decode .rgbx32 (fb, st)
      = .ok (.black w ht, st) := rfl
  have hserial : (⟨0, 0, w, ht, .desktopSize⟩ : Rect).Serial .rgbx32 := trivial
  have hserved := served_rect hserial hdec hstep
  rwa [RectBody.payload, List.append_nil] at hserved

theorem InStep.mono {synced' : Prop} (h : InStep z plain srv s synced fb st)
    (hs : synced' → synced) : InStep z plain srv s synced' fb st :=
  { h with same := fun h' => h.same (hs h') }

theorem Served.mono {out : List UInt8 × Server c} {synced' : Prop}
    (h : Served z plain out synced fb st) (hs : synced' → synced) :
    Served z plain out synced' fb st := by
  obtain ⟨ms, s, fb', st', hout, hserial, hstep, happly⟩ := h
  exact ⟨ms, s, fb', st', hout, hserial, hstep.mono hs, happly⟩

/-- **One input**: the server does not panic, and what it writes takes the
client along. -/
theorem serveInput_spec (hz : Inflates z plain) (hc : Lossless c plain) {cfg : Builder}
    {input : Input} (h : InStep z plain srv s synced fb st) (hallowed : input.Allowed srv)
    (hfits : input.Fits cfg srv) :
    ∃ out, serveInput cfg srv input = .ok (some out) ∧
      Served z plain out (synced ∨ input.paints = true) fb st := by
  have hquiet : (synced ∨ false = true) → synced := by simp
  cases input with
  | message event =>
      cases event with
      | setPixelFormat f =>
          obtain rfl : f = .rgbx32 := hallowed
          exact ⟨_, rfl, served_nothing ⟨rfl, h.alpha, h.keeps, h.stream, fun hs => h.same (hquiet hs)⟩⟩
      | setEncodings list =>
          exact ⟨_, rfl, served_nothing
            ⟨h.format, h.alpha, h.keeps, h.stream, fun hs => h.same (hquiet hs)⟩⟩
      | updateRequest incremental x y w ht =>
          obtain ⟨out, hout, hserved, -⟩ := framebufferUpdate_spec hz hc cfg h hfits
          refine ⟨out, ?_, hserved.mono fun _ => trivial⟩
          rw [serveInput, hout]
          rfl
      | pointer x y buttons => exact ⟨_, rfl, served_nothing (h.mono hquiet)⟩
      | key keysym down => exact ⟨_, rfl, served_nothing (h.mono hquiet)⟩
      | cutText text => exact ⟨_, rfl, served_nothing (h.mono hquiet)⟩
  | directive d =>
      cases d with
      | setScreen screen =>
          obtain ⟨halpha, hwidth, hheight⟩ := hallowed
          have hnew : InStep z plain { srv with screen } s False fb st :=
            ⟨h.format, halpha, by simp only [hwidth, hheight]; exact h.keeps, h.stream,
              False.elim⟩
          obtain ⟨out, hout, hserved, -⟩ := framebufferUpdate_spec hz hc cfg hnew hfits
          refine ⟨out, ?_, hserved.mono fun _ => trivial⟩
          show some <$> applyOnline cfg srv (.setScreen screen) = _
          rw [applyOnline, hout]
          rfl
      | cutText text =>
          refine ⟨_, rfl, (served_quiet (m := .cutText (0, 0, 0) (toLatin1 text)) h
            (Nat.lt_of_le_of_lt hfits (by decide)) fun continuous d i => ?_).mono hquiet⟩
          exact ⟨_, if_neg (Nat.not_lt.mpr hfits), rfl⟩
      | bell =>
          exact ⟨_, rfl, (served_quiet (m := .bell) h trivial fun continuous d i =>
            ⟨_, rfl, rfl⟩).mono hquiet⟩
      | resize w ht => exact ⟨_, rfl, (resize_spec h w ht).mono fun _ => trivial⟩
      | copyRect srcX srcY dstX dstY w ht =>
          obtain ⟨⟨hsx, hsy⟩, hdx, hdy⟩ := hallowed
          obtain ⟨screen, hblit, hserved⟩ := copyRect_spec h hsx hsy hdx hdy
          refine ⟨_, ?_, hserved.mono hquiet⟩
          show some <$> applyOnline cfg srv (.copyRect srcX srcY dstX dstY w ht) = _
          rw [applyOnline, hblit]
          rfl
      | drop => exact hallowed.elim
      | shutdown => exact hallowed.elim

/-! ## A whole session -/

/-- `P` holds of every input in the state the server takes it in. -/
def Each (cfg : Builder) (P : Server c → Input → Prop) : List Input → Server c → Prop
  | [], _ => True
  | input :: inputs, srv => P srv input ∧
      ∀ out, serveInput cfg srv input = .ok (some out) → Each cfg P inputs out.2

/-- **Any number of inputs.** -/
theorem serve_spec (hz : Inflates z plain) (hc : Lossless c plain) {cfg : Builder} :
    ∀ {inputs : List Input} {srv : Server c} {s : List UInt8} {synced : Prop} {fb : Framebuffer}
      {st : z.State}, InStep z plain srv s synced fb st →
    Each cfg (fun srv input => input.Allowed srv ∧ input.Fits cfg srv) inputs srv →
    ∃ out, serve cfg inputs srv = .ok out ∧
      Served z plain out (synced ∨ inputs.any Input.paints = true) fb st
  | [], srv, s, synced, fb, st, h, _ =>
      ⟨_, rfl, served_nothing (h.mono (by simp))⟩
  | input :: inputs, srv, s, synced, fb, st, h, heach => by
      obtain ⟨⟨hallowed, hfits⟩, hrest⟩ := heach
      obtain ⟨first, hfirst, ms, s', fb', st', hbytes, hserial, hstep, happly⟩ :=
        serveInput_spec hz hc h hallowed hfits
      obtain ⟨rest, hserve, ms', s'', fb'', st'', hbytes', hserial', hstep', happly'⟩ :=
        serve_spec hz hc hstep (hrest first hfirst)
      refine ⟨(first.1 ++ rest.1, rest.2), ?_, ms ++ ms', s'', fb'', st'', ?_, ?_, ?_, ?_⟩
      · rw [serve, hfirst, ok_bind]
        dsimp only
        rw [hserve]
        rfl
      · rw [List.flatMap_append, hbytes, hbytes']
      · exact List.forall_mem_append.mpr ⟨hserial, hserial'⟩
      · refine hstep'.mono ?_
        rw [List.any_cons, Bool.or_eq_true, or_assoc]
        exact id
      · intro continuous d i hf hst hfb
        obtain ⟨d₁, i₁, hfst, hf₁, hst₁, hfb₁⟩ := happly continuous d i hf hst hfb
        rw [applyMessages_append, hfst, ok_bind]
        exact happly' continuous d₁ i₁ hf₁ hst₁ hfb₁

end Simulation

/-! ## The client at the end of what the server wrote -/

/-- A client that connected to `cfg` can read messages to the very end of
`bytes`, and then holds `fb`. -/
def ReadsAll (z : Decompress) (cfg : Builder) (continuous : Bool) (name : String) (ending : Ending)
    (timeout : Duration) (armed : Bool) (bytes : List UInt8) (fb : Framebuffer) : Prop :=
  ∃ n d w, (readMessages continuous n (Decoders.new z)).run (exec ending timeout)
      ⟨bytes, armed, .new cfg.screen.width cfg.screen.height name⟩ = (.ok d, w) ∧
    w.input = [] ∧ w.inner.state.fb = fb

/-- A framebuffer with the bytes of a screen shows it. -/
theorem pixel_eq_of_rgba {fb : Framebuffer} {screen : Screen} (hw : fb.width = screen.width)
    (hh : fb.height = screen.height) (hrgba : fb.rgba = screen.rgba) (x y : UInt16) :
    fb.pixel x y = .ok (screen.pixel x y) := by
  rw [Framebuffer.pixel, Screen.pixel, hw, hh, hrgba]
  by_cases hout : x ≥ screen.width ∨ y ≥ screen.height
  · rw [if_pos hout, if_pos hout]
  · obtain ⟨hx, hy⟩ := not_or.mp hout
    obtain ⟨c, -, hbytes⟩ := screen.pixel_eq (UInt16.not_le.mp hx) (UInt16.not_le.mp hy)
    rw [if_neg hout, if_neg hout, hbytes]
    rfl

/-- **The client shows what the server shows.** Over any inputs within the
client's limits the server does not panic, the client reads everything it
wrote, and then has a framebuffer of the screen's size; if the screen began
black, or an input sent all of it, every pixel is the screen's. -/
theorem client_shows_screen {z : Decompress} {c : Compress}
    {plain : List UInt8 → Option (List UInt8)} (hz : Inflates z plain) (hc : Lossless c plain)
    {cfg : Builder} (halpha : cfg.screen.FullAlpha) {inputs : List Input}
    (hinputs : Each cfg (fun srv input => input.Allowed srv ∧ input.Fits cfg srv) inputs
      (Server.new c cfg))
    (continuous : Bool) (name : String) (ending : Ending) (timeout : Duration) (armed : Bool) :
    ∃ bytes srv, serve cfg inputs (Server.new c cfg) = .ok (bytes, srv) ∧
      (∃ fb, ReadsAll z cfg continuous name ending timeout armed bytes fb) ∧
      ∀ fb, ReadsAll z cfg continuous name ending timeout armed bytes fb →
        fb.width = srv.screen.width ∧ fb.height = srv.screen.height ∧
        (cfg.screen.rgba = (Framebuffer.black cfg.screen.width cfg.screen.height).rgba ∨
            inputs.any Input.paints = true →
          ∀ x y, fb.pixel x y = .ok (srv.screen.pixel x y)) := by
  have hnew : InStep z plain (Server.new c cfg) []
      (cfg.screen.rgba = (Framebuffer.black cfg.screen.width cfg.screen.height).rgba)
      (.black cfg.screen.width cfg.screen.height) z.new :=
    ⟨rfl, halpha, keepsUp_new hz _ _, ⟨[], .new⟩, fun h => h.symm⟩
  obtain ⟨⟨bytes, srv⟩, hserve, ms, s, fb', st', rfl, hserial, hstep, happly⟩ :=
    serve_spec hz hc hnew hinputs
  obtain ⟨d', i', hall, -, -, hfb⟩ := happly continuous (Decoders.new z)
    (.new cfg.screen.width cfg.screen.height name) rfl rfl rfl
  have hruns := readMessages_runs continuous ms (Decoders.new z)
    (.new cfg.screen.width cfg.screen.height name) hserial
  rw [hall] at hruns
  obtain ⟨armed', hrun⟩ := hruns ending timeout armed []
  rw [List.append_nil] at hrun
  refine ⟨_, srv, hserve, ⟨_, _, d', _, hrun, rfl, rfl⟩, ?_⟩
  rintro fb ⟨n, d₁, w₁, hrun₁, hend, rfl⟩
  obtain rfl := readMessages_unique hrun hrun₁ rfl hend
  cases hrun.symm.trans hrun₁
  simp only [hfb]
  obtain ⟨hwidth, hheight⟩ : fb'.width = srv.screen.width ∧ fb'.height = srv.screen.height := by
    simpa using hstep.keeps.size
  exact ⟨hwidth, hheight, fun hsync => pixel_eq_of_rgba hwidth hheight (hstep.same hsync)⟩

/-! ## A codec that exists -/

/-- The deflater that stores. -/
def storing : Compress where
  State := Bool
  new := false
  deflate started data := (storedSlice started data, true)

theorem lossless_storing : Lossless storing (fun bytes => some (storedPlain bytes)) := by
  -- the stream is the header and the blocks of every slice
  have hstream : ∀ {s bytes data}, Deflated storing s bytes data →
      (s = false ∧ bytes = [] ∧ data = []) ∨ (s = true ∧ ∃ datas : List (List UInt8),
        bytes = zlibHeader ++ datas.flatMap (fun d => (storedChunks d).flatMap storedBlock) ∧
        data = datas.flatten) := by
    intro s bytes data h
    induction h with
    | new => exact .inl ⟨rfl, rfl, rfl⟩
    | slice more _ ih =>
        right
        rcases ih with ⟨rfl, rfl, rfl⟩ | ⟨rfl, datas, rfl, rfl⟩
        · exact ⟨rfl, [more], by simp [storing, storedSlice], by simp⟩
        · exact ⟨rfl, datas ++ [more], by simp [storing, storedSlice], by simp⟩
  intro s bytes data h
  rcases hstream h with ⟨-, rfl, rfl⟩ | ⟨-, datas, rfl, rfl⟩
  · rfl
  · have hchunks := storedFrom_chunks datas []
    rw [List.append_nil, storedFrom, List.append_nil] at hchunks
    exact congrArg some hchunks

/-- A session of raw updates: a new screen, a resize, a clipboard, a bell. -/
theorem client_shows_screen_raw :
    let cfg : Builder := ⟨.raw, .solid 1 1 ⟨255, 0, 0, 255⟩, .auto⟩
    let inputs : List Input := [.directive (.setScreen (.solid 1 1 ⟨0, 255, 0, 255⟩)),
      .directive (.resize 2 1), .directive (.cutText "h"), .directive .bell,
      .message (.updateRequest true 0 0 2 1)]
    ∃ bytes srv, serve cfg inputs (Server.new storing cfg) = .ok (bytes, srv) ∧
      ∀ fb, ReadsAll stored cfg true "d" .closed 0 false bytes fb →
        ∀ x y, fb.pixel x y = .ok (srv.screen.pixel x y) := by
  intro cfg inputs
  have hne : ¬ encRaw = encZrle := by decide
  have hraw : ∀ srv : Server storing, UpdateFits cfg srv := fun srv h => absurd h hne
  have hshort : (toLatin1 "h").length ≤ maxCutText := by decide
  have hinputs : Each cfg (fun srv input => input.Allowed srv ∧ input.Fits cfg srv) inputs
      (Server.new storing cfg) :=
    ⟨⟨⟨by decide, rfl, rfl⟩, hraw _⟩, fun _ _ => ⟨⟨trivial, trivial⟩, fun _ _ =>
      ⟨⟨trivial, hshort⟩, fun _ _ => ⟨⟨trivial, trivial⟩, fun _ _ =>
        ⟨⟨trivial, hraw _⟩, fun _ _ => trivial⟩⟩⟩⟩⟩
  obtain ⟨bytes, srv, hserve, -, hshows⟩ := client_shows_screen inflates_stored lossless_storing
    (by decide) hinputs true "d" .closed 0 false
  exact ⟨bytes, srv, hserve, fun fb hfb => (hshows fb hfb).2.2 (.inr rfl)⟩

/-- A bell is not a screen: a client that was sent nothing else still shows
black. -/
theorem not_shows_screen_bell : ¬ ∀ (z : Decompress) (c : Compress)
    (plain : List UInt8 → Option (List UInt8)), Inflates z plain → Lossless c plain →
    ∀ (cfg : Builder) (inputs : List Input),
    Each cfg (fun srv input => input.Allowed srv) inputs (Server.new c cfg) →
    ∀ (bytes : List UInt8) (srv : Server c), serve cfg inputs (Server.new c cfg) = .ok (bytes, srv) →
    ∀ (continuous : Bool) (name : String) (ending : Ending) (timeout : Duration) (armed : Bool)
      (fb : Framebuffer), ReadsAll z cfg continuous name ending timeout armed bytes fb →
    fb.width = srv.screen.width ∧ fb.height = srv.screen.height ∧
      ∀ x y, fb.pixel x y = .ok (srv.screen.pixel x y) := by
  intro hall
  let cfg : Builder := ⟨.raw, .solid 1 1 ⟨255, 0, 0, 255⟩, .auto⟩
  have hreads : ReadsAll stored cfg false "" .closed 0 false [ServerMsg.bell] (.black 1 1) :=
    ⟨1, _, _, rfl, rfl, rfl⟩
  have hshows := hall stored storing _ inflates_stored lossless_storing cfg [.directive .bell]
    ⟨trivial, fun _ _ => trivial⟩ _ _ rfl false "" .closed 0 false _ hreads
  exact absurd (hshows.2.2 0 0) (by decide)

end Bolide.Testkit
