/-
Bolide.Rfb.FramebufferTheorems — what every drawing operation does, pixel
by pixel.

`Drawn` says it once: the rect's pixels come from a source and every other
pixel is as it was. Each of the three operations is shown to be a `Drawn`
with its own source, or a protocol error, and never a panic; a framebuffer
that is well formed (its length is right, its alpha is 255) therefore stays
so.
-/
import Bolide.Rfb.Framebuffer

namespace Bolide.Rfb

open Lib

/-! ## Well-formedness -/

/-- The representation a framebuffer promises in its doc comment. -/
structure Framebuffer.WellFormed (fb : Framebuffer) : Prop where
  length : fb.rgba.length = fb.width.toNat * fb.height.toNat * 4
  alpha : ∀ x < fb.width.toNat, ∀ y < fb.height.toNat,
    (pixelAt fb.rgba fb.width.toNat x y)[3]? = some 255

/-- Record `i` of the bytes of a list of pixels is pixel `i`. -/
theorem record_pixelBytes {px : List Rgba} {i : Nat} (hi : i < px.length) :
    record 4 (pixelBytes px) i = px[i].bytes := by
  rw [pixelBytes, List.flatMap_def, record_flatten (by simp) (by rwa [List.length_map]),
    List.getElem_map]

/-- Every pixel of a black framebuffer is black. -/
theorem pixelAt_black {w h : UInt16} {x y : Nat} (hx : x < w.toNat) (hy : y < h.toNat) :
    pixelAt (Framebuffer.black w h).rgba w.toNat x y = black.bytes := by
  have hi : y * w.toNat + x < (List.replicate (w.toNat * h.toNat) black).length := by
    rw [List.length_replicate]
    exact index_lt hx hy
  rw [pixelAt, Framebuffer.black, record_pixelBytes hi, List.getElem_replicate]

theorem black_wellFormed (w h : UInt16) : (Framebuffer.black w h).WellFormed where
  length := by
    show (pixelBytes _).length = w.toNat * h.toNat * 4
    rw [length_pixelBytes, List.length_replicate]
    omega
  alpha := fun x hx y hy => by
    have hpx : pixelAt (Framebuffer.black w h).rgba w.toNat x y = black.bytes :=
      pixelAt_black hx hy
    show (pixelAt (Framebuffer.black w h).rgba w.toNat x y)[3]? = some 255
    rw [hpx]
    rfl

/-- A pixel on the screen is there to be read. -/
theorem Framebuffer.WellFormed.pixel {fb : Framebuffer} (hfb : fb.WellFormed) {x y : UInt16}
    (hx : x < fb.width) (hy : y < fb.height) :
    ∃ c, fb.pixel x y = .ok (some c) ∧ c.a = 255 ∧
      pixelAt fb.rgba fb.width.toNat x.toNat y.toNat = c.bytes := by
  have hx' : x.toNat < fb.width.toNat := hx
  have hy' : y.toNat < fb.height.toNat := hy
  have hi : y.toNat * fb.width.toNat + x.toNat < fb.width.toNat * fb.height.toNat :=
    index_lt hx' hy'
  have hlen : (pixelAt fb.rgba fb.width.toNat x.toNat y.toNat).length = 4 := by
    have := hfb.length
    exact length_record (by omega)
  obtain ⟨c, hpx⟩ := Rgba.exists_bytes hlen
  have ha := hfb.alpha _ hx' _ hy'
  rw [hpx] at ha
  refine ⟨c, ?_, Option.some_inj.mp ha, hpx⟩
  have hoff : ¬ (x ≥ fb.width ∨ y ≥ fb.height) := by
    rw [ge_iff_le, ge_iff_le, UInt16.le_iff_toNat_le, UInt16.le_iff_toNat_le]
    omega
  rw [Framebuffer.pixel, if_neg hoff, hpx]
  rfl

/-! ## Drawing -/

/-- The rect `(x, y, w, h)` of an image of width `width` now shows `src`,
by the column and row inside the rect; nothing else changed. -/
def Drawn (width : Nat) (old new : List UInt8) (x y w h : Nat) (src : Nat → Nat → List UInt8) :
    Prop :=
  new.length = old.length ∧ ∀ i < width, ∀ j, pixelAt new width i j
    = if (x ≤ i ∧ i < x + w) ∧ y ≤ j ∧ j < y + h then src (i - x) (j - y)
      else pixelAt old width i j

/-- An opaque source leaves a well-formed framebuffer well formed. -/
theorem Drawn.wellFormed {fb : Framebuffer} {rgba : List UInt8} {x y w h : Nat}
    {src : Nat → Nat → List UInt8} (hfb : fb.WellFormed)
    (hd : Drawn fb.width.toNat fb.rgba rgba x y w h src)
    (hsrc : ∀ i < w, ∀ j < h, (src i j)[3]? = some 255) :
    ({ fb with rgba } : Framebuffer).WellFormed where
  length := hd.1.trans hfb.length
  alpha := fun i hi j hj => by
    show (pixelAt rgba fb.width.toNat i j)[3]? = some 255
    rw [hd.2 i hi j]
    split
    · exact hsrc _ (by omega) _ (by omega)
    · exact hfb.alpha i hi j hj

/-- Images of one size that agree pixel by pixel are equal. -/
theorem eq_of_pixelAt {width height : Nat} {px px' : List UInt8}
    (hlen : px.length = width * height * 4) (hlen' : px'.length = width * height * 4)
    (h : ∀ i < width, ∀ j < height, pixelAt px width i j = pixelAt px' width i j) : px = px' := by
  refine eq_of_record (k := 4) (n := width * height) (by omega) (by omega) fun n hn => ?_
  have hwidth : 0 < width := Nat.pos_of_ne_zero fun h0 => by simp [h0] at hn
  have hpixel := h (n % width) (Nat.mod_lt n hwidth) (n / width) (Nat.div_lt_of_lt_mul hn)
  have hn' : n / width * width + n % width = n := Nat.div_add_mod' n width
  rwa [pixelAt, pixelAt, hn'] at hpixel

/-- A drawing is determined by what it draws on and what it shows. -/
theorem Drawn.eq {width height x y w h : Nat} {old new new' : List UInt8}
    {src src' : Nat → Nat → List UInt8} (hlen : old.length = width * height * 4)
    (hd : Drawn width old new x y w h src) (hd' : Drawn width old new' x y w h src')
    (hsrc : ∀ i < w, ∀ j < h, src i j = src' i j) : new = new' := by
  refine eq_of_pixelAt (hd.1.trans hlen) (hd'.1.trans hlen) fun i hi j _ => ?_
  rw [hd.2 i hi j, hd'.2 i hi j]
  split
  · exact hsrc _ (by omega) _ (by omega)
  · rfl

/-- A loop over the pixels of a rect each turn of which writes one pixel is a
drawing. `rgba` is the image in what the loop carries. -/
theorem pixelLoop_drawn {m : Type → Type} [Monad m] [LawfulMonad m] {S : Type}
    (rgba : S → List UInt8) (I : S → Prop) (f : Nat → Nat → S → m S) {width x y w h : Nat}
    {src : Nat → Nat → List UInt8} {s : S} (hs : I s)
    (hstep : ∀ row < h, ∀ col < w, ∀ s, I s → ∃ s', f row col s = pure s' ∧ I s' ∧
      (rgba s').length = (rgba s).length ∧ ∀ i < width, ∀ j, pixelAt (rgba s') width i j
        = if i = x + col ∧ j = y + row then src col row else pixelAt (rgba s) width i j) :
    ∃ s', (List.range h).foldlM (fun s row =>
        (List.range w).foldlM (fun s col => f row col s) s) s = pure s' ∧
      I s' ∧ Drawn width (rgba s) (rgba s') x y w h src := by
  -- the rows above `row` are drawn
  refine foldlM_range_pure _ (fun row s' => I s' ∧ Drawn width (rgba s) (rgba s') x y w row src) h
    s ⟨hs, rfl, fun i _ j => by rw [if_neg (by omega)]⟩ ?_
  rintro row hrow mid ⟨hmid, hmidlen, hrows⟩
  -- and of row `row`, the columns left of `col`
  obtain ⟨out, hout, hI, houtlen, hcols⟩ := foldlM_range_pure (fun s col => f row col s)
    (fun col out => I out ∧ (rgba out).length = (rgba mid).length ∧
      ∀ i < width, ∀ j, pixelAt (rgba out) width i j
        = if (x ≤ i ∧ i < x + col) ∧ j = y + row then src (i - x) row
          else pixelAt (rgba mid) width i j) w mid
    ⟨hmid, rfl, fun i _ j => by rw [if_neg (by omega)]⟩ (by
      rintro col hcol acc ⟨hacc, hacclen, haccpx⟩
      obtain ⟨out, hout, hI, houtlen, houtpx⟩ := hstep row hrow col hcol acc hacc
      refine ⟨out, hout, hI, houtlen.trans hacclen, fun i hi j => ?_⟩
      rw [houtpx i hi j, haccpx i hi j]
      by_cases hnew : i = x + col ∧ j = y + row
      · rw [if_pos hnew, if_pos (by omega), hnew.1, Nat.add_sub_cancel_left]
      · rw [if_neg hnew]
        by_cases hold : (x ≤ i ∧ i < x + col) ∧ j = y + row
        · rw [if_pos hold, if_pos (by omega)]
        · rw [if_neg hold, if_neg (by omega)])
  refine ⟨out, hout, hI, houtlen.trans hmidlen, fun i hi j => ?_⟩
  rw [hcols i hi j, hrows i hi j]
  by_cases hnew : (x ≤ i ∧ i < x + w) ∧ j = y + row
  · rw [if_pos hnew, if_pos (by omega), hnew.2, Nat.add_sub_cancel_left]
  · rw [if_neg hnew]
    by_cases hold : (x ≤ i ∧ i < x + w) ∧ y ≤ j ∧ j < y + row
    · rw [if_pos hold, if_pos (by omega)]
    · rw [if_neg hold, if_neg (by omega)]

theorem checkBounds_cases (fb : Framebuffer) (x y w h : UInt16) :
    (checkBounds fb x y w h = .ok () ∧ x.toNat + w.toNat ≤ fb.width.toNat ∧
        y.toNat + h.toNat ≤ fb.height.toNat) ∨
      ((fb.width.toNat < x.toNat + w.toNat ∨ fb.height.toNat < y.toNat + h.toNat) ∧
        ∃ e, checkBounds fb x y w h = .error e ∧ e.IsProtocol) := by
  rw [checkBounds]
  split
  · next hout => exact .inr ⟨by omega, _, rfl, trivial⟩
  · exact .inl ⟨rfl, by omega, by omega⟩

theorem checkBounds_ok {fb : Framebuffer} {x y w h : UInt16}
    (hx : x.toNat + w.toNat ≤ fb.width.toNat) (hy : y.toNat + h.toNat ≤ fb.height.toNat) :
    checkBounds fb x y w h = .ok () := if_neg (by omega)

/-- A copy of rows is a drawing. -/
theorem copyRows_drawn (src : List UInt8) (sw sx sy : Nat) {dst : List UInt8}
    {width height x y w h : Nat} (hdst : dst.length = width * height * 4) (hx : x + w ≤ width)
    (hy : y + h ≤ height) (hsrc : 4 * (sw * (sy + h)) ≤ src.length) (hsx : sx + w ≤ sw) :
    ∃ out, copyRows? 4 dst width x y src sw sx sy w h = some out ∧
      Drawn width dst out x y w h (fun i j => pixelAt src sw (sx + i) (sy + j)) := by
  have hdst' : dst.length = 4 * (width * height) := by omega
  obtain ⟨out, hcopy, hlen, hrec⟩ := copyRows?_spec hdst' hx hy hsrc hsx
  exact ⟨out, hcopy, hlen, hrec⟩

/-! ## Raw -/

/-- The colour of pixel `i` of a raw rect's bytes. -/
def rawPixel (format : PixelFormat) (data : List UInt8) (i : Nat) : Rgba :=
  let bpp := format.bytesPerPixel
  format.toRgba (format.readPixel ((data.drop (i * bpp)).take bpp))

/-- One pixel written at `(x, y)`. -/
theorem splice_pixel {acc : List UInt8} {width height x y : Nat} (c : Rgba)
    (hacc : acc.length = width * height * 4) (hx : x < width) (hy : y < height) :
    ∃ acc', splice? acc (y * (width * 4) + x * 4) (y * (width * 4) + x * 4 + 4) c.bytes
        = some acc' ∧ acc'.length = acc.length ∧
      ∀ i < width, ∀ j, pixelAt acc' width i j
        = if i = x ∧ j = y then c.bytes else pixelAt acc width i j := by
  have hoff : y * (width * 4) + x * 4 = 4 * (y * width + x) := by ring
  have hlt : y * width + x < width * height := index_lt hx hy
  have hlen : c.bytes.length = 4 * 1 := rfl
  refine ⟨splice acc (4 * (y * width + x)) c.bytes, ?_, ?_, fun i hi j => ?_⟩
  · rw [hoff]
    exact splice?_eq_some (by omega) (by omega) (by rw [hlen]; omega)
  · exact length_splice (by rw [hlen]; omega)
  · rw [pixelAt, record_splice hlen (by omega)]
    simp only [index_mem_run hi (show x + 1 ≤ width by omega)]
    by_cases hin : i = x ∧ j = y
    · obtain ⟨rfl, rfl⟩ := hin
      rw [if_pos ⟨rfl, by omega, by omega⟩, if_pos ⟨rfl, rfl⟩, Nat.sub_self]
      rfl
    · rw [if_neg (by omega), if_neg hin]
      rfl

theorem blitRawLoop_spec {rgba : List UInt8} {width height x y w h : Nat} {format : PixelFormat}
    {data : List UInt8} (hlen : rgba.length = width * height * 4) (hx : x + w ≤ width)
    (hy : y + h ≤ height) (hdata : w * h * format.bytesPerPixel ≤ data.length) :
    ∃ out, blitRawLoop rgba width x y w h format data = some out ∧
      Drawn width rgba out x y w h (fun i j => (rawPixel format data (j * w + i)).bytes) := by
  have hdrawn := pixelLoop_drawn (m := Option) (fun acc => acc)
    (fun acc => acc.length = width * height * 4)
    (fun row col acc => do
      let src := (row * w + col) * format.bytesPerPixel
      let wire ← slice? data src (src + format.bytesPerPixel)
      let px := format.toRgba (format.readPixel wire)
      let dst := (y + row) * (width * 4) + (x + col) * 4
      splice? acc dst (dst + 4) px.bytes) hlen fun row hrow col hcol acc hacc => by
    have hsrc : (row * w + col) * format.bytesPerPixel + format.bytesPerPixel ≤ data.length := by
      have hlt : row * w + col + 1 ≤ w * h := index_lt hcol hrow
      have := Nat.mul_le_mul_right format.bytesPerPixel hlt
      rw [Nat.add_mul, Nat.one_mul] at this
      omega
    obtain ⟨acc', hacc', hlen', hpx⟩ := splice_pixel (x := x + col) (y := y + row)
      (rawPixel format data (row * w + col)) hacc (by omega) (by omega)
    refine ⟨acc', ?_, hlen'.trans hacc, hlen', hpx⟩
    simp only [slice?_eq_some (Nat.le_add_right _ _) hsrc, Nat.add_sub_cancel_left,
      Option.bind_eq_bind, Option.bind_some]
    exact hacc'
  obtain ⟨out, hout, -, hdrawn⟩ := hdrawn
  exact ⟨out, hout, hdrawn⟩

/-- `blit_raw` draws the colours of the pixels it was given. -/
theorem blitRaw_spec {fb : Framebuffer}
    (hfb : fb.rgba.length = fb.width.toNat * fb.height.toNat * 4) {x y w h : UInt16}
    {format : PixelFormat} {data : List UInt8} (hx : x.toNat + w.toNat ≤ fb.width.toNat)
    (hy : y.toNat + h.toNat ≤ fb.height.toNat)
    (hlen : w.toNat * h.toNat * format.bytesPerPixel ≤ data.length) :
    ∃ out, blitRaw fb x y w h format data = .ok { fb with rgba := out } ∧
      Drawn fb.width.toNat fb.rgba out x.toNat y.toNat w.toNat h.toNat
        (fun i j => (rawPixel format data (j * w.toNat + i)).bytes) := by
  obtain ⟨out, hloop, hdrawn⟩ := blitRawLoop_spec hfb hx hy hlen
  refine ⟨out, ?_, hdrawn⟩
  simp only [blitRaw, checkBounds_ok hx hy, hloop, orPanic_some, ok_bind,
    if_neg (Nat.not_lt.mpr hlen)]
  rfl

/-! ## RGBA and CopyRect -/

/-- `blit_rgba` draws the pixels it was given. -/
theorem blitRgba_spec {fb : Framebuffer}
    (hfb : fb.rgba.length = fb.width.toNat * fb.height.toNat * 4) {x y w h : UInt16}
    {rgba : List UInt8} (hx : x.toNat + w.toNat ≤ fb.width.toNat)
    (hy : y.toNat + h.toNat ≤ fb.height.toNat) (hlen : w.toNat * h.toNat * 4 ≤ rgba.length) :
    ∃ out, blitRgba fb x y w h rgba = .ok { fb with rgba := out } ∧
      Drawn fb.width.toNat fb.rgba out x.toNat y.toNat w.toNat h.toNat
        (fun i j => pixelAt rgba w.toNat i j) := by
  obtain ⟨out, hcopy, hdrawn⟩ :=
    copyRows_drawn rgba w.toNat 0 0 hfb hx hy (by rw [Nat.zero_add]; omega) (by omega)
  refine ⟨out, ?_, ?_⟩
  · simp only [blitRgba, checkBounds_ok hx hy, hcopy, orPanic_some, ok_bind,
      if_neg (Nat.not_lt.mpr hlen)]
    rfl
  · simpa only [Nat.zero_add] using hdrawn

/-- `copy_rect` draws the pixels that were at the source, whatever the overlap. -/
theorem copyRect_spec {fb : Framebuffer}
    (hfb : fb.rgba.length = fb.width.toNat * fb.height.toNat * 4) {x y w h srcX srcY : UInt16}
    (hx : x.toNat + w.toNat ≤ fb.width.toNat) (hy : y.toNat + h.toNat ≤ fb.height.toNat)
    (hsx : srcX.toNat + w.toNat ≤ fb.width.toNat)
    (hsy : srcY.toNat + h.toNat ≤ fb.height.toNat) :
    ∃ out, copyRect fb x y w h srcX srcY = .ok { fb with rgba := out } ∧
      Drawn fb.width.toNat fb.rgba out x.toNat y.toNat w.toNat h.toNat
        (fun i j => pixelAt fb.rgba fb.width.toNat (srcX.toNat + i) (srcY.toNat + j)) := by
  have hall : 4 * (fb.width.toNat * (srcY.toNat + h.toNat)) ≤ fb.rgba.length := by
    have := Nat.mul_le_mul_left fb.width.toNat hsy
    have := hfb
    omega
  have hzero : (List.replicate (w.toNat * h.toNat * 4) (0 : UInt8)).length
      = w.toNat * h.toNat * 4 := List.length_replicate
  obtain ⟨scratch, hout, hscratch, hread⟩ := copyRows_drawn fb.rgba fb.width.toNat srcX.toNat
    srcY.toNat hzero (by omega : 0 + w.toNat ≤ w.toNat) (by omega : 0 + h.toNat ≤ h.toNat) hall hsx
  rw [List.length_replicate] at hscratch
  obtain ⟨out, hcopy, hlen, hdrawn⟩ :=
    copyRows_drawn scratch w.toNat 0 0 hfb hx hy (by rw [Nat.zero_add]; omega) (by omega)
  refine ⟨out, ?_, hlen, fun i hi j => ?_⟩
  · simp only [copyRect, checkBounds_ok hx hy, checkBounds_ok hsx hsy, hout, hcopy, orPanic_some,
      ok_bind]
    rfl
  · rw [hdrawn i hi j]
    split
    · next hin =>
        simp only [Nat.zero_add]
        rw [hread _ (by omega), if_pos (by omega), Nat.sub_zero, Nat.sub_zero]
    · rfl

/-! ## Whatever the server asks for -/

/-- A drawing operation ends well formed and at the same size, or refuses. -/
def Framebuffer.Safe (fb : Framebuffer) : Outcome Framebuffer → Prop
  | .ok fb' => fb'.WellFormed ∧ fb'.width = fb.width ∧ fb'.height = fb.height
  | .error e => e.IsProtocol

/-- A rect out of bounds is refused; only a rect inside has to be drawn safely. -/
theorem safe_of_checkBounds {fb : Framebuffer} {x y w h : UInt16} {f : Unit → Outcome Framebuffer}
    (hf : x.toNat + w.toNat ≤ fb.width.toNat → y.toNat + h.toNat ≤ fb.height.toNat →
      fb.Safe (f ())) : fb.Safe (checkBounds fb x y w h >>= f) := by
  rcases checkBounds_cases fb x y w h with ⟨hok, hx, hy⟩ | ⟨-, e, herr, he⟩
  · rw [hok, ok_bind]
    exact hf hx hy
  · rw [herr, error_bind]
    exact he

theorem blitRaw_safe {fb : Framebuffer} (hfb : fb.WellFormed) (x y w h : UInt16)
    (format : PixelFormat) (data : List UInt8) : fb.Safe (blitRaw fb x y w h format data) := by
  refine safe_of_checkBounds fun hx hy => ?_
  by_cases hlen : data.length < w.toNat * h.toNat * format.bytesPerPixel
  · simp only [if_pos hlen]
    trivial
  · obtain ⟨out, hloop, hdrawn⟩ := blitRawLoop_spec hfb.length hx hy (Nat.not_lt.mp hlen)
    simp only [if_neg hlen, hloop, orPanic_some, ok_bind]
    exact ⟨hdrawn.wellFormed hfb fun _ _ _ _ => rfl, rfl, rfl⟩

/-- `blit_rgba` is safe for opaque pixels. -/
theorem blitRgba_safe {fb : Framebuffer} (hfb : fb.WellFormed) (x y w h : UInt16)
    {rgba : List UInt8} (halpha : ∀ i < w.toNat, ∀ j < h.toNat,
      (pixelAt rgba w.toNat i j)[3]? = some 255) : fb.Safe (blitRgba fb x y w h rgba) := by
  by_cases hin : x.toNat + w.toNat ≤ fb.width.toNat ∧ y.toNat + h.toNat ≤ fb.height.toNat ∧
      w.toNat * h.toNat * 4 ≤ rgba.length
  · obtain ⟨out, hout, hdrawn⟩ := blitRgba_spec hfb.length hin.1 hin.2.1 hin.2.2
    rw [hout]
    exact ⟨hdrawn.wellFormed hfb halpha, rfl, rfl⟩
  · refine safe_of_checkBounds fun hx hy => ?_
    rw [if_pos (by omega)]
    trivial

theorem copyRect_safe {fb : Framebuffer} (hfb : fb.WellFormed) (x y w h srcX srcY : UInt16) :
    fb.Safe (copyRect fb x y w h srcX srcY) := by
  by_cases hin : (x.toNat + w.toNat ≤ fb.width.toNat ∧ y.toNat + h.toNat ≤ fb.height.toNat) ∧
      srcX.toNat + w.toNat ≤ fb.width.toNat ∧ srcY.toNat + h.toNat ≤ fb.height.toNat
  · obtain ⟨⟨hx, hy⟩, hsx, hsy⟩ := hin
    obtain ⟨out, hout, hdrawn⟩ := copyRect_spec hfb.length hx hy hsx hsy
    rw [hout]
    refine ⟨hdrawn.wellFormed hfb fun i hi j hj => ?_, rfl, rfl⟩
    exact hfb.alpha _ (by omega) _ (by omega)
  · refine safe_of_checkBounds fun hx hy => safe_of_checkBounds fun hsx hsy => ?_
    exact absurd ⟨⟨hx, hy⟩, hsx, hsy⟩ hin

/-! ## The size -/

/-- A computation that succeeds succeeded at its first step. -/
theorem ok_of_bind {α β : Type} {x : Outcome α} {f : α → Outcome β} {b : β}
    (h : (x >>= f) = .ok b) : ∃ a, x = .ok a ∧ f a = .ok b := by
  cases x with
  | ok a => exact ⟨a, rfl, h⟩
  | error e => cases h

theorem blitRaw_keepsSize (x y w h : UInt16) (format : PixelFormat) (data : List UInt8) :
    KeepsSize (fun fb => blitRaw fb x y w h format data) := by
  intro fb fb' hok
  obtain ⟨_, _, hok⟩ := ok_of_bind hok
  simp only at hok
  split at hok
  · cases hok
  · obtain ⟨rgba, _, hok⟩ := ok_of_bind hok
    cases hok
    exact ⟨rfl, rfl⟩

theorem blitRgba_keepsSize (x y w h : UInt16) (rgba : List UInt8) :
    KeepsSize (fun fb => blitRgba fb x y w h rgba) := by
  intro fb fb' hok
  obtain ⟨_, _, hok⟩ := ok_of_bind hok
  split at hok
  · cases hok
  · obtain ⟨rgba', _, hok⟩ := ok_of_bind hok
    cases hok
    exact ⟨rfl, rfl⟩

theorem copyRect_keepsSize (x y w h srcX srcY : UInt16) :
    KeepsSize (fun fb => copyRect fb x y w h srcX srcY) := by
  intro fb fb' hok
  obtain ⟨_, _, hok⟩ := ok_of_bind hok
  obtain ⟨_, _, hok⟩ := ok_of_bind hok
  obtain ⟨scratch, _, hok⟩ := ok_of_bind hok
  obtain ⟨rgba, _, hok⟩ := ok_of_bind hok
  cases hok
  exact ⟨rfl, rfl⟩

end Bolide.Rfb
