/-
Bolide.Cli.RecordTheorems — every recorded frame is the canvas, and every
recording ends.

`fit` first. Its arithmetic is in `scaled_spec`: the scaled size is at least
one by one and inside the canvas, whichever side binds. Its loops are read
pixel by pixel: a row, copied whole or sampled, changes the pixels of that
row of the box and no others, and `BoxDrawn` is what the rows together leave.

Then `record`, over its traces: whatever wakes it, and however each write,
each frame and the end of the sink turn out. `Frames` is what holds of the
operations before the sink is finished, and is put together from the
operations one by one.
-/
import Bolide.Cli.Record
import Bolide.Lib.Flat
import Bolide.Lib.Tasks

namespace Bolide.Cli

open Lib Prog Bolide.Rfb

/-! ## The scaled size -/

/-- The size a frame is drawn at, as a scaling: at least a pixel, inside the
canvas and no larger than the frame. -/
structure Scaled (cw ch fw fh sw sh : Nat) : Prop where
  pos : 0 < sw ∧ 0 < sh
  inside : sw ≤ cw ∧ sh ≤ ch
  down : sw ≤ fw ∧ sh ≤ fh
  fits : fw ≤ cw → fh ≤ ch → sw = fw ∧ sh = fh
  binds : ¬ (fw ≤ cw ∧ fh ≤ ch) →
    sw = cw ∧ sh = max (fh * cw / fw) 1 ∨ sh = ch ∧ sw = max (fw * ch / fh) 1

/-- The other side, when `a` of `b` is brought down to `c`. -/
theorem scaled_side {a b c d : Nat} (ha : 0 < a) (hd : 0 < d) (hcb : c ≤ b)
    (hle : a * c ≤ b * d) :
    max (a * c / b) 1 ≤ d ∧ max (a * c / b) 1 ≤ a := by
  have hd' : a * c / b ≤ d := Nat.div_le_of_le_mul hle
  have ha' : a * c / b ≤ a := by
    refine Nat.div_le_of_le_mul ?_
    rw [Nat.mul_comm b]
    exact Nat.mul_le_mul_left a hcb
  omega

theorem scaled_spec {cw ch fw fh : Nat} (hcw : 0 < cw) (hch : 0 < ch) (hfw : 0 < fw) (hfh : 0 < fh) :
    Scaled cw ch fw fh (scaled cw ch fw fh).1 (scaled cw ch fw fh).2 := by
  unfold scaled
  split
  · next hfit => exact ⟨⟨hfw, hfh⟩, hfit, ⟨le_rfl, le_rfl⟩, fun _ _ => ⟨rfl, rfl⟩,
      fun hnot => absurd hfit hnot⟩
  · next hfit =>
      split
      · next hwide =>
          -- the width binds: were the canvas wider than the frame, the frame would be too tall
          have hle : cw ≤ fw := by
            by_contra hlt
            have hlt := not_le.mp hlt
            have htall : ch < fh := by
              by_contra h
              exact hfit ⟨hlt.le, not_lt.mp h⟩
            have : fw * ch < cw * fh := Nat.mul_lt_mul'' hlt htall
            rw [Nat.mul_comm cw] at this
            omega
          have hside := scaled_side hfh hch hle hwide
          exact ⟨⟨hcw, by omega⟩, ⟨le_rfl, hside.1⟩, ⟨hle, hside.2⟩,
            fun h h' => absurd ⟨h, h'⟩ hfit, fun _ => .inl ⟨rfl, rfl⟩⟩
      · next hwide =>
          have hle : ch ≤ fh := by
            by_contra hlt
            have hlt := not_le.mp hlt
            have hwider : cw < fw := by
              by_contra h
              exact hfit ⟨not_lt.mp h, hlt.le⟩
            have : fh * cw < ch * fw := Nat.mul_lt_mul'' hlt hwider
            rw [Nat.mul_comm ch] at this
            omega
          have hside := scaled_side hfw hcw hle (by omega)
          exact ⟨⟨by omega, hch⟩, ⟨hside.1, le_rfl⟩, ⟨hside.2, hle⟩,
            fun h h' => absurd ⟨h, h'⟩ hfit, fun _ => .inr ⟨rfl, rfl⟩⟩

/-! ## One row -/

section Row

variable {rgba acc : List UInt8} {fw sw sy p : Nat}

/-- The first `n` pixels of a row of the box, from record `p` on, are the
frame's, and the others what they were. -/
structure RowDrawn (rgba acc : List UInt8) (fw sw sy p n : Nat) (out : List UInt8) : Prop where
  length : out.length = acc.length
  pixels : ∀ q, Lib.record 4 out q =
    if p ≤ q ∧ q < p + n then Lib.record 4 rgba (sy * fw + (q - p) * fw / sw)
    else Lib.record 4 acc q

/-- A row as wide in the frame as in the box is copied. -/
theorem copy_row (hfw : 0 < fw) (hsrc : 4 * (sy * fw + fw) ≤ rgba.length)
    (hdst : 4 * (p + fw) ≤ acc.length) :
    ∃ out, (slice? rgba (sy * fw * 4) (sy * fw * 4 + fw * 4)).bind
        (fun line => splice? acc (p * 4) (p * 4 + fw * 4) line) = some out ∧
      RowDrawn rgba acc fw fw sy p fw out := by
  have hline : ((rgba.drop (4 * (sy * fw))).take (4 * fw)).length = 4 * fw := by
    rw [List.length_take, List.length_drop]
    omega
  refine ⟨splice acc (4 * p) ((rgba.drop (4 * (sy * fw))).take (4 * fw)), ?_, ?_, fun q => ?_⟩
  · rw [Nat.mul_comm (sy * fw) 4, Nat.mul_comm fw 4, Nat.mul_comm p 4,
      slice?_eq_some (Nat.le_add_right _ _) (by omega), Option.bind_some, Nat.add_sub_cancel_left,
      splice?_eq_some (Nat.le_add_right _ _) (by omega) (by rw [hline]; omega)]
  · exact length_splice (by rw [hline]; omega)
  · rw [record_splice hline hdst]
    split
    · rw [record_slice rgba (by omega), Nat.mul_div_cancel _ hfw]
    · rfl

/-- The column that is sampled is one of the frame's. -/
theorem sample_lt {i n m : Nat} (hi : i < n) (hm : 0 < m) : i * m / n < m := by
  rw [Nat.div_lt_iff_lt_mul (by omega), Nat.mul_comm m]
  exact Nat.mul_lt_mul_of_pos_right hi hm

/-- A row of another width is sampled pixel by pixel. -/
theorem sample_row (hfw : 0 < fw) (hsrc : 4 * (sy * fw + fw) ≤ rgba.length)
    (hdst : 4 * (p + sw) ≤ acc.length) :
    ∃ out, (List.range sw).foldlM (fun out dx =>
        (slice? rgba ((sy * fw + dx * fw / sw) * 4) ((sy * fw + dx * fw / sw) * 4 + 4)).bind
          (fun px => splice? out ((p + dx) * 4) ((p + dx) * 4 + 4) px)) acc = some out ∧
      RowDrawn rgba acc fw sw sy p sw out := by
  refine foldlM_range_pure _ (RowDrawn rgba acc fw sw sy p) sw acc ⟨rfl, fun q => ?_⟩ ?_
  · rw [if_neg (by omega)]
  · intro dx hdx out hout
    have hcol := sample_lt hdx hfw
    have hlen := hout.length
    have hpx : ((rgba.drop (4 * (sy * fw + dx * fw / sw))).take (4 * 1)).length = 4 * 1 := by
      rw [List.length_take, List.length_drop]
      omega
    refine ⟨splice out (4 * (p + dx))
      ((rgba.drop (4 * (sy * fw + dx * fw / sw))).take (4 * 1)), ?_, ?_, fun q => ?_⟩
    · rw [Nat.mul_comm (sy * fw + dx * fw / sw) 4, Nat.mul_comm (p + dx) 4,
        slice?_eq_some (Nat.le_add_right _ _) (by omega), Option.bind_some,
        Nat.add_sub_cancel_left]
      exact splice?_eq_some (Nat.le_add_right _ _) (by omega) (by rw [hpx]; omega)
    · rw [length_splice (by rw [hpx]; omega), hlen]
    · rw [record_splice hpx (by omega), hout.pixels q]
      by_cases hq : q = p + dx
      · subst hq
        rw [if_pos (by omega), if_pos (by omega), record_slice rgba (by omega), Nat.sub_self,
          Nat.add_zero, Nat.add_sub_cancel_left]
      · rw [if_neg (by omega)]
        by_cases hin : p ≤ q ∧ q < p + dx
        · rw [if_pos hin, if_pos (by omega)]
        · rw [if_neg hin, if_neg (by omega)]

end Row

/-! ## The box -/

section Box

variable {rgba out : List UInt8} {cw ch fw fh sw sh ox oy : Nat}

/-- The first `n` rows of the box are the frame's, and every other pixel is
what it was. -/
structure BoxDrawn (rgba out : List UInt8) (cw fw fh sw sh ox oy n : Nat) (out' : List UInt8) :
    Prop where
  length : out'.length = out.length
  pixels : ∀ x < cw, ∀ y, pixelAt out' cw x y =
    if (ox ≤ x ∧ x < ox + sw) ∧ oy ≤ y ∧ y < oy + n
      then pixelAt rgba fw ((x - ox) * fw / sw) ((y - oy) * fh / sh) else pixelAt out cw x y

/-- One more row. -/
theorem BoxDrawn.row {acc out' : List UInt8} {dy : Nat} (hx : ox + sw ≤ cw)
    (hacc : BoxDrawn rgba out cw fw fh sw sh ox oy dy acc)
    (hrow : RowDrawn rgba acc fw sw (dy * fh / sh) ((oy + dy) * cw + ox) sw out') :
    BoxDrawn rgba out cw fw fh sw sh ox oy (dy + 1) out' where
  length := hrow.length.trans hacc.length
  pixels x hxw y := by
    have hbefore : Lib.record 4 acc (y * cw + x) = _ := hacc.pixels x hxw y
    rw [pixelAt, hrow.pixels, hbefore]
    simp only [index_mem_run hxw hx]
    by_cases hin : y = oy + dy ∧ ox ≤ x ∧ x < ox + sw
    · obtain ⟨rfl, hlo, hhi⟩ := hin
      have hoff : (oy + dy) * cw + x - ((oy + dy) * cw + ox) = x - ox := by omega
      rw [if_pos ⟨rfl, hlo, hhi⟩, if_pos ⟨⟨hlo, hhi⟩, by omega, by omega⟩, hoff,
        Nat.add_sub_cancel_left, pixelAt]
    · rw [if_neg hin]
      by_cases hold : (ox ≤ x ∧ x < ox + sw) ∧ oy ≤ y ∧ y < oy + dy
      · rw [if_pos hold, if_pos ⟨hold.1, hold.2.1, by omega⟩]
      · rw [if_neg hold, if_neg (by omega)]

theorem fitRows_spec (hrgba : rgba.length = 4 * (fw * fh)) (hout : out.length = 4 * (cw * ch))
    (hfw : 0 < fw) (hfh : 0 < fh) (hx : ox + sw ≤ cw) (hy : oy + sh ≤ ch) :
    ∃ out', fitRows rgba cw fw fh sw sh ox oy out = some out' ∧
      BoxDrawn rgba out cw fw fh sw sh ox oy sh out' := by
  refine foldlM_range_pure _ (BoxDrawn rgba out cw fw fh sw sh ox oy) sh out
    ⟨rfl, fun x _ y => by rw [if_neg (by omega)]⟩ ?_
  intro dy hdy acc hacc
  have hlen := hacc.length
  have hsrc : 4 * (dy * fh / sh * fw + fw) ≤ rgba.length := by
    have : (dy * fh / sh + 1) * fw ≤ fh * fw := Nat.mul_le_mul_right fw (sample_lt hdy hfh)
    rw [Nat.add_mul, Nat.one_mul] at this
    rw [hrgba, Nat.mul_comm fw fh]
    omega
  have hdst : 4 * ((oy + dy) * cw + ox + sw) ≤ acc.length := by
    have : (oy + dy + 1) * cw ≤ ch * cw := Nat.mul_le_mul_right cw (by omega)
    rw [Nat.add_mul, Nat.one_mul] at this
    rw [hlen, hout, Nat.mul_comm cw ch]
    omega
  by_cases hsame : sw = fw
  · obtain ⟨out', hout', hrow⟩ := copy_row hfw hsrc (hsame ▸ hdst)
    refine ⟨out', ?_, BoxDrawn.row hx hacc (hsame ▸ hrow)⟩
    simp only [hsame]
    exact hout'
  · obtain ⟨out', hout', hrow⟩ := sample_row hfw hsrc hdst
    refine ⟨out', ?_, hacc.row hx hrow⟩
    simp only [if_neg hsame]
    exact hout'

end Box

/-! ## `fit` -/

/-- Opaque black. -/
def blackPixel : List UInt8 := [0, 0, 0, 255]

/-- A canvas with nothing on it. -/
def blackCanvas (cw ch : Nat) : List UInt8 := (List.replicate (cw * ch) blackPixel).flatten

theorem length_of_mem_black {n : Nat} {l : List UInt8} (hl : l ∈ List.replicate n blackPixel) :
    l.length = 4 := by
  rw [List.eq_of_mem_replicate hl]
  rfl

theorem length_blackCanvas (cw ch : Nat) : (blackCanvas cw ch).length = 4 * (cw * ch) := by
  rw [blackCanvas, length_flatten_of_forall (fun _ => length_of_mem_black), List.length_replicate]

theorem pixelAt_blackCanvas {cw ch x y : Nat} (hx : x < cw) (hy : y < ch) :
    pixelAt (blackCanvas cw ch) cw x y = blackPixel := by
  have hlt := index_lt hx hy
  rw [pixelAt, blackCanvas, record_flatten (fun _ => length_of_mem_black)
    (by rwa [List.length_replicate]), List.getElem_replicate]

/-- The frame in its box: centred, scaled to `sw` by `sh`, on black. -/
structure Centred (rgba : List UInt8) (cw ch fw fh sw sh : Nat) (out : List UInt8) : Prop where
  columns : ∀ dx < sw, dx * fw / sw < fw
  rows : ∀ dy < sh, dy * fh / sh < fh
  pixels : ∀ x < cw, ∀ y < ch, pixelAt out cw x y =
    if ((cw - sw) / 2 ≤ x ∧ x < (cw - sw) / 2 + sw) ∧ (ch - sh) / 2 ≤ y ∧ y < (ch - sh) / 2 + sh
      then pixelAt rgba fw ((x - (cw - sw) / 2) * fw / sw) ((y - (ch - sh) / 2) * fh / sh)
      else blackPixel

/-- What `fit` makes of a frame. -/
structure Fitted (rgba : List UInt8) (cw ch fw fh : Nat) (out : List UInt8) : Prop where
  length : out.length = cw * ch * 4
  same : fw = cw → fh = ch → out = rgba
  empty : fw = 0 ∨ fh = 0 → out = blackCanvas cw ch
  drawn : 0 < fw → 0 < fh → ¬ (fw = cw ∧ fh = ch) →
    ∃ sw sh, Scaled cw ch fw fh sw sh ∧ Centred rgba cw ch fw fh sw sh out

theorem sub?_eq_some {a b : Nat} (h : b ≤ a) : sub? a b = some (a - b) := if_pos h

/-- A frame with pixels, of another size than the canvas, is drawn on black. -/
theorem fit_drawn {rgba : List UInt8} {cw ch fw fh sw sh : Nat} (hrgba : rgba.length = 4 * (fw * fh))
    (hfw : 0 < fw) (hfh : 0 < fh) (hscaled : Scaled cw ch fw fh sw sh) :
    ∃ out, fitRows rgba cw fw fh sw sh ((cw - sw) / 2) ((ch - sh) / 2) (blackCanvas cw ch) =
        some out ∧ out.length = 4 * (cw * ch) ∧ Centred rgba cw ch fw fh sw sh out := by
  have hinside := hscaled.inside
  have hx : (cw - sw) / 2 + sw ≤ cw := by omega
  have hy : (ch - sh) / 2 + sh ≤ ch := by omega
  obtain ⟨out, hout, hbox⟩ := fitRows_spec hrgba (length_blackCanvas cw ch) hfw hfh hx hy
  refine ⟨out, hout, hbox.length.trans (length_blackCanvas cw ch), fun dx hdx => sample_lt hdx hfw,
    fun dy hdy => sample_lt hdy hfh, fun x hx y hy => ?_⟩
  rw [hbox.pixels x hx y, pixelAt_blackCanvas hx hy]

theorem fit_fitted {frame : Framebuffer} {canvas : Geometry}
    (hframe : frame.rgba.length = frame.width.toNat * frame.height.toNat * 4)
    (hw : 0 < canvas.width.toNat) (hh : 0 < canvas.height.toNat) :
    ∃ out, fit frame canvas = some out ∧
      Fitted frame.rgba canvas.width.toNat canvas.height.toNat frame.width.toNat
        frame.height.toNat out := by
  have hrgba : frame.rgba.length = 4 * (frame.width.toNat * frame.height.toNat) := by omega
  simp only [fit, Prod.mk.injEq]
  split
  · next hsame =>
      refine ⟨frame.rgba, rfl, ?_, fun _ _ => rfl, fun hempty => ?_, fun _ _ hne => absurd hsame hne⟩
      · rw [hframe, hsame.1, hsame.2]
      · omega
  · next hsame =>
      split
      · next hempty =>
          refine ⟨blackCanvas canvas.width.toNat canvas.height.toNat, rfl, ?_,
            fun hfw hfh => absurd ⟨hfw, hfh⟩ hsame, fun _ => rfl, fun hfw hfh => ?_⟩
          · rw [length_blackCanvas, Nat.mul_comm]
          · omega
      · next hempty =>
          rw [not_or] at hempty
          have hfw := Nat.pos_of_ne_zero hempty.1
          have hfh := Nat.pos_of_ne_zero hempty.2
          have hscaled := scaled_spec hw hh hfw hfh
          obtain ⟨out, hout, hlength, hcentred⟩ := fit_drawn hrgba hfw hfh hscaled
          refine ⟨out, ?_, by omega, fun hw hh => absurd ⟨hw, hh⟩ hsame, fun hzero => by omega,
            fun _ _ _ => ⟨_, _, hscaled, hcentred⟩⟩
          rw [sub?_eq_some hscaled.inside.1, sub?_eq_some hscaled.inside.2]
          exact hout

/-- **Every recorded frame is exactly the canvas.** -/
theorem fit_spec (frame : Framebuffer) (canvas : Geometry)
    (hframe : frame.rgba.length = frame.width.toNat * frame.height.toNat * 4)
    (hw : 2 ≤ canvas.width.toNat) (hh : 2 ≤ canvas.height.toNat) :
    ∃ out, fit frame canvas = some out ∧
      Fitted frame.rgba canvas.width.toNat canvas.height.toNat frame.width.toNat
        frame.height.toNat out :=
  fit_fitted hframe (by omega) (by omega)

/-- An eight by two frame on a canvas of four by four. -/
theorem fit_spec_letterboxed :
    (List.replicate 64 (9 : UInt8)).length = (8 : UInt16).toNat * (2 : UInt16).toNat * 4 ∧
      2 ≤ (4 : UInt16).toNat ∧
      ∃ out, fit ⟨8, 2, List.replicate 64 9⟩ ⟨4, 4⟩ = some out ∧
        Fitted (List.replicate 64 9) 4 4 8 2 out :=
  ⟨by decide, by decide, fit_spec ⟨8, 2, List.replicate 64 9⟩ ⟨4, 4⟩ (by decide) (by decide)
    (by decide)⟩

theorem two_le_even (side : UInt16) : 2 ≤ (even side).toNat ∧ (even side).toNat % 2 = 0 := by
  have hlt := side.toNat_lt
  have hzero : side = 0 ↔ side.toNat = 0 := by rw [← UInt16.toNat_inj]; rfl
  have hone : side = 1 ↔ side.toNat = 1 := by rw [← UInt16.toNat_inj]; rfl
  have htop : side = 65535 ↔ side.toNat = 65535 := by rw [← UInt16.toNat_inj]; rfl
  unfold even
  split
  · decide
  · next hsmall =>
    rw [hzero, hone] at hsmall
    split
    · decide
    · next hlarge =>
      rw [htop] at hlarge
      have hmod : (side % 2).toNat = side.toNat % 2 := UInt16.toNat_mod side 2
      rw [UInt16.toNat_add, hmod]
      omega

/-- The canvas of a recording has two even sides. -/
theorem forScreen_even (width height : UInt16) :
    (2 ≤ (Geometry.forScreen width height).width.toNat ∧
      (Geometry.forScreen width height).width.toNat % 2 = 0) ∧
    2 ≤ (Geometry.forScreen width height).height.toNat ∧
      (Geometry.forScreen width height).height.toNat % 2 = 0 :=
  ⟨two_le_even width, two_le_even height⟩

/-! ## What a recording does -/

/-- An operation of a recording, and its answer. -/
abbrev DaemonEvent : Type := Event DaemonSig

namespace DaemonEvent

/-- The failure of the frame that was to be written. -/
def failure? : DaemonEvent → Option String
  | ⟨.framebuffer, .error e⟩ => some e
  | ⟨.writeFrame _, .error e⟩ => some e
  | _ => none

/-- A frame is handed to the sink. -/
def writes : DaemonEvent → Bool
  | ⟨.writeFrame _, _⟩ => true
  | _ => false

/-- The sink is finished. -/
def finishes : DaemonEvent → Bool
  | ⟨.finishSink, _⟩ => true
  | _ => false

end DaemonEvent

/-- A screen with all its pixels. -/
def WholeScreen (frame : Framebuffer) : Prop :=
  frame.rgba.length = frame.width.toNat * frame.height.toNat * 4

/-- The session answers with whole screens. -/
def Answered (trace : List DaemonEvent) : Prop :=
  ∀ frame, (⟨.framebuffer, .ok frame⟩ : DaemonEvent) ∈ trace → WholeScreen frame

/-- What is true of a trace of frames before the sink is finished: the frames
are of the canvas's size, and at most the last one failed. -/
structure Frames (canvas : Geometry) (trace : List DaemonEvent) (failed : Option String) :
    Prop where
  sized : ∀ rgba r, (⟨.writeFrame rgba, r⟩ : DaemonEvent) ∈ trace →
    rgba.length = canvas.width.toNat * canvas.height.toNat * 4
  unfinished : ∀ x ∈ trace, x.finishes = false
  clean : failed = none → ∀ x ∈ trace, x.failure? = none
  last : ∀ e, failed = some e → ∃ before x, trace = before ++ [x] ∧ x.failure? = some e ∧
    ∀ y ∈ before, y.failure? = none

section Frames

variable {canvas : Geometry} {trace trace' : List DaemonEvent} {failed : Option String}

theorem Answered.left (h : Answered (trace ++ trace')) : Answered trace :=
  fun frame hmem => h frame (List.mem_append_left _ hmem)

theorem Answered.right (h : Answered (trace ++ trace')) : Answered trace' :=
  fun frame hmem => h frame (List.mem_append_right _ hmem)

theorem Answered.tail {x : DaemonEvent} (h : Answered (x :: trace)) : Answered trace :=
  fun frame hmem => h frame (List.mem_cons_of_mem _ hmem)

theorem Frames.nil : Frames canvas [] none where
  sized _ _ h := by cases h
  unfinished _ h := by cases h
  clean _ _ h := by cases h
  last _ h := by cases h

/-- What comes after frames that did not fail. -/
theorem Frames.append (h : Frames canvas trace none) (h' : Frames canvas trace' failed) :
    Frames canvas (trace ++ trace') failed where
  sized rgba r hmem := by
    rcases List.mem_append.mp hmem with hmem | hmem
    · exact h.sized rgba r hmem
    · exact h'.sized rgba r hmem
  unfinished x hx := by
    rcases List.mem_append.mp hx with hx | hx
    · exact h.unfinished x hx
    · exact h'.unfinished x hx
  clean hfailed x hx := by
    rcases List.mem_append.mp hx with hx | hx
    · exact h.clean rfl x hx
    · exact h'.clean hfailed x hx
  last e hfailed := by
    obtain ⟨before, x, rfl, hx, hbefore⟩ := h'.last e hfailed
    refine ⟨trace ++ before, x, (List.append_assoc _ _ _).symm, hx, fun y hy => ?_⟩
    rcases List.mem_append.mp hy with hy | hy
    · exact h.clean rfl y hy
    · exact hbefore y hy

/-- One operation before the sink is finished. -/
theorem Frames.one {x : DaemonEvent} (hfinishes : x.finishes = false)
    (hsized : ∀ rgba r, x = ⟨.writeFrame rgba, r⟩ →
      rgba.length = canvas.width.toNat * canvas.height.toNat * 4) :
    Frames canvas [x] x.failure? where
  sized rgba r hmem := hsized rgba r (List.mem_singleton.mp hmem).symm
  unfinished y hy := by rw [List.mem_singleton.mp hy, hfinishes]
  clean h y hy := by rw [List.mem_singleton.mp hy, h]
  last e h := ⟨[], x, rfl, h, fun y hy => by cases hy⟩

/-- An operation that is no frame's and not the last. -/
theorem Frames.other (canvas : Geometry) (x : DaemonEvent) (hwrites : x.writes = false)
    (hfinishes : x.finishes = false) : Frames canvas [x] x.failure? := by
  refine .one hfinishes fun rgba r heq => ?_
  rw [heq] at hwrites
  cases hwrites

end Frames

section Recording

variable {canvas : Geometry} {trace : List DaemonEvent}

/-- `write_one`: a frame of the canvas's size is written, or its failure is
returned. It never panics. -/
theorem traced_writeOne (hw : 0 < canvas.width.toNat) (hh : 0 < canvas.height.toNat)
    {ended : Except Halt (Except String Unit)} (h : Traced (writeOne canvas) trace ended)
    (hanswered : Answered trace) :
    (∃ e, ended = .ok (.error e) ∧ Frames canvas trace (some e)) ∨
      ended = .ok (.ok ()) ∧ Frames canvas trace none ∧
        trace.countP DaemonEvent.writes = 1 := by
  obtain ⟨frame, rest, rfl, hrest⟩ := h.of_step
  have hframe := Frames.other canvas ⟨.framebuffer, frame⟩ rfl rfl
  cases frame with
  | error e =>
      obtain ⟨rfl, rfl⟩ := Traced.of_ret hrest
      exact .inl ⟨e, rfl, hframe⟩
  | ok frame =>
      obtain ⟨out, hout, hfitted⟩ := fit_fitted (hanswered frame List.mem_cons_self) hw hh
      simp only [Prog.bind, hout] at hrest
      obtain ⟨done, rest, rfl, hdone⟩ := hrest.of_step
      obtain ⟨rfl, rfl⟩ := hdone.of_ret
      have hwrite : Frames canvas [⟨.writeFrame out, done⟩] (DaemonEvent.failure? ⟨_, done⟩) := by
        refine .one rfl fun rgba r heq => ?_
        cases heq
        exact hfitted.length
      cases done with
      | error e => exact .inl ⟨e, rfl, Frames.append hframe hwrite⟩
      | ok u => exact .inr ⟨rfl, Frames.append hframe hwrite, rfl⟩

/-- What is done with a frame's outcome. -/
theorem traced_writeOne_bind {β : Type} (hw : 0 < canvas.width.toNat)
    (hh : 0 < canvas.height.toNat) {f : Except String Unit → DaemonTask β} {ended : Except Halt β}
    (h : Traced (writeOne canvas >>= f) trace ended) (hanswered : Answered trace) :
    ∃ before after, trace = before ++ after ∧
      ((∃ e, Frames canvas before (some e) ∧ Traced (f (.error e)) after ended) ∨
        Frames canvas before none ∧ before.countP DaemonEvent.writes = 1 ∧
          Traced (f (.ok ())) after ended) := by
  rcases h.of_bind with ⟨written, before, after, rfl, hwritten, hafter⟩ | ⟨e, -, hpanic⟩
  · refine ⟨before, after, rfl, ?_⟩
    rcases traced_writeOne hw hh hwritten hanswered.left with ⟨e, heq, hframes⟩ |
      ⟨heq, hframes, hcount⟩
    · cases heq
      exact .inl ⟨e, hframes, hafter⟩
    · cases heq
      exact .inr ⟨hframes, hcount, hafter⟩
  · rcases traced_writeOne hw hh hpanic hanswered with ⟨e', heq, -⟩ | ⟨heq, -⟩
    · cases heq
    · cases heq

/-- Frames, and how many of them were written when none failed. -/
structure Counted (canvas : Geometry) (before : Nat) (trace : List DaemonEvent) (n : Nat)
    (failed : Option String) : Prop where
  frames : Frames canvas trace failed
  counts : failed = none → n = before + trace.countP DaemonEvent.writes

/-- Frames after frames that did not fail. -/
theorem Counted.after {before middle n : Nat} {first : List DaemonEvent} {failed : Option String}
    (hfirst : Counted canvas before first middle none)
    (h : Counted canvas middle trace n failed) :
    Counted canvas before (first ++ trace) n failed where
  frames := hfirst.frames.append h.frames
  counts hfailed := by
    rw [List.countP_append, h.counts hfailed, hfirst.counts rfl, Nat.add_assoc]

/-- The loop ends out of rounds, or having counted its frames. -/
theorem traced_recordLoop (hw : 0 < canvas.width.toNat) (hh : 0 < canvas.height.toNat)
    {rounds frames : Nat} {ended : Except Halt (Nat × Option String)}
    (h : Traced (recordLoop canvas rounds frames) trace ended) (hanswered : Answered trace) :
    ended = .error .parked ∨
      ∃ n failed, ended = .ok (n, failed) ∧ Counted canvas frames trace n failed := by
  induction rounds generalizing trace frames with
  | zero => exact .inl h.of_fail.2
  | succ rounds ih =>
      obtain ⟨woken, rest, rfl, hrest⟩ := h.of_step
      have hwake : Counted canvas frames [⟨.wakeRecord, woken⟩] frames none :=
        ⟨Frames.other canvas ⟨.wakeRecord, woken⟩ rfl rfl, fun _ => rfl⟩
      have hanswered := hanswered.tail
      cases htake : woken.take with
      | again =>
          simp only [Prog.bind, htake] at hrest
          rcases ih hrest hanswered with hparked | ⟨n, failed, hended, hcounted⟩
          · exact .inl hparked
          · exact .inr ⟨n, failed, hended, hwake.after hcounted⟩
      | leave =>
          simp only [Prog.bind, htake] at hrest
          obtain ⟨rfl, rfl⟩ := hrest.of_ret
          exact .inr ⟨frames, none, rfl, hwake⟩
      | frame =>
          simp only [Prog.bind, htake] at hrest
          obtain ⟨before, after, rfl, hwritten⟩ := traced_writeOne_bind hw hh hrest hanswered
          rcases hwritten with ⟨e, hframes, hafter⟩ | ⟨hframes, hcount, hafter⟩
          · obtain ⟨rfl, rfl⟩ := Traced.of_ret hafter
            rw [List.append_nil]
            exact .inr ⟨frames, some e, rfl, hwake.after ⟨hframes, fun h => by cases h⟩⟩
          · have hone : Counted canvas frames before (frames + 1) none :=
              ⟨hframes, fun _ => by rw [hcount]⟩
            rcases ih hafter hanswered.right with hparked | ⟨n, failed, hended, hcounted⟩
            · exact .inl hparked
            · exact .inr ⟨n, failed, hended, hwake.after (hone.after hcounted)⟩

/-- A recording that stopped before its first frame takes one. -/
theorem traced_atLeastOne (hw : 0 < canvas.width.toNat) (hh : 0 < canvas.height.toNat)
    {first : List DaemonEvent} {n : Nat} {failed : Option String}
    (hfirst : Counted canvas 0 first n failed) {ended : Except Halt (Nat × Option String)}
    (h : Traced (atLeastOne canvas (n, failed)) trace ended) (hanswered : Answered trace) :
    ∃ n failed, ended = .ok (n, failed) ∧ Counted canvas 0 (first ++ trace) n failed ∧
      (failed = none → 1 ≤ n) := by
  cases failed with
  | some e =>
      have hret : Traced (.ret (n, some e)) trace ended := by cases n <;> exact h
      obtain ⟨rfl, rfl⟩ := hret.of_ret
      rw [List.append_nil]
      exact ⟨n, some e, rfl, hfirst, fun h => by cases h⟩
  | none =>
      cases n with
      | succ n =>
          obtain ⟨rfl, rfl⟩ := Traced.of_ret h
          rw [List.append_nil]
          exact ⟨n + 1, none, rfl, hfirst, fun _ => by omega⟩
      | zero =>
          obtain ⟨before, after, rfl, hwritten⟩ := traced_writeOne_bind hw hh h hanswered
          rcases hwritten with ⟨e, hframes, hafter⟩ | ⟨hframes, hcount, hafter⟩
          · obtain ⟨rfl, rfl⟩ := Traced.of_ret hafter
            rw [List.append_nil]
            exact ⟨0, some e, rfl, hfirst.after ⟨hframes, fun h => by cases h⟩,
              fun h => by cases h⟩
          · obtain ⟨rfl, rfl⟩ := Traced.of_ret hafter
            rw [List.append_nil]
            exact ⟨1, none, rfl, hfirst.after ⟨hframes, fun _ => by rw [hcount]⟩,
              fun _ => le_rfl⟩

/-- How a recording ends. -/
structure Recorded (canvas : Geometry) (trace : List DaemonEvent) (result : Except String Nat) :
    Prop where
  finished : ∃ before done, trace = before ++ [⟨.finishSink, done⟩] ∧
    ∀ x ∈ before, x.finishes = false
  sized : ∀ rgba r, (⟨.writeFrame rgba, r⟩ : DaemonEvent) ∈ trace →
    rgba.length = canvas.width.toNat * canvas.height.toNat * 4
  stops : ∀ before x after, trace = before ++ x :: after → x.failure?.isSome = true →
    ∀ y ∈ after, y.writes = false
  counts : ∀ n, result = .ok n → n = trace.countP DaemonEvent.writes ∧ 1 ≤ n
  ok : (∃ n, result = .ok n) ↔
    (∀ x ∈ trace, x.failure? = none) ∧ (⟨.finishSink, .ok ()⟩ : DaemonEvent) ∈ trace
  error : ∀ x ∈ trace, ∀ e, x.failure? = some e → result = .error e

/-- In frames of which only the last one may have failed, nothing comes after
the failure. -/
theorem Frames.after_failure {failed : Option String} {before after : List DaemonEvent}
    {x : DaemonEvent} (h : Frames canvas (before ++ x :: after) failed)
    (hx : x.failure?.isSome = true) : after = [] := by
  cases failed with
  | none =>
      rw [h.clean rfl x (by simp)] at hx
      cases hx
  | some e =>
      obtain ⟨first, y, heq, -, hfirst⟩ := h.last e rfl
      rcases Tasks.snoc_split heq.symm with ⟨hafter, -, -⟩ | ⟨rest, -, hbefore⟩
      · exact hafter
      · rw [hfirst x (by simp [hbefore])] at hx
        cases hx

/-- What the sink's finishing makes of the frames. -/
theorem Counted.recorded {before : List DaemonEvent} {n : Nat} {failed : Option String}
    (h : Counted canvas 0 before n failed) (hone : failed = none → 1 ≤ n)
    {done : Except String Unit} {result : Except String Nat}
    (hfailed : ∀ e, failed = some e → result = .error e)
    (hfinished : failed = none → result = done.map (fun _ => n)) :
    Recorded canvas (before ++ [⟨.finishSink, done⟩]) result where
  finished := ⟨before, done, rfl, h.frames.unfinished⟩
  sized rgba r hmem := by
    rcases List.mem_append.mp hmem with hmem | hmem
    · exact h.frames.sized rgba r hmem
    · cases List.mem_singleton.mp hmem
  stops first x after heq hx y hy := by
    rcases Tasks.snoc_split heq with ⟨rfl, -, -⟩ | ⟨rest, rfl, rfl⟩
    · cases hy
    · rw [h.frames.after_failure hx, List.nil_append] at hy
      rw [List.mem_singleton.mp hy]
      rfl
  counts m hm := by
    cases failed with
    | some e =>
        rw [hfailed e rfl] at hm
        cases hm
    | none =>
        rw [hfinished rfl] at hm
        cases done with
        | error e => cases hm
        | ok u =>
            cases hm
            refine ⟨?_, hone rfl⟩
            rw [List.countP_append, h.counts rfl, Nat.zero_add]
            rfl
  ok := by
    constructor
    · rintro ⟨m, hm⟩
      cases failed with
      | some e =>
          rw [hfailed e rfl] at hm
          cases hm
      | none =>
          rw [hfinished rfl] at hm
          cases done with
          | error e => cases hm
          | ok u =>
              refine ⟨fun x hx => ?_, by simp⟩
              rcases List.mem_append.mp hx with hx | hx
              · exact h.frames.clean rfl x hx
              · rw [List.mem_singleton.mp hx]
                rfl
    · rintro ⟨hclean, hmem⟩
      have hdone : done = .ok () := by
        rcases List.mem_append.mp hmem with hmem | hmem
        · cases h.frames.unfinished _ hmem
        · cases List.mem_singleton.mp hmem
          rfl
      cases failed with
      | some e =>
          obtain ⟨first, x, rfl, hx, -⟩ := h.frames.last e rfl
          rw [hclean x (by simp)] at hx
          cases hx
      | none => exact ⟨n, by rw [hfinished rfl, hdone]; rfl⟩
  error x hx e he := by
    rcases List.mem_append.mp hx with hx | hx
    · cases failed with
      | none =>
          rw [h.frames.clean rfl x hx] at he
          cases he
      | some e' =>
          obtain ⟨first, y, rfl, hy, hfirst⟩ := h.frames.last e' rfl
          rcases List.mem_append.mp hx with hx | hx
          · rw [hfirst x hx] at he
            cases he
          · rw [List.mem_singleton.mp hx, hy] at he
            cases he
            exact hfailed e rfl
    · rw [List.mem_singleton.mp hx] at he
      cases he

/-- **A recording always ends properly.** -/
theorem record_ends (canvas : Geometry) (hw : 0 < canvas.width.toNat)
    (hh : 0 < canvas.height.toNat) (rounds : Nat) (trace : List DaemonEvent)
    (ended : Except Halt (Except String Nat)) (h : Traced (record rounds canvas) trace ended)
    (hanswered : Answered trace) (hended : ended ≠ .error .parked) :
    ∃ result, ended = .ok result ∧ Recorded canvas trace result := by
  obtain ⟨u, rest, rfl, hrest⟩ := h.of_step
  have hstart : Counted canvas 0 [⟨.subscribe, u⟩] 0 none :=
    ⟨Frames.other canvas ⟨.subscribe, u⟩ rfl rfl, fun _ => rfl⟩
  have hanswered := hanswered.tail
  have hrest : Traced (recordLoop canvas rounds 0 >>= _) rest ended := hrest
  rcases hrest.of_bind with ⟨looped, frames, after, rfl, hloop, hafter⟩ | ⟨e, rfl, hloop⟩
  · rcases traced_recordLoop hw hh hloop hanswered.left with hparked | ⟨n, failed, heq, hcounted⟩
    · cases hparked
    · cases heq
      rcases Traced.of_bind hafter with ⟨taken, one, last, rfl, hone, hlast⟩ | ⟨e, rfl, hone⟩
      · obtain ⟨n, failed, heq, hcounted, hpos⟩ := traced_atLeastOne hw hh hcounted hone
          hanswered.right.left
        cases heq
        obtain ⟨done, rest, rfl, hend⟩ := Traced.of_step hlast
        have hall := hstart.after hcounted
        have htrace : (⟨.subscribe, u⟩ :: (frames ++ (one ++ [⟨.finishSink, done⟩])) :
            List DaemonEvent) = ([⟨.subscribe, u⟩] ++ (frames ++ one)) ++ [⟨.finishSink, done⟩] := by
          simp
        cases failed with
        | some e =>
            obtain ⟨rfl, rfl⟩ := Traced.of_ret hend
            refine ⟨.error e, rfl, htrace ▸ hall.recorded hpos ?_ (fun h => by cases h)⟩
            intro e' h
            cases h
            rfl
        | none =>
            obtain ⟨rfl, rfl⟩ := Traced.of_ret hend
            exact ⟨_, rfl, htrace ▸ hall.recorded hpos (fun e h => by cases h) (fun _ => rfl)⟩
      · obtain ⟨n, failed, heq, -, -⟩ := traced_atLeastOne hw hh hcounted hone hanswered.right
        cases heq
  · rcases traced_recordLoop hw hh hloop hanswered with hparked | ⟨n, failed, heq, -⟩
    · cases hparked
      exact absurd rfl hended
    · cases heq

/-- A recording stopped before its first tick. -/
def stoppedTrace : List DaemonEvent :=
  [⟨.subscribe, ()⟩, ⟨.wakeRecord, .stopped⟩, ⟨.framebuffer, .ok ⟨2, 2, List.replicate 16 9⟩⟩,
    ⟨.writeFrame (List.replicate 16 9), .ok ()⟩, ⟨.finishSink, .ok ()⟩]

theorem record_ends_stopped :
    Traced (record 1 ⟨2, 2⟩) stoppedTrace (.ok (.ok 1)) ∧ Answered stoppedTrace ∧
      ∃ result, (.ok (.ok 1) : Except Halt (Except String Nat)) = .ok result ∧
        Recorded ⟨2, 2⟩ stoppedTrace result := by
  have htraced : Traced (record 1 ⟨2, 2⟩) stoppedTrace (.ok (.ok 1)) := by
    refine Traced.step _ (Traced.step _ (Traced.step _ ?_))
    exact Traced.step _ (Traced.step _ (Traced.ret _))
  have hanswered : Answered stoppedTrace := by
    intro frame hmem
    simp only [stoppedTrace, List.mem_cons, List.not_mem_nil, or_false] at hmem
    rcases hmem with h | h | h | h | h
    · cases h
    · cases h
    · cases h
      rfl
    · cases h
    · cases h
  exact ⟨htraced, hanswered, record_ends ⟨2, 2⟩ (by decide) (by decide) 1 stoppedTrace _ htraced
    hanswered (by decide)⟩

end Recording

end Bolide.Cli
