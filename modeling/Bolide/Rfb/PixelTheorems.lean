/-
Bolide.Rfb.PixelTheorems — what the pixel codec loses, and what it keeps.

A regular format has channels of whole bits that lie apart inside the pixel.
`scale` and `unscale` are then the two directions of one `rescale`, so a
channel of at most eight bits survives the way through RGBA and a channel of
at least eight bits carries RGBA exactly; and the fields of a pixel are taken
out one by one, whatever their order.
-/
import Bolide.Lib.Round
import Bolide.Rfb.ProtoTheorems

namespace Bolide.Rfb

open Lib

/-! ## Channels -/

inductive Channel where
  | red
  | green
  | blue
  deriving DecidableEq, Repr

/-- The channel of a colour. -/
def Rgba.channel (c : Rgba) : Channel → UInt8
  | .red => c.r
  | .green => c.g
  | .blue => c.b

namespace PixelFormat

def maxOf (f : PixelFormat) : Channel → UInt16
  | .red => f.redMax
  | .green => f.greenMax
  | .blue => f.blueMax

def shiftOf (f : PixelFormat) : Channel → UInt8
  | .red => f.redShift
  | .green => f.greenShift
  | .blue => f.blueShift

/-- The raw value of a channel. -/
def field (f : PixelFormat) (c : Channel) (p : UInt32) : UInt32 :=
  (p >>> (f.shiftOf c).toUInt32) &&& (f.maxOf c).toUInt32

/-- Channels of `bits` whole bits each, apart from each other and inside the
pixel. -/
structure Regular (f : PixelFormat) (bits : Channel → Nat) : Prop where
  depths : f.bitsPerPixel = 8 ∨ f.bitsPerPixel = 16 ∨ f.bitsPerPixel = 24 ∨ f.bitsPerPixel = 32
  width : ∀ c, 1 ≤ bits c ∧ bits c ≤ 16
  full : ∀ c, (f.maxOf c).toNat = 2 ^ bits c - 1
  inside : ∀ c, (f.shiftOf c).toNat + bits c ≤ f.bitsPerPixel.toNat
  apart : ∀ c c', c ≠ c' → (f.shiftOf c).toNat + bits c ≤ (f.shiftOf c').toNat ∨
    (f.shiftOf c').toNat + bits c' ≤ (f.shiftOf c).toNat

theorem toRgba_channel (f : PixelFormat) (c : Channel) (p : UInt32) :
    (f.toRgba p).channel c = scale (p >>> (f.shiftOf c).toUInt32) (f.maxOf c) := by
  cases c <;> rfl

/-! ## One channel -/

/-- A maximum of whole bits. -/
structure Full (max : UInt16) (k : Nat) : Prop where
  pos : 1 ≤ k
  le : k ≤ 16
  value : max.toNat = 2 ^ k - 1

section Scale

variable {max : UInt16} {k : Nat}

theorem Full.toNat_pos (h : Full max k) : 0 < max.toNat := by
  have hpow : 2 ^ 1 ≤ 2 ^ k := Nat.pow_le_pow_right (by omega) h.pos
  have hvalue := h.value
  omega

theorem Full.ne_zero (h : Full max k) : max ≠ 0 := by
  rintro rfl
  exact absurd h.toNat_pos (by decide)

/-- The mask of a channel keeps its low bits. -/
theorem and_full (hvalue : max.toNat = 2 ^ k - 1) (raw : UInt32) :
    (raw &&& max.toUInt32).toNat = raw.toNat % 2 ^ k := by
  rw [UInt32.toNat_and, UInt16.toNat_toUInt32, hvalue, Nat.and_two_pow_sub_one_eq_mod]

theorem Full.and (h : Full max k) (raw : UInt32) :
    (raw &&& max.toUInt32).toNat = raw.toNat % 2 ^ k := and_full h.value raw

theorem Full.and_le (h : Full max k) (raw : UInt32) :
    (raw &&& max.toUInt32).toNat ≤ max.toNat := by
  rw [h.and, h.value]
  exact Nat.le_sub_one_of_lt (Nat.mod_lt _ (Nat.two_pow_pos k))

/-- Nothing overflows in `scale`. -/
theorem scale_fits (raw : UInt32) (max : UInt16) :
    (raw &&& max.toUInt32).toNat * 255 + max.toNat / 2 < 2 ^ 32 := by
  have hle : (raw &&& max.toUInt32).toNat ≤ max.toNat := by
    rw [UInt32.toNat_and, UInt16.toNat_toUInt32]
    exact Nat.and_le_right
  have hmax := max.toNat_lt
  omega

/-- Nothing overflows in `unscale`. -/
theorem unscale_fits (v : UInt8) (max : UInt16) : v.toNat * max.toNat + 127 < 2 ^ 32 := by
  have hv := v.toNat_lt
  have hmax := max.toNat_lt
  have hmul : v.toNat * max.toNat ≤ 255 * 65535 := Nat.mul_le_mul (by omega) (by omega)
  omega

/-- `scale` takes a channel to `0..=255`. -/
theorem Full.scale (h : Full max k) (raw : UInt32) :
    (scale raw max).toNat = rescale (raw &&& max.toUInt32).toNat max.toNat 255 := by
  have hfits := scale_fits raw max
  have hle := rescale_le h.toNat_pos (h.and_le raw) 255
  rw [PixelFormat.scale, if_neg h.ne_zero]
  split
  · next h255 =>
      subst h255
      have hle' := h.and_le raw
      have hnat : (255 : UInt16).toNat = 255 := rfl
      rw [UInt32.toNat_toUInt8, hnat, rescale]
      rw [hnat] at hle'
      omega
  · rw [UInt32.toNat_toUInt8, UInt32.toNat_div, UInt32.toNat_add, UInt32.toNat_mul,
      UInt32.toNat_div, UInt16.toNat_toUInt32]
    have h255 : (255 : UInt32).toNat = 255 := rfl
    have htwo : (2 : UInt32).toNat = 2 := rfl
    have hmul : (raw &&& max.toUInt32).toNat * 255 % 2 ^ 32 = (raw &&& max.toUInt32).toNat * 255 :=
      Nat.mod_eq_of_lt (Nat.lt_of_le_of_lt (Nat.le_add_right _ _) hfits)
    rw [h255, htwo, hmul]
    unfold rescale at hle ⊢
    have hdiv : ((raw &&& max.toUInt32).toNat * 255 + max.toNat / 2) / max.toNat % 2 ^ 8 =
        ((raw &&& max.toUInt32).toNat * 255 + max.toNat / 2) / max.toNat :=
      Nat.mod_eq_of_lt (by omega)
    rw [Nat.mod_eq_of_lt hfits, hdiv]

/-- `unscale` takes `0..=255` to a channel. -/
theorem Full.unscale (h : Full max k) (v : UInt8) :
    (unscale v max).toNat = rescale v.toNat 255 max.toNat := by
  have hfits := unscale_fits v max
  have hv := v.toNat_lt
  have hle := rescale_le (v := v.toNat) (a := 255) (by omega) (by omega) max.toNat
  have hvalue := h.value
  have hpow := Nat.two_pow_pos k
  rw [PixelFormat.unscale, if_neg h.ne_zero]
  split
  · next h255 =>
      subst h255
      have hnat : (255 : UInt16).toNat = 255 := rfl
      rw [UInt8.toNat_toUInt32, hnat, rescale]
      omega
  · rw [h.and, UInt32.toNat_div, UInt32.toNat_add, UInt32.toNat_mul, UInt8.toNat_toUInt32,
      UInt16.toNat_toUInt32]
    have h255 : (255 : UInt32).toNat = 255 := rfl
    have h127 : (127 : UInt32).toNat = 127 := rfl
    have hmul : v.toNat * max.toNat % 2 ^ 32 = v.toNat * max.toNat := Nat.mod_eq_of_lt (by omega)
    rw [h255, h127, hmul, Nat.mod_eq_of_lt hfits]
    show rescale v.toNat 255 max.toNat % 2 ^ k = _
    exact Nat.mod_eq_of_lt (by omega)

/-- A channel of at most eight bits survives. -/
theorem Full.unscale_scale (h : Full max k) (hk : k ≤ 8) (raw : UInt32) :
    PixelFormat.unscale (PixelFormat.scale raw max) max = raw &&& max.toUInt32 := by
  have hmax : max.toNat ≤ 255 := by
    have hpow : 2 ^ k ≤ 2 ^ 8 := Nat.pow_le_pow_right (by omega) hk
    have hvalue := h.value
    omega
  apply UInt32.toNat_inj.mp
  rw [h.unscale, h.scale, rescale_rescale h.toNat_pos hmax (by omega)]

/-- A channel of at least eight bits carries every value of `0..=255`. -/
theorem Full.scale_unscale (h : Full max k) (hk : 8 ≤ k) (v : UInt8) :
    PixelFormat.scale (PixelFormat.unscale v max) max = v := by
  have hmax : 255 ≤ max.toNat := by
    have hpow : 2 ^ 8 ≤ 2 ^ k := Nat.pow_le_pow_right (by omega) hk
    have hvalue := h.value
    omega
  apply UInt8.toNat_inj.mp
  rw [h.scale, unscale_and_max, h.unscale, rescale_rescale (by omega) hmax (by omega)]

end Scale

/-! ## The fields of a pixel -/

section Fields

variable {f : PixelFormat} {bits : Channel → Nat}

theorem Regular.channel (h : f.Regular bits) (c : Channel) : Full (f.maxOf c) (bits c) :=
  ⟨(h.width c).1, (h.width c).2, h.full c⟩

theorem Regular.le_32 (h : f.Regular bits) (c : Channel) : (f.shiftOf c).toNat + bits c ≤ 32 := by
  have hinside := h.inside c
  have hbpp : f.bitsPerPixel.toNat ≤ 32 := by
    rcases h.depths with hd | hd | hd | hd <;> rw [hd] <;> decide
  omega

/-- A shift of a regular format is no more than the bits of a word. -/
theorem Regular.shift (h : f.Regular bits) (c : Channel) :
    (f.shiftOf c).toUInt32.toNat % 32 = (f.shiftOf c).toNat := by
  have hle := h.le_32 c
  have hwidth := (h.width c).1
  rw [UInt8.toNat_toUInt32]
  exact Nat.mod_eq_of_lt (by omega)

/-- A channel's raw value is some of the pixel's bits. -/
theorem testBit_field {c : Channel} {k : Nat} (hvalue : (f.maxOf c).toNat = 2 ^ k - 1)
    (hinside : (f.shiftOf c).toNat + k ≤ 32) (p : UInt32) (i : Nat) :
    (f.field c p).toNat.testBit i =
      (decide (i < k) && p.toNat.testBit ((f.shiftOf c).toNat + i)) := by
  rw [field, and_full hvalue, Nat.testBit_mod_two_pow]
  by_cases hi : i < k
  · have hshift : (f.shiftOf c).toUInt32.toNat % 32 = (f.shiftOf c).toNat := by
      rw [UInt8.toNat_toUInt32]
      exact Nat.mod_eq_of_lt (by omega)
    rw [UInt32.toNat_shiftRight, hshift, Nat.testBit_shiftRight]
  · rw [decide_eq_false hi, Bool.false_and, Bool.false_and]

theorem Regular.testBit_field (h : f.Regular bits) (c : Channel) (p : UInt32) (i : Nat) :
    (f.field c p).toNat.testBit i =
      (decide (i < bits c) && p.toNat.testBit ((f.shiftOf c).toNat + i)) :=
  PixelFormat.testBit_field (h.full c) (h.le_32 c) p i

/-- The bits of a colour's channel, where its field is. -/
theorem Regular.testBit_shifted (h : f.Regular bits) (c : Channel) (v : UInt8) (j : Nat) :
    (unscale v (f.maxOf c) <<< (f.shiftOf c).toUInt32).toNat.testBit j =
      (decide ((f.shiftOf c).toNat ≤ j) &&
        (unscale v (f.maxOf c)).toNat.testBit (j - (f.shiftOf c).toNat)) := by
  have hlt : (unscale v (f.maxOf c)).toNat < 2 ^ bits c := by
    rw [← unscale_and_max, (h.channel c).and]
    exact Nat.mod_lt _ (Nat.two_pow_pos _)
  have hsum : (unscale v (f.maxOf c)).toNat <<< (f.shiftOf c).toNat < 2 ^ 32 := by
    rw [Nat.shiftLeft_eq]
    calc (unscale v (f.maxOf c)).toNat * 2 ^ (f.shiftOf c).toNat
        < 2 ^ bits c * 2 ^ (f.shiftOf c).toNat :=
          Nat.mul_lt_mul_of_pos_right hlt (Nat.two_pow_pos _)
      _ = 2 ^ ((f.shiftOf c).toNat + bits c) := by rw [Nat.pow_add, Nat.mul_comm]
      _ ≤ 2 ^ 32 := Nat.pow_le_pow_right (by omega) (h.le_32 c)
  rw [UInt32.toNat_shiftLeft, h.shift c, Nat.mod_eq_of_lt hsum, Nat.testBit_shiftLeft]

/-- The field of another channel has no bit here. -/
theorem Regular.testBit_other (h : f.Regular bits) {c c' : Channel} (hne : c ≠ c') (v : UInt8)
    {i : Nat} (hi : i < bits c) :
    (unscale v (f.maxOf c') <<< (f.shiftOf c').toUInt32).toNat.testBit ((f.shiftOf c).toNat + i) =
      false := by
  rw [h.testBit_shifted]
  rcases h.apart c c' hne with hbelow | habove
  · rw [decide_eq_false (by omega), Bool.false_and]
  · have hlt : (unscale v (f.maxOf c')).toNat < 2 ^ bits c' := by
      rw [← unscale_and_max, (h.channel c').and]
      exact Nat.mod_lt _ (Nat.two_pow_pos _)
    rw [Nat.testBit_lt_two_pow (Nat.lt_of_lt_of_le hlt
      (Nat.pow_le_pow_right (by omega) (by omega))), Bool.and_false]

/-- The channels of a colour are found in its pixel value. -/
theorem Regular.field_fromRgba (h : f.Regular bits) (c : Channel) (rgba : Rgba) :
    f.field c (f.fromRgba rgba) = unscale (rgba.channel c) (f.maxOf c) := by
  apply UInt32.toNat_inj.mp
  refine Nat.eq_of_testBit_eq (fun i => ?_)
  rw [h.testBit_field]
  by_cases hi : i < bits c
  · have hown : (unscale (rgba.channel c) (f.maxOf c) <<<
        (f.shiftOf c).toUInt32).toNat.testBit ((f.shiftOf c).toNat + i) =
          (unscale (rgba.channel c) (f.maxOf c)).toNat.testBit i := by
      rw [h.testBit_shifted, decide_eq_true (by omega), Bool.true_and, Nat.add_sub_cancel_left]
    have hother : ∀ c', c ≠ c' → (unscale (rgba.channel c') (f.maxOf c') <<<
        (f.shiftOf c').toUInt32).toNat.testBit ((f.shiftOf c).toNat + i) = false :=
      fun c' hne => h.testBit_other hne (rgba.channel c') hi
    rw [decide_eq_true hi, Bool.true_and, fromRgba, UInt32.toNat_or, UInt32.toNat_or,
      Nat.testBit_or, Nat.testBit_or]
    cases c with
    | red =>
        have hg := hother .green (by decide)
        have hb := hother .blue (by decide)
        simp only [Rgba.channel, maxOf, shiftOf] at hown hg hb ⊢
        rw [hown, hg, hb, Bool.or_false, Bool.or_false]
    | green =>
        have hr := hother .red (by decide)
        have hb := hother .blue (by decide)
        simp only [Rgba.channel, maxOf, shiftOf] at hown hr hb ⊢
        rw [hown, hr, hb, Bool.false_or, Bool.or_false]
    | blue =>
        have hr := hother .red (by decide)
        have hg := hother .green (by decide)
        simp only [Rgba.channel, maxOf, shiftOf] at hown hr hg ⊢
        rw [hown, hr, hg, Bool.false_or, Bool.false_or]
  · have hlt : (unscale (rgba.channel c) (f.maxOf c)).toNat < 2 ^ bits c := by
      rw [← unscale_and_max, (h.channel c).and]
      exact Nat.mod_lt _ (Nat.two_pow_pos _)
    rw [decide_eq_false hi, Bool.false_and, Nat.testBit_lt_two_pow (Nat.lt_of_lt_of_le hlt
      (Nat.pow_le_pow_right (by omega) (by omega)))]

/-- `to_rgba` reads a channel's raw value. -/
theorem Regular.toNat_channel (h : f.Regular bits) (c : Channel) (p : UInt32) :
    ((f.toRgba p).channel c).toNat = rescale (f.field c p).toNat (f.maxOf c).toNat 255 := by
  rw [toRgba_channel, (h.channel c).scale]
  rfl

end Fields

/-! ## The codec -/

/-- **The pixel codec loses only what it must**, for every regular format: a
written pixel is read back; a channel of at most eight bits survives the way
through RGBA, and one of at least eight bits the way from RGBA; no bit is set
outside the fields; each channel grows with its raw value, from 0 to 255; and
nothing overflows. -/
theorem codec_lossless {f : PixelFormat} {bits : Channel → Nat} (h : f.Regular bits) :
    (∀ p, (f.writePixel p).length = f.bytesPerPixel ∧
      (f.readPixel (f.writePixel p)).toNat = p.toNat % 2 ^ f.bitsPerPixel.toNat) ∧
    (∀ c p, bits c ≤ 8 → f.field c (f.fromRgba (f.toRgba p)) = f.field c p) ∧
    (∀ rgba, f.fromRgba rgba &&& f.colourMask = f.fromRgba rgba) ∧
    (∀ c rgba, 8 ≤ bits c → (f.toRgba (f.fromRgba rgba)).channel c = rgba.channel c) ∧
    (∀ c p q, f.field c p ≤ f.field c q → (f.toRgba p).channel c ≤ (f.toRgba q).channel c) ∧
    (∀ c p, f.field c p = 0 → (f.toRgba p).channel c = 0) ∧
    (∀ c p, f.field c p = (f.maxOf c).toUInt32 → (f.toRgba p).channel c = 255) ∧
    (∀ c raw, (raw &&& (f.maxOf c).toUInt32).toNat * 255 + (f.maxOf c).toNat / 2 < 2 ^ 32 ∧
      (scale raw (f.maxOf c)).toNat =
        ((raw &&& (f.maxOf c).toUInt32).toNat * 255 + (f.maxOf c).toNat / 2) /
          (f.maxOf c).toNat) ∧
    ∀ c v, v.toNat * (f.maxOf c).toNat + 127 < 2 ^ 32 ∧
      (unscale v (f.maxOf c)).toNat = (v.toNat * (f.maxOf c).toNat + 127) / 255 := by
  refine ⟨fun p => ⟨?_, ?_⟩, fun c p hk => ?_, fromRgba_and_colourMask f, fun c rgba hk => ?_,
    fun c p q hle => ?_, fun c p hzero => ?_, fun c p hfull => ?_,
    fun c raw => ⟨scale_fits raw _, (h.channel c).scale raw⟩,
    fun c v => ⟨unscale_fits v _, (h.channel c).unscale v⟩⟩
  · rw [length_writePixel, bytesPerPixel]
    rcases h.depths with hd | hd | hd | hd <;> rw [hd] <;> decide
  · rw [readPixel_writePixel, bytesPerPixel]
    rcases h.depths with hd | hd | hd | hd <;> rw [hd] <;> rfl
  · rw [h.field_fromRgba, toRgba_channel, (h.channel c).unscale_scale hk]
    rfl
  · have hscale : (f.toRgba (f.fromRgba rgba)).channel c =
        scale (f.field c (f.fromRgba rgba)) (f.maxOf c) := by
      apply UInt8.toNat_inj.mp
      rw [h.toNat_channel, (h.channel c).scale, field, UInt32.and_assoc, UInt32.and_self]
    rw [hscale, h.field_fromRgba, (h.channel c).scale_unscale hk]
  · rw [UInt8.le_iff_toNat_le, h.toNat_channel, h.toNat_channel]
    exact rescale_mono (UInt32.le_iff_toNat_le.mp hle) _ _
  · apply UInt8.toNat_inj.mp
    rw [h.toNat_channel, hzero]
    exact rescale_zero (h.channel c).toNat_pos _
  · apply UInt8.toNat_inj.mp
    rw [h.toNat_channel, hfull, UInt16.toNat_toUInt32]
    exact rescale_self (h.channel c).toNat_pos _

/-- Sixteen bits, big-endian: five red, six green, five blue. -/
def rgb565 : PixelFormat :=
  { bitsPerPixel := 16, depth := 16, bigEndian := true, trueColour := true,
    redMax := 31, greenMax := 63, blueMax := 31, redShift := 11, greenShift := 5, blueShift := 0 }

def bits565 : Channel → Nat
  | .red => 5
  | .green => 6
  | .blue => 5

theorem rgb565_regular : rgb565.Regular bits565 :=
  { depths := by decide
    width := fun c => by cases c <;> decide
    full := fun c => by cases c <;> decide
    inside := fun c => by cases c <;> decide
    apart := fun c c' => by cases c <;> cases c' <;> decide }

theorem codec_lossless_565 :
    (rgb565.readPixel (rgb565.writePixel 0x1234ABCD)).toNat = 0xABCD ∧
      rgb565.field .green (rgb565.fromRgba (rgb565.toRgba 0xABCD)) = rgb565.field .green 0xABCD :=
  have h := codec_lossless rgb565_regular
  ⟨(h.1 0x1234ABCD).2, h.2.1 .green 0xABCD (by decide)⟩

end PixelFormat

end Bolide.Rfb
