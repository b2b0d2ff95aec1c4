/-
Bolide.Testkit.CpixelTheorems — when a CPIXEL loses no colour bit.

The width of a CPIXEL and the byte it drops are told from the shifts of the
channels alone, where what matters is the bits the channels occupy. A channel
that starts below bit 24 may end above it; its high bits are then in the
byte that is dropped. A channel of no bits has a shift all the same, and the
rule follows it.
-/
import Bolide.Rfb.PixelTheorems
import Bolide.Testkit.EncodeTheorems

namespace Bolide.Rfb.PixelFormat

open Lib

/-! ## Where the colour bits are -/

/-- A 32-bit true-colour format of depth at most 24, whose channels are
`bits` whole bits each, inside the pixel. -/
structure Compact (f : PixelFormat) (bits : Channel → Nat) : Prop where
  pixel : f.bitsPerPixel = 32
  depth : f.depth ≤ 24
  colour : f.trueColour = true
  width : ∀ c, bits c ≤ 16
  full : ∀ c, (f.maxOf c).toNat = 2 ^ bits c - 1
  inside : ∀ c, (f.shiftOf c).toNat + bits c ≤ 32

/-- Bit `j` of a pixel belongs to the channel. -/
def Occupies (f : PixelFormat) (bits : Channel → Nat) (c : Channel) (j : Nat) : Prop :=
  (f.shiftOf c).toNat ≤ j ∧ j < (f.shiftOf c).toNat + bits c

/-- All fields lie in the low 24 bits. -/
def InLow (f : PixelFormat) (bits : Channel → Nat) : Prop :=
  ∀ c j, f.Occupies bits c j → j < 24

/-- All fields lie in the high 24 bits. -/
def InHigh (f : PixelFormat) (bits : Channel → Nat) : Prop :=
  ∀ c j, f.Occupies bits c j → 8 ≤ j

/-- The shifts tell where the fields are: channels that all start below bit 24
end there, and where one shift is above bit 23 and one below bit 8, so are the
bits of some channels. -/
structure ShiftsTell (f : PixelFormat) (bits : Channel → Nat) : Prop where
  low : (∀ c, (f.shiftOf c).toNat ≤ 23) → ∀ c, (f.shiftOf c).toNat + bits c ≤ 24
  both : (∃ c, 23 < (f.shiftOf c).toNat) → (∃ c, (f.shiftOf c).toNat < 8) →
    (∃ c, 0 < bits c ∧ 24 < (f.shiftOf c).toNat + bits c) ∧
      ∃ c, 0 < bits c ∧ (f.shiftOf c).toNat < 8

section Compact

variable {f : PixelFormat} {bits : Channel → Nat}

/-- Every bit of the fields is a low one, by their ends. -/
theorem inLow_iff : f.InLow bits ↔ ∀ c, bits c = 0 ∨ (f.shiftOf c).toNat + bits c ≤ 24 := by
  constructor
  · intro hlow c
    by_cases hzero : bits c = 0
    · exact .inl hzero
    · have hlast := hlow c ((f.shiftOf c).toNat + bits c - 1) ⟨by omega, by omega⟩
      exact .inr (by omega)
  · intro hends c j hj
    have hc := hends c
    have hj' : (f.shiftOf c).toNat ≤ j ∧ j < (f.shiftOf c).toNat + bits c := hj
    omega

/-- Every bit of the fields is a high one, by their starts. -/
theorem inHigh_iff : f.InHigh bits ↔ ∀ c, bits c = 0 ∨ 8 ≤ (f.shiftOf c).toNat := by
  constructor
  · intro hhigh c
    by_cases hzero : bits c = 0
    · exact .inl hzero
    · exact .inr (hhigh c _ ⟨Nat.le_refl _, by omega⟩)
  · intro hstarts c j hj
    have hc := hstarts c
    have hj' : (f.shiftOf c).toNat ≤ j ∧ j < (f.shiftOf c).toNat + bits c := hj
    omega

theorem max_shift_le (a b n : UInt8) : max a b ≤ n ↔ a ≤ n ∧ b ≤ n := by
  show (if a ≤ b then b else a) ≤ n ↔ a ≤ n ∧ b ≤ n
  split <;> simp only [UInt8.le_iff_toNat_le] at * <;> omega

theorem le_min_shift (a b n : UInt8) : n ≤ min a b ↔ n ≤ a ∧ n ≤ b := by
  show n ≤ (if a ≤ b then a else b) ↔ n ≤ a ∧ n ≤ b
  split <;> simp only [UInt8.le_iff_toNat_le] at * <;> omega

theorem cpixelDropsHighByte_iff :
    f.cpixelDropsHighByte = true ↔ ∀ c, (f.shiftOf c).toNat ≤ 23 := by
  have hall : (∀ c, (f.shiftOf c).toNat ≤ 23) ↔
      f.redShift ≤ 23 ∧ f.greenShift ≤ 23 ∧ f.blueShift ≤ 23 :=
    ⟨fun h => ⟨h .red, h .green, h .blue⟩, fun h c => by cases c; exacts [h.1, h.2.1, h.2.2]⟩
  rw [hall, cpixelDropsHighByte, decide_eq_true_iff, max_shift_le, max_shift_le, and_assoc]

theorem Compact.cpixelBytes_iff (h : f.Compact bits) :
    f.cpixelBytes = 3 ↔ (∀ c, (f.shiftOf c).toNat ≤ 23) ∨ ∀ c, 8 ≤ (f.shiftOf c).toNat := by
  have hall : (∀ c, 8 ≤ (f.shiftOf c).toNat) ↔
      8 ≤ f.redShift ∧ 8 ≤ f.greenShift ∧ 8 ≤ f.blueShift :=
    ⟨fun h => ⟨h .red, h .green, h .blue⟩, fun h c => by cases c; exacts [h.1, h.2.1, h.2.2]⟩
  have hwhole : f.bytesPerPixel ≠ 3 := by
    rw [bytesPerPixel, h.pixel]
    decide
  rw [← cpixelDropsHighByte_iff, cpixelDropsHighByte, decide_eq_true_iff, hall, ← and_assoc,
    ← le_min_shift, ← le_min_shift, cpixelBytes, if_pos ⟨h.pixel, h.depth, h.colour⟩]
  split
  · next hor => exact ⟨fun _ => hor, fun _ => rfl⟩
  · next hneither => exact ⟨fun h3 => absurd h3 hwhole, fun hor => absurd hor hneither⟩

/-! ## What the dropped byte takes with it -/

/-- A colour is made of the raw values of its channels. -/
theorem toRgba_congr {p q : UInt32} (h : ∀ c, f.field c p = f.field c q) :
    f.toRgba p = f.toRgba q := by
  have hscale : ∀ (max : UInt16) (a b : UInt32), a &&& max.toUInt32 = b &&& max.toUInt32 →
      scale a max = scale b max := by
    intro max a b hab
    simp only [scale, hab]
  have hred := hscale _ _ _ (h .red)
  have hgreen := hscale _ _ _ (h .green)
  have hblue := hscale _ _ _ (h .blue)
  simp only [maxOf, shiftOf] at hred hgreen hblue
  rw [toRgba, toRgba, hred, hgreen, hblue]

/-- Fields in the low 24 bits do not miss the high byte. -/
theorem Compact.field_low (h : f.Compact bits) (hlow : f.InLow bits) (c : Channel) (p : UInt32) :
    f.field c (p &&& 0x00ffffff) = f.field c p := by
  apply UInt32.toNat_inj.mp
  refine Nat.eq_of_testBit_eq (fun i => ?_)
  rw [testBit_field (h.full c) (h.inside c), testBit_field (h.full c) (h.inside c), toNat_and_low,
    Nat.testBit_mod_two_pow]
  by_cases hi : i < bits c
  · have hbit := hlow c ((f.shiftOf c).toNat + i) ⟨by omega, by omega⟩
    rw [decide_eq_true hbit, Bool.true_and]
  · rw [decide_eq_false hi, Bool.false_and, Bool.false_and]

/-- Fields in the high 24 bits do not miss the low byte. -/
theorem Compact.field_high (h : f.Compact bits) (hhigh : f.InHigh bits) (c : Channel)
    (p : UInt32) : f.field c (p &&& 0xffffff00) = f.field c p := by
  apply UInt32.toNat_inj.mp
  refine Nat.eq_of_testBit_eq (fun i => ?_)
  have hquot : p.toNat / 256 * 256 = (p.toNat >>> 8) <<< 8 := by
    rw [Nat.shiftLeft_eq, Nat.shiftRight_eq_div_pow]
  rw [testBit_field (h.full c) (h.inside c), testBit_field (h.full c) (h.inside c),
    toNat_and_high, hquot, Nat.testBit_shiftLeft, Nat.testBit_shiftRight]
  by_cases hi : i < bits c
  · have hbit := hhigh c ((f.shiftOf c).toNat + i) ⟨by omega, by omega⟩
    have hsum : 8 + ((f.shiftOf c).toNat + i - 8) = (f.shiftOf c).toNat + i := by omega
    rw [decide_eq_true hbit, Bool.true_and, hsum]
  · rw [decide_eq_false hi, Bool.false_and, Bool.false_and]

/-- A field that ends above bit 24 is not full without the high byte. -/
theorem Compact.toRgba_low_ne (h : f.Compact bits) {c : Channel}
    (hstart : (f.shiftOf c).toNat ≤ 23) (hend : 24 < (f.shiftOf c).toNat + bits c) :
    f.toRgba (0xffffffff &&& 0x00ffffff) ≠ f.toRgba 0xffffffff := by
  have hchannel : Full (f.maxOf c) (bits c) := ⟨by omega, h.width c, h.full c⟩
  have hpos := hchannel.toNat_pos
  have hshift : (f.shiftOf c).toUInt32.toNat % 32 = (f.shiftOf c).toNat := by
    rw [UInt8.toNat_toUInt32]
    exact Nat.mod_eq_of_lt (by omega)
  -- all the bits of the channel, with the high byte
  have hwhole : (((0xffffffff : UInt32) >>> (f.shiftOf c).toUInt32) &&&
      (f.maxOf c).toUInt32).toNat = (f.maxOf c).toNat := by
    refine Nat.eq_of_testBit_eq (fun i => ?_)
    have hbits := testBit_field (h.full c) (h.inside c) 0xffffffff i
    rw [field] at hbits
    have hones : (0xffffffff : UInt32).toNat = 2 ^ 32 - 1 := rfl
    rw [hbits, h.full c, hones, Nat.testBit_two_pow_sub_one, Nat.testBit_two_pow_sub_one]
    by_cases hi : i < bits c
    · have hinside := h.inside c
      rw [decide_eq_true hi, decide_eq_true (by omega), Bool.true_and]
    · rw [decide_eq_false hi, Bool.false_and]
  -- less than half of them, without it
  have hpart : 2 * ((((0xffffffff : UInt32) &&& 0x00ffffff) >>> (f.shiftOf c).toUInt32) &&&
      (f.maxOf c).toUInt32).toNat < (f.maxOf c).toNat := by
    have hbelow : (((0xffffffff : UInt32) &&& 0x00ffffff) >>> (f.shiftOf c).toUInt32).toNat <
        2 ^ (24 - (f.shiftOf c).toNat) := by
      rw [UInt32.toNat_shiftRight, hshift, toNat_and_low, Nat.shiftRight_eq_div_pow]
      refine Nat.div_lt_of_lt_mul ?_
      rw [← Nat.pow_add, Nat.add_sub_cancel' (by omega)]
      exact Nat.mod_lt _ (Nat.two_pow_pos 24)
    have hand : ((((0xffffffff : UInt32) &&& 0x00ffffff) >>> (f.shiftOf c).toUInt32) &&&
        (f.maxOf c).toUInt32).toNat ≤
          (((0xffffffff : UInt32) &&& 0x00ffffff) >>> (f.shiftOf c).toUInt32).toNat := by
      rw [UInt32.toNat_and]
      exact Nat.and_le_left
    have hpow : 2 * 2 ^ (24 - (f.shiftOf c).toNat) ≤ 2 ^ bits c := by
      rw [← Nat.pow_succ']
      exact Nat.pow_le_pow_right (by omega) (by omega)
    have hvalue := h.full c
    omega
  intro heq
  have hcolour := congrArg (fun rgba => (rgba.channel c).toNat) heq
  simp only [toRgba_channel, hchannel.scale] at hcolour
  rw [hwhole, rescale_self hpos] at hcolour
  have hlt := rescale_lt (b := 255) hpart (by omega)
  omega

/-! ## The rule -/

/-- Every pixel comes out of its CPIXEL as the same colour, where the CPIXEL
has three bytes, and it has three bytes when all fields lie in the low 24 bits
or all in the high 24 bits, only. -/
def CpixelExact (f : PixelFormat) (bits : Channel → Nat) : Prop :=
  (f.cpixelBytes = 3 → ∀ p, ∃ bs, Testkit.writeCpixel f p = .ok bs ∧ bs.length = 3 ∧
    cpixelRgba f bs = .ok (f.toRgba p)) ∧
  (f.cpixelBytes = 3 ↔ f.InLow bits ∨ f.InHigh bits)

/-- The CPIXEL is written without a byte and read back with a zero for it. -/
theorem Compact.exact_iff (h : f.Compact bits) (hcb : f.cpixelBytes = 3) :
    (∀ p, ∃ bs, Testkit.writeCpixel f p = .ok bs ∧ bs.length = 3 ∧
      cpixelRgba f bs = .ok (f.toRgba p)) ↔ ∀ p, f.toRgba (p &&& f.cpixelMask) = f.toRgba p := by
  have hbpp : f.bytesPerPixel = 4 := by
    rw [bytesPerPixel, h.pixel]
    rfl
  constructor
  · intro hall p
    obtain ⟨bs, hbs, -, hread⟩ := hall p
    obtain ⟨bs', hbs', -, hread'⟩ := Testkit.writeCpixel_dropped hcb hbpp p
    rw [hbs] at hbs'
    cases hbs'
    rw [hread'] at hread
    injection hread
  · intro hall p
    obtain ⟨bs, hbs, hlen, hread⟩ := Testkit.writeCpixel_dropped hcb hbpp p
    exact ⟨bs, hbs, by rw [hlen, hcb], by rw [hread, hall p]⟩

/-- The mask of a three-byte CPIXEL. -/
theorem Compact.cpixelMask_eq (h : f.Compact bits) (hcb : f.cpixelBytes = 3) :
    f.cpixelMask = if f.cpixelDropsHighByte then 0x00ffffff else 0xffffff00 := by
  have hne : f.cpixelBytes ≠ f.bytesPerPixel := by
    rw [hcb, bytesPerPixel, h.pixel]
    decide
  rw [cpixelMask, if_neg hne]

/-- Channels that all start below bit 24 have to end there. -/
theorem Compact.low_of_exact (h : f.Compact bits) (hexact : f.CpixelExact bits)
    (hstarts : ∀ c, (f.shiftOf c).toNat ≤ 23) (c : Channel) :
    (f.shiftOf c).toNat + bits c ≤ 24 := by
  by_contra hend
  have hcb := h.cpixelBytes_iff.mpr (.inl hstarts)
  have hkept := (h.exact_iff hcb).mp (hexact.1 hcb) 0xffffffff
  rw [h.cpixelMask_eq hcb, if_pos (cpixelDropsHighByte_iff.mpr hstarts)] at hkept
  exact h.toRgba_low_ne (hstarts c) (by omega) hkept

/-- A CPIXEL of four bytes is for fields that are neither low nor high. -/
theorem Compact.both_of_exact (h : f.Compact bits) (hexact : f.CpixelExact bits)
    (hhigh : ∃ c, 23 < (f.shiftOf c).toNat) (hlow : ∃ c, (f.shiftOf c).toNat < 8) :
    (∃ c, 0 < bits c ∧ 24 < (f.shiftOf c).toNat + bits c) ∧
      ∃ c, 0 < bits c ∧ (f.shiftOf c).toNat < 8 := by
  have hcb : f.cpixelBytes ≠ 3 := by
    rw [Ne, h.cpixelBytes_iff]
    push Not
    exact ⟨hhigh, hlow⟩
  have hneither := mt hexact.2.mpr hcb
  rw [inLow_iff, inHigh_iff] at hneither
  push Not at hneither
  obtain ⟨⟨c, hc, hend⟩, c', hc', hstart⟩ := hneither
  exact ⟨⟨c, by omega, hend⟩, c', by omega, hstart⟩

/-- Where the shifts tell, no pixel misses the byte that is dropped. -/
theorem Compact.kept (h : f.Compact bits) (htell : f.ShiftsTell bits) (hcb : f.cpixelBytes = 3)
    (p : UInt32) : f.toRgba (p &&& f.cpixelMask) = f.toRgba p := by
  rw [h.cpixelMask_eq hcb]
  split
  · next hstarts =>
      have hlow : f.InLow bits :=
        inLow_iff.mpr fun c => .inr (htell.low (cpixelDropsHighByte_iff.mp hstarts) c)
      exact toRgba_congr fun c => h.field_low hlow c p
  · next hstarts =>
      have hhigh : f.InHigh bits := by
        rcases h.cpixelBytes_iff.mp hcb with hall | hall
        · exact absurd (cpixelDropsHighByte_iff.mpr hall) hstarts
        · exact inHigh_iff.mpr fun c => .inr (hall c)
      exact toRgba_congr fun c => h.field_high hhigh c p

/-- **A CPIXEL loses no colour bit exactly where the shifts tell where the
fields are.** -/
theorem cpixel_exact_iff (h : f.Compact bits) : f.CpixelExact bits ↔ f.ShiftsTell bits := by
  constructor
  · intro hexact
    exact ⟨h.low_of_exact hexact, h.both_of_exact hexact⟩
  · intro htell
    refine ⟨fun hcb => (h.exact_iff hcb).mpr (h.kept htell hcb), ?_⟩
    rw [h.cpixelBytes_iff]
    constructor
    · rintro (hstarts | hstarts)
      · exact .inl (inLow_iff.mpr fun c => .inr (htell.low hstarts c))
      · exact .inr (inHigh_iff.mpr fun c => .inr (hstarts c))
    · intro hfields
      by_contra hneither
      push Not at hneither
      obtain ⟨hhigh, hlow⟩ := hneither
      obtain ⟨⟨c, hc, hend⟩, c', hc', hstart⟩ := htell.both hhigh hlow
      rw [inLow_iff, inHigh_iff] at hfields
      rcases hfields with hall | hall
      · have := hall c
        omega
      · have := hall c'
        omega

/-- 32 bits per pixel, and a blue channel whose high four bits are in the high byte. -/
def highBlue32 : PixelFormat :=
  { rgbx32 with blueShift := 20 }

theorem compact_of_eights {f : PixelFormat} (hpixel : f.bitsPerPixel = 32) (hdepth : f.depth ≤ 24)
    (hcolour : f.trueColour = true)
    (hfull : f.redMax = 255 ∧ f.greenMax = 255 ∧ f.blueMax = 255)
    (hinside : f.redShift ≤ 24 ∧ f.greenShift ≤ 24 ∧ f.blueShift ≤ 24) :
    f.Compact (fun _ => 8) :=
  { pixel := hpixel
    depth := hdepth
    colour := hcolour
    width := fun _ => by decide
    full := fun c => by cases c <;> simp [maxOf, hfull]
    inside := fun c => by
      cases c
      exacts [Nat.add_le_add_right hinside.1 8, Nat.add_le_add_right hinside.2.1 8,
        Nat.add_le_add_right hinside.2.2 8] }

theorem cpixel_exact_rgbx32 : rgbx32.CpixelExact (fun _ => 8) :=
  (cpixel_exact_iff (compact_of_eights rfl (by decide) rfl (by decide) (by decide))).mpr
    { low := fun _ c => by cases c <;> decide
      both := fun ⟨c, hc⟩ => by cases c <;> exact absurd hc (by decide) }

/-- Fields apart from each other do not help: a blue channel at bit 20 loses
its high bits with the high byte. -/
theorem not_cpixel_exact_highBlue32 : ¬ ∀ (f : PixelFormat) (bits : Channel → Nat),
    f.Compact bits →
    (∀ c c' j, c ≠ c' → f.Occupies bits c j → ¬ f.Occupies bits c' j) →
    f.CpixelExact bits := by
  intro hall
  have h : highBlue32.Compact (fun _ => 8) :=
    compact_of_eights rfl (by decide) rfl (by decide) (by decide)
  have hexact := hall highBlue32 (fun _ => 8) h (fun c c' j hne hj hj' => by
    have hc : (highBlue32.shiftOf c).toNat ≤ j ∧ j < (highBlue32.shiftOf c).toNat + 8 := hj
    have hc' : (highBlue32.shiftOf c').toNat ≤ j ∧ j < (highBlue32.shiftOf c').toNat + 8 := hj'
    have hred : (highBlue32.shiftOf .red).toNat = 0 := rfl
    have hgreen : (highBlue32.shiftOf .green).toNat = 8 := rfl
    have hblue : (highBlue32.shiftOf .blue).toNat = 20 := rfl
    cases c <;> cases c' <;> simp only [hred, hgreen, hblue] at hc hc' <;>
      first | exact hne rfl | omega)
  exact absurd (h.low_of_exact hexact (fun c => by cases c <;> decide) .blue) (by decide)

end Compact

end Bolide.Rfb.PixelFormat
