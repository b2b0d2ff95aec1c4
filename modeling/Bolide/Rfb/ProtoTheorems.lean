/-
Bolide.Rfb.ProtoTheorems — what the pixel codec keeps.

`read_pixel` and `write_pixel` are the big-endian coding of `Bolide.Lib.Bytes`
in one byte order or the other, so reading back a written pixel gives its
low bytes. A channel of a colour stays inside its field: `from_rgba` only
ever sets bits of the format's colour mask.
-/
import Bolide.Rfb.Proto

namespace Bolide.Rfb

open Lib

namespace PixelFormat

/-! ## Formats as bytes -/

/-- A format survives its wire block. -/
theorem decode_encode (f : PixelFormat) : decode f.encode = f := by
  obtain ⟨r₀, r₁, hr, hred⟩ := be16_eq f.redMax
  obtain ⟨g₀, g₁, hg, hgreen⟩ := be16_eq f.greenMax
  obtain ⟨b₀, b₁, hb, hblue⟩ := be16_eq f.blueMax
  have hbool : ∀ b : Bool, decide ((if b = true then (1 : UInt8) else 0) ≠ 0) = b := by decide
  simp only [decode, encode, hr, hg, hb, List.cons_append, List.nil_append, List.getD_cons_zero,
    List.getD_cons_succ, List.drop_succ_cons, List.drop_zero, List.take_succ_cons, List.take_zero,
    hbool, hred, hgreen, hblue]

/-! ## Pixels as bytes -/

/-- Shifting bytes in is reading them big-endian, while they fit. -/
theorem toNat_foldl_shift (bs : List UInt8) (h : bs.length ≤ 4) :
    (bs.foldl (fun (v : UInt32) byte => (v <<< 8) ||| byte.toUInt32) 0).toNat = beNat bs := by
  induction bs using List.reverseRecOn with
  | nil => rfl
  | append_singleton bs b ih =>
      rw [List.length_append, List.length_singleton] at h
      have hlt := beNat_lt bs
      have hpow : 256 ^ bs.length ≤ 256 ^ 3 := Nat.pow_le_pow_right (by omega) (by omega)
      have hb : b.toNat < 2 ^ 8 := b.toNat_lt
      rw [List.foldl_append, List.foldl_cons, List.foldl_nil, beNat_snoc, UInt32.toNat_or,
        UInt32.toNat_shiftLeft, ih (by omega), UInt8.toNat_toUInt32]
      have h8 : (8 : UInt32).toNat % 32 = 8 := rfl
      rw [h8, Nat.mod_eq_of_lt (by rw [Nat.shiftLeft_eq]; omega),
        ← Nat.shiftLeft_add_eq_or_of_lt hb, Nat.shiftLeft_eq]

/-- The value of wire bytes. -/
theorem toNat_readPixel (f : PixelFormat) (wire : List UInt8) :
    (f.readPixel wire).toNat
      = beNat (if f.bigEndian then wire.take (min f.bytesPerPixel 4)
          else (wire.take (min f.bytesPerPixel 4)).reverse) := by
  rw [readPixel, toNat_foldl_shift]
  split
  · rw [List.length_take]
    omega
  · rw [List.length_reverse, List.length_take]
    omega

/-- The bytes of a number, least significant first. -/
theorem reverse_beBytes (k n : Nat) :
    (beBytes k n).reverse = (List.range k).map (fun i => UInt8.ofNat (n / 256 ^ i)) := by
  induction k generalizing n with
  | zero => rfl
  | succ k ih =>
      rw [beBytes, List.reverse_append, List.reverse_singleton, List.singleton_append, ih,
        List.range_succ_eq_map, List.map_cons, List.map_map, Nat.pow_zero, Nat.div_one]
      congr 1
      refine List.map_congr_left fun i _ => ?_
      simp only [Function.comp, Nat.succ_eq_add_one]
      rw [Nat.div_div_eq_div_mul, Nat.pow_succ']

theorem writePixel_eq (f : PixelFormat) (p : UInt32) :
    f.writePixel p = if f.bigEndian then beBytes (min f.bytesPerPixel 4) p.toNat
      else (beBytes (min f.bytesPerPixel 4) p.toNat).reverse := by
  have hlow : (List.range (min f.bytesPerPixel 4)).map
      (fun i => (p >>> UInt32.ofNat (8 * i)).toUInt8)
        = (beBytes (min f.bytesPerPixel 4) p.toNat).reverse := by
    rw [reverse_beBytes]
    refine List.map_congr_left fun i hi => ?_
    have hi4 : i < 4 := by
      have := List.mem_range.mp hi
      omega
    apply UInt8.toNat_inj.mp
    have hshift : (UInt32.ofNat (8 * i)).toNat % 32 = 8 * i := by
      rw [UInt32.toNat_ofNat']
      omega
    rw [UInt32.toNat_toUInt8, UInt32.toNat_shiftRight, hshift, Nat.shiftRight_eq_div_pow,
      UInt8.toNat_ofNat', Nat.pow_mul]
  simp only [writePixel, hlow, List.reverse_reverse]

/-- Reading back a written pixel gives its low bytes. -/
theorem readPixel_writePixel (f : PixelFormat) (p : UInt32) :
    (f.readPixel (f.writePixel p)).toNat = p.toNat % 256 ^ min f.bytesPerPixel 4 := by
  have htake : (f.writePixel p).take (min f.bytesPerPixel 4) = f.writePixel p := by
    rw [← f.length_writePixel p, List.take_length]
  rw [toNat_readPixel, htake, writePixel_eq]
  split
  · rw [beNat_beBytes]
  · rw [List.reverse_reverse, beNat_beBytes]

/-! ## Channels -/

/-- The bits a format's colours can set. -/
def colourMask (f : PixelFormat) : UInt32 :=
  (f.redMax.toUInt32 <<< f.redShift.toUInt32) |||
    (f.greenMax.toUInt32 <<< f.greenShift.toUInt32) |||
    (f.blueMax.toUInt32 <<< f.blueShift.toUInt32)

/-- A channel's raw value stays inside its maximum's bits. -/
theorem unscale_and_max (v : UInt8) (max : UInt16) :
    unscale v max &&& max.toUInt32 = unscale v max := by
  unfold unscale
  split
  · next h => subst h; rfl
  · split
    · next h =>
        subst h
        apply UInt32.toNat_inj.mp
        rw [UInt32.toNat_and, UInt8.toNat_toUInt32]
        have h255 : (255 : UInt16).toUInt32.toNat = 2 ^ 8 - 1 := rfl
        rw [h255, Nat.and_two_pow_sub_one_eq_mod]
        exact Nat.mod_eq_of_lt v.toNat_lt
    · rw [UInt32.and_assoc, UInt32.and_self]

/-- A colour's pixel value sets no bit outside the colour mask. -/
theorem fromRgba_and_colourMask (f : PixelFormat) (c : Rgba) :
    f.fromRgba c &&& f.colourMask = f.fromRgba c := by
  have hr := unscale_and_max c.r f.redMax
  have hg := unscale_and_max c.g f.greenMax
  have hb := unscale_and_max c.b f.blueMax
  have hsub : ∀ x m s : UInt32, x &&& m = x → (x <<< s) &&& (m <<< s) = x <<< s := by
    intro x m s h
    rw [← UInt32.shiftLeft_and, h]
  have hor : ∀ x y m n : UInt32, x &&& m = x → y &&& n = y →
      (x ||| y) &&& (m ||| n) = x ||| y := by
    intro x y m n hx hy
    rw [← hx, ← hy]
    apply UInt32.toBitVec_inj.mp
    simp only [UInt32.toBitVec_and, UInt32.toBitVec_or]
    ext i
    simp only [BitVec.getElem_and, BitVec.getElem_or]
    cases x.toBitVec[i] <;> cases y.toBitVec[i] <;> cases m.toBitVec[i] <;>
      cases n.toBitVec[i] <;> rfl
  exact hor _ _ _ _ (hor _ _ _ _ (hsub _ _ _ hr) (hsub _ _ _ hg)) (hsub _ _ _ hb)

/-! ## What a CPIXEL carries -/

/-- The bits of a pixel value that the format's CPIXEL carries: all the
bits of the pixel, or all but the byte that is dropped. -/
def cpixelMask (f : PixelFormat) : UInt32 :=
  if f.cpixelBytes = f.bytesPerPixel then UInt32.ofNat (256 ^ min f.bytesPerPixel 4 - 1)
  else if f.cpixelDropsHighByte then 0x00ffffff else 0xffffff00

/-- The CPIXEL loses no colour bit. -/
def CpixelKeepsColour (f : PixelFormat) : Prop := f.colourMask &&& f.cpixelMask = f.colourMask

instance (f : PixelFormat) : Decidable f.CpixelKeepsColour :=
  inferInstanceAs (Decidable (_ = _))

/-- Then every colour's pixel value is made of bits the CPIXEL carries. -/
theorem fromRgba_and_cpixelMask {f : PixelFormat} (hf : f.CpixelKeepsColour) (c : Rgba) :
    f.fromRgba c &&& f.cpixelMask = f.fromRgba c := by
  rw [← fromRgba_and_colourMask, UInt32.and_assoc, hf]

/-- A pixel value below a power of two, by its mask. -/
theorem toNat_lt_of_and {p : UInt32} {k : Nat} (hk : k ≤ 32)
    (h : p &&& UInt32.ofNat (2 ^ k - 1) = p) : p.toNat < 2 ^ k := by
  have hpos : 0 < 2 ^ k := Nat.two_pow_pos k
  have hle : 2 ^ k ≤ 2 ^ 32 := Nat.pow_le_pow_right (by omega) hk
  have hval : (UInt32.ofNat (2 ^ k - 1)).toNat = 2 ^ k - 1 := by
    rw [UInt32.toNat_ofNat']
    omega
  rw [← h, UInt32.toNat_and, hval, Nat.and_two_pow_sub_one_eq_mod]
  exact Nat.mod_lt _ hpos

/-- The three low bytes of a pixel value. -/
theorem toNat_and_low (p : UInt32) : (p &&& 0x00ffffff).toNat = p.toNat % 2 ^ 24 := by
  rw [UInt32.toNat_and]
  exact Nat.and_two_pow_sub_one_eq_mod p.toNat 24

/-- The three high bytes of a pixel value. -/
theorem toNat_and_high (p : UInt32) : (p &&& 0xffffff00).toNat = p.toNat / 256 * 256 := by
  have hmask : (0xffffff00 : UInt32).toNat = (2 ^ 24 - 1) <<< 8 := rfl
  have hquot : p.toNat / 256 * 256 = (p.toNat >>> 8) <<< 8 := by
    rw [Nat.shiftLeft_eq, Nat.shiftRight_eq_div_pow]
  have hlt : p.toNat >>> 8 < 2 ^ 24 := by
    rw [Nat.shiftRight_eq_div_pow]
    exact Nat.div_lt_of_lt_mul p.toNat_lt
  rw [UInt32.toNat_and, hmask, hquot, ← Nat.mod_eq_of_lt hlt, ← Nat.and_two_pow_sub_one_eq_mod]
  refine Nat.eq_of_testBit_eq (fun i => ?_)
  rw [Nat.testBit_and, Nat.testBit_shiftLeft, Nat.testBit_shiftLeft, Nat.testBit_and,
    Nat.testBit_shiftRight]
  by_cases hi : 8 ≤ i
  · have hsum : 8 + (i - 8) = i := by omega
    rw [decide_eq_true hi, Bool.true_and, Bool.true_and, hsum]
  · rw [decide_eq_false hi, Bool.false_and, Bool.false_and, Bool.and_false]

end PixelFormat

end Bolide.Rfb
