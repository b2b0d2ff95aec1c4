/-
Bolide.Rfb.ZrleTheorems — the tile decoder accepts exactly the grammar.

Every parser of `Bolide.Rfb.Zrle` is shown to recognise the relation of
`Bolide.Rfb.ZrleGrammar` it was written for, by the composition rules of
`Bolide.Lib.Recogniser`, and to fail with nothing but a protocol error: a
panic (a slice, index, shift or copy out of range) is not one, so "never
panics" comes with every step. The payload as a whole is a fold over the
boxes of the rect, and a fold of disjoint copies shows every tile.
-/
import Bolide.Rfb.Zrle
import Bolide.Rfb.ZrleGrammar
import Bolide.Rfb.ProtoTheorems
import Bolide.Rfb.FramebufferTheorems

namespace Bolide.Rfb

open Lib

/-! ## The cursor -/

theorem takeBytes_recognises (n : Nat) :
    Recognises Stop.IsProtocol (takeBytes n) (fun bs a => bs.length = n ∧ a = bs) := by
  constructor
  · intro s a s'
    rw [takeBytes]
    by_cases h : s.length < n
    · rw [if_pos h]
      constructor
      · intro hk; cases hk
      · rintro ⟨bs, ⟨rfl, rfl⟩, rfl⟩
        rw [List.length_append] at h
        omega
    · rw [if_neg h]
      constructor
      · intro hk
        cases hk
        exact ⟨s.take n, ⟨by rw [List.length_take]; omega, rfl⟩, (List.take_append_drop n s).symm⟩
      · rintro ⟨bs, ⟨rfl, rfl⟩, rfl⟩
        rw [List.take_left, List.drop_left]
  · intro s e h
    rw [takeBytes] at h
    split at h
    · cases h; trivial
    · cases h

theorem takeByte_recognises :
    Recognises Stop.IsProtocol takeByte (fun bs b => bs = [b]) := by
  refine ((takeBytes_recognises 1).andThen (Q := fun raw bs b => bs = [] ∧ raw[0]? = some b)
    ?_).congr ?_
  · rintro xs raw ⟨hlen, rfl⟩
    obtain ⟨b, rfl⟩ := List.length_eq_one_iff.mp hlen
    exact (Recognises.ret b).congr fun bs c => by simp [eq_comm]
  · intro bs b
    constructor
    · rintro ⟨xs, ys, raw, rfl, ⟨hlen, rfl⟩, rfl, hb⟩
      obtain ⟨c, rfl⟩ := List.length_eq_one_iff.mp hlen
      simpa using hb
    · rintro rfl
      exact ⟨[b], [], [b], rfl, ⟨rfl, rfl⟩, rfl, rfl⟩

/-! ## CPIXELs -/

/-- A CPIXEL of a format: as many bytes as the format says, standing for
the colour of the pixel they are put back into. -/
def CPixel (fmt : PixelFormat) (bs : List UInt8) (c : Rgba) : Prop :=
  bs.length = fmt.cpixelBytes ∧ cpixelRgba fmt bs = .ok c

/-- A CPIXEL is as wide as the pixel, or three bytes of a four-byte one. -/
theorem cpixelBytes_cases (fmt : PixelFormat) :
    fmt.cpixelBytes = fmt.bytesPerPixel ∨
      fmt.cpixelBytes = 3 ∧ fmt.bytesPerPixel = 4 ∧ fmt.cpixelOffset ≤ 1 := by
  by_cases heq : fmt.cpixelBytes = fmt.bytesPerPixel
  · exact .inl heq
  · have hcb : fmt.cpixelBytes = 3 ∧ fmt.bitsPerPixel = 32 := by
      simp only [PixelFormat.cpixelBytes] at heq ⊢
      split at heq
      next h32 =>
        split at heq
        next hs => exact ⟨by rw [if_pos h32, if_pos hs], h32.1⟩
        next => exact absurd rfl heq
      next => exact absurd rfl heq
    refine .inr ⟨hcb.1, by rw [PixelFormat.bytesPerPixel, hcb.2]; rfl, ?_⟩
    rw [PixelFormat.cpixelOffset, if_neg heq]
    split <;> omega

/-- The wire bytes a CPIXEL is put back into. -/
def cpixelWire (fmt : PixelFormat) (bs : List UInt8) : List UInt8 :=
  if fmt.cpixelBytes = fmt.bytesPerPixel then bs
  else splice (List.replicate fmt.bytesPerPixel 0) fmt.cpixelOffset bs

/-- The bytes of a CPIXEL always denote a colour: putting them back never
goes out of the pixel. -/
theorem cpixelRgba_eq (fmt : PixelFormat) {bs : List UInt8} (h : bs.length = fmt.cpixelBytes) :
    cpixelRgba fmt bs = .ok (fmt.toRgba (fmt.readPixel (cpixelWire fmt bs))) := by
  rcases cpixelBytes_cases fmt with heq | ⟨hcb, hbpp, hoff⟩
  · simp only [cpixelRgba, cpixelWire, if_pos heq]
    rfl
  · have hne : ¬ fmt.cpixelBytes = fmt.bytesPerPixel := by omega
    have hput : splice? (List.replicate fmt.bytesPerPixel 0) fmt.cpixelOffset
        (fmt.cpixelOffset + fmt.cpixelBytes) bs
          = some (splice (List.replicate fmt.bytesPerPixel 0) fmt.cpixelOffset bs) :=
      splice?_eq_some (by omega) (by rw [List.length_replicate]; omega) (by omega)
    simp only [cpixelRgba, cpixelWire, if_neg hne, hput, orPanic_some]
    rfl

theorem readCpixel_recognises (fmt : PixelFormat) :
    Recognises Stop.IsProtocol (readCpixel fmt) (CPixel fmt) := by
  refine ((takeBytes_recognises _).andThen
    (Q := fun raw bs c => bs = [] ∧ cpixelRgba fmt raw = .ok c) ?_).congr ?_
  · rintro xs raw ⟨hlen, rfl⟩
    refine Recognises.lift fun e he => ?_
    rw [cpixelRgba_eq fmt hlen] at he
    cases he
  · intro bs c
    constructor
    · rintro ⟨xs, ys, raw, rfl, ⟨hlen, rfl⟩, rfl, hc⟩
      rw [List.append_nil]
      exact ⟨hlen, hc⟩
    · rintro ⟨hlen, hc⟩
      exact ⟨bs, [], bs, (List.append_nil bs).symm, ⟨hlen, rfl⟩, rfl, hc⟩

/-! ## Run lengths -/

theorem runLengthFrom_ok_iff : ∀ (s : List UInt8) (len n : Nat) (s' : List UInt8),
    runLengthFrom len s = .ok (n, s') ↔ ∃ bs, (∃ k b, b < 0xff ∧
      bs = List.replicate k 0xff ++ [b] ∧ n = (bs.map UInt8.toNat).sum + len) ∧ s = bs ++ s'
  | [], len, n, s' => by
      rw [runLengthFrom]
      constructor
      · intro h; cases h
      · rintro ⟨bs, ⟨k, b, -, rfl, -⟩, h⟩
        simp at h
  | c :: rest, len, n, s' => by
      rw [runLengthFrom]
      by_cases hc : c = 0xff
      · rw [if_neg (by simpa using hc), runLengthFrom_ok_iff rest]
        subst hc
        constructor
        · rintro ⟨bs, ⟨k, b, hb, rfl, rfl⟩, rfl⟩
          refine ⟨_, ⟨k + 1, b, hb, rfl, ?_⟩, rfl⟩
          rw [List.replicate_succ, List.cons_append, List.map_cons, List.sum_cons]
          omega
        · rintro ⟨bs, ⟨k, b, hb, rfl, rfl⟩, hrest⟩
          cases k with
          | zero =>
              simp only [List.replicate_zero, List.nil_append, List.cons_append,
                List.cons.injEq] at hrest
              rw [← hrest.1] at hb
              exact absurd hb (by decide)
          | succ k =>
              rw [List.replicate_succ, List.cons_append, List.cons_append, List.cons.injEq] at hrest
              refine ⟨_, ⟨k, b, hb, rfl, ?_⟩, hrest.2⟩
              rw [List.replicate_succ, List.cons_append, List.map_cons, List.sum_cons]
              omega
      · rw [if_pos hc]
        constructor
        · intro h
          cases h
          refine ⟨[c], ⟨0, c, ?_, rfl, by simp [Nat.add_comm]⟩, rfl⟩
          rw [UInt8.lt_iff_toNat_lt]
          have hlt : c.toNat < 256 := c.toNat_lt
          have hne : c.toNat ≠ 255 := fun h => hc (UInt8.toNat_inj.mp h)
          have h255 : (0xff : UInt8).toNat = 255 := rfl
          omega
        · rintro ⟨bs, ⟨k, b, hb, rfl, rfl⟩, hrest⟩
          cases k with
          | zero =>
              simp only [List.replicate_zero, List.nil_append, List.cons_append,
                List.cons.injEq] at hrest
              obtain ⟨rfl, rfl⟩ := hrest
              simp [Nat.add_comm]
          | succ k =>
              rw [List.replicate_succ, List.cons_append, List.cons_append, List.cons.injEq] at hrest
              exact absurd hrest.1 hc

theorem runLengthFrom_fails : ∀ (s : List UInt8) (len : Nat) (e : Stop),
    runLengthFrom len s = .error e → e.IsProtocol
  | [], len, e, h => by
      rw [runLengthFrom] at h
      cases h
      trivial
  | c :: rest, len, e, h => by
      rw [runLengthFrom] at h
      split at h
      · cases h
      · exact runLengthFrom_fails rest _ e h

theorem readRunLength_recognises :
    Recognises Stop.IsProtocol readRunLength RunLength :=
  ⟨fun s n s' => runLengthFrom_ok_iff s 1 n s', fun s e h => runLengthFrom_fails s 1 e h⟩

/-! ## Runs -/

theorem pushRun_ok_iff {px out : List Rgba} {c : Rgba} {run count : Nat} :
    pushRun px c run count = .ok out ↔
      px.length + run ≤ count ∧ out = px ++ List.replicate run c := by
  rw [pushRun]
  split
  · constructor
    · intro h; cases h
    · intro h; omega
  · constructor
    · intro h; cases h; exact ⟨by omega, rfl⟩
    · rintro ⟨-, rfl⟩; rfl

theorem pushRun_fails {px : List Rgba} {c : Rgba} {run count : Nat} {e : Stop}
    (h : pushRun px c run count = .error e) : e.IsProtocol := by
  rw [pushRun] at h
  split at h
  · cases h; trivial
  · cases h

/-- A full tile takes no more runs. -/
theorem full_iff {R : List UInt8 → Rgba × Nat → Prop} (hpos : ∀ bs r, R bs r → 1 ≤ r.2)
    {px bs out} {count : Nat} (hpx : px.length = count) :
    (bs = [] ∧ out = px) ↔
      ∃ runs, Many R bs runs ∧ out = px ++ expand runs ∧ out.length = count := by
  constructor
  · rintro ⟨rfl, rfl⟩
    exact ⟨[], .nil, (List.append_nil _).symm, hpx⟩
  · rintro ⟨runs, hruns, rfl, hlen⟩
    cases hruns with
    | nil => exact ⟨rfl, List.append_nil px⟩
    | cons hr _ =>
        have := hpos _ _ hr
        rw [List.length_append, expand_cons, List.length_append, List.length_replicate] at hlen
        omega

/-- The run loop, from the pixels so far: it takes runs until the tile is
full, and a run past the end is refused. -/
theorem decodeRuns_recognises {entry : TileM (Rgba × Nat)} {R : List UInt8 → Rgba × Nat → Prop}
    (he : Recognises Stop.IsProtocol entry R) (hpos : ∀ bs r, R bs r → 1 ≤ r.2) (count : Nat) :
    ∀ (fuel : Nat) (px : List Rgba), px.length ≤ count → count - px.length ≤ fuel →
      Recognises Stop.IsProtocol (decodeRuns entry count fuel px) (fun bs out =>
        ∃ runs, Many R bs runs ∧ out = px ++ expand runs ∧ out.length = count)
  | 0, px, hle, hfuel => by
      rw [decodeRuns]
      exact (Recognises.ret px).congr fun bs out => full_iff hpos (by omega)
  | fuel + 1, px, hle, hfuel => by
      rw [decodeRuns]
      by_cases hlt : px.length < count
      · rw [if_pos hlt]
        refine (he.andThen (Q := fun r bs out => ∃ runs, Many R bs runs ∧
          out = (px ++ List.replicate r.2 r.1) ++ expand runs ∧ out.length = count) ?_).congr ?_
        · intro xs r hr
          have h1 := hpos xs r hr
          refine ((Recognises.lift fun e h => pushRun_fails h).andThen
            (Q := fun px' bs out => ∃ runs, Many R bs runs ∧ out = px' ++ expand runs ∧
              out.length = count) ?_).congr ?_
          · rintro ys px' ⟨-, hpush⟩
            obtain ⟨hfit, rfl⟩ := pushRun_ok_iff.mp hpush
            refine decodeRuns_recognises he hpos count fuel _ ?_ ?_ <;>
              rw [List.length_append, List.length_replicate] <;> omega
          · intro bs out
            constructor
            · rintro ⟨ys, zs, px', rfl, ⟨rfl, hpush⟩, hruns⟩
              obtain ⟨-, rfl⟩ := pushRun_ok_iff.mp hpush
              exact hruns
            · rintro ⟨runs, hruns, hout, hlen⟩
              refine ⟨[], bs, _, rfl, ⟨rfl, pushRun_ok_iff.mpr ⟨?_, rfl⟩⟩, runs, hruns, hout, hlen⟩
              rw [hout, List.length_append, List.length_append, List.length_replicate] at hlen
              omega
        · intro bs out
          constructor
          · rintro ⟨xs, ys, r, rfl, hr, runs, hruns, rfl, hlen⟩
            exact ⟨r :: runs, .cons hr hruns, by rw [expand_cons, List.append_assoc], hlen⟩
          · rintro ⟨runs, hruns, rfl, hlen⟩
            cases hruns with
            | nil =>
                rw [expand_nil, List.append_nil] at hlen
                omega
            | cons hr hruns =>
                exact ⟨_, _, _, rfl, hr, _, hruns, by rw [expand_cons, List.append_assoc], hlen⟩
      · rw [if_neg hlt]
        exact (Recognises.ret px).congr fun bs out => full_iff hpos (by omega)

theorem plainEntry_recognises (fmt : PixelFormat) :
    Recognises Stop.IsProtocol (plainEntry fmt) (PlainRun (CPixel fmt)) := by
  refine ((readCpixel_recognises fmt).andThen fun _ c _ =>
    readRunLength_recognises.andThen fun _ n _ => Recognises.ret (c, n)).congr fun bs r => ?_
  constructor
  · rintro ⟨xs, ys, c, rfl, hc, zs, ws, n, rfl, hn, rfl, rfl⟩
    exact ⟨xs, zs, by rw [List.append_nil], hc, hn⟩
  · rintro ⟨cs, ls, rfl, hc, hn⟩
    exact ⟨cs, ls, r.1, rfl, hc, ls, [], r.2, (List.append_nil ls).symm, hn, rfl, rfl⟩

theorem plainRun_pos {P : List UInt8 → Rgba → Prop} {bs : List UInt8} {r : Rgba × Nat}
    (h : PlainRun P bs r) : 1 ≤ r.2 := by
  obtain ⟨cs, ls, -, -, hn⟩ := h
  exact hn.pos

/-! ## Palette runs -/

theorem and_low7 (b : UInt8) : (b &&& 0x7f).toNat = b.toNat % 128 := by
  rw [UInt8.toNat_and]
  exact Nat.and_two_pow_sub_one_eq_mod b.toNat 7

/-- Bit 7 is set in the bytes from 128 on. -/
theorem and_high_ne_zero_iff (b : UInt8) : b &&& 0x80 ≠ 0 ↔ 128 ≤ b.toNat := by
  have hlt : b.toNat < 256 := b.toNat_lt
  have hval : (b &&& 0x80).toNat = b.toNat / 128 * 128 := by
    rw [UInt8.toNat_and]
    have h128 : (0x80 : UInt8).toNat = 2 ^ 7 := rfl
    rw [h128, Nat.and_two_pow, Nat.testBit_eq_decide_div_mod_eq]
    have : b.toNat / 128 < 2 := by omega
    rcases Nat.lt_or_ge b.toNat 128 with h | h
    · simp [Nat.div_eq_of_lt h]
    · have h1 : b.toNat / 128 = 1 := by omega
      simp [h1]
  rw [ne_eq, ← UInt8.toNat_inj, hval]
  have h0 : (0 : UInt8).toNat = 0 := rfl
  omega

/-- A run of a palette's colour, once its index is known. -/
theorem paletteLook_recognises (palette : List Rgba) (idx run : Nat) :
    Recognises Stop.IsProtocol
      (match palette[idx]? with
        | some entry => pure (entry, run)
        | none => liftM (protocolError (α := Rgba × Nat)
            s!"ZRLE: RLE palette index {idx} is outside a palette of {palette.length}") :
        TileM (Rgba × Nat))
      (fun bs r => bs = [] ∧ palette[idx]? = some r.1 ∧ r.2 = run) := by
  cases palette[idx]? with
  | none => exact (Recognises.fail trivial).congr fun bs r => by simp
  | some c =>
      refine (Recognises.ret (c, run)).congr fun bs r => and_congr_right fun _ => ?_
      rw [Prod.ext_iff, Option.some_inj, eq_comm (a := c)]

theorem paletteEntry_recognises (palette : List Rgba) :
    Recognises Stop.IsProtocol (paletteEntry palette) (PaletteRun palette) := by
  refine (takeByte_recognises.andThen (Q := fun b bs r =>
    (128 ≤ b.toNat ∧ palette[b.toNat - 128]? = some r.1 ∧ RunLength bs r.2) ∨
      (b.toNat < 128 ∧ bs = [] ∧ palette[b.toNat]? = some r.1 ∧ r.2 = 1)) ?_).congr ?_
  · rintro _ b -
    by_cases hb : 128 ≤ b.toNat
    · have hidx : (b &&& 0x7f).toNat = b.toNat - 128 := by
        have hlt : b.toNat < 256 := b.toNat_lt
        rw [and_low7]
        omega
      rw [if_pos ((and_high_ne_zero_iff b).mpr hb)]
      simp only [pure_bind, hidx]
      refine (readRunLength_recognises.andThen fun _ run _ =>
        paletteLook_recognises palette _ run).congr fun bs r => ?_
      constructor
      · rintro ⟨xs, ys, run, rfl, hrun, rfl, hc, rfl⟩
        rw [List.append_nil]
        exact .inl ⟨hb, hc, hrun⟩
      · rintro (⟨-, hc, hrun⟩ | ⟨hlt, -⟩)
        · exact ⟨bs, [], r.2, (List.append_nil bs).symm, hrun, rfl, hc, rfl⟩
        · omega
    · rw [if_neg (mt (and_high_ne_zero_iff b).mp hb)]
      simp only [pure_bind]
      refine (paletteLook_recognises palette _ 1).congr fun bs r => ?_
      constructor
      · rintro ⟨rfl, hc, hn⟩
        exact .inr ⟨by omega, rfl, hc, hn⟩
      · rintro (⟨hge, -⟩ | ⟨-, hbs, hc, hn⟩)
        · omega
        · exact ⟨hbs, hc, hn⟩
  · intro bs r
    constructor
    · rintro ⟨_, ys, b, rfl, rfl, (⟨hb, hc, hrun⟩ | ⟨hb, rfl, hc, hn⟩)⟩
      · exact .inl ⟨b, ys, rfl, hb, hc, hrun⟩
      · exact .inr ⟨b, rfl, hb, hc, hn⟩
    · rintro (⟨b, ls, rfl, hb, hc, hrun⟩ | ⟨b, rfl, hb, hc, hn⟩)
      · exact ⟨[b], ls, b, rfl, rfl, .inl ⟨hb, hc, hrun⟩⟩
      · exact ⟨[b], [], b, rfl, rfl, .inr ⟨hb, rfl, hc, hn⟩⟩

theorem paletteRun_pos {palette : List Rgba} {bs : List UInt8} {r : Rgba × Nat}
    (h : PaletteRun palette bs r) : 1 ≤ r.2 := by
  rcases h with ⟨b, ls, -, -, -, hn⟩ | ⟨b, -, -, -, hn⟩
  · exact hn.pos
  · omega

/-! ## Packed palettes -/

/-- The three widths a packed index can have. -/
theorem packedBits_cases (n : Nat) : packedBits n = 1 ∨ packedBits n = 2 ∨ packedBits n = 4 := by
  unfold packedBits
  split
  · exact .inl rfl
  · split
    · exact .inr (.inl rfl)
    · exact .inr (.inr rfl)

theorem packedBits_eq {n : Nat} (h : 2 ≤ n) : packedBits n = fieldBits n := by
  unfold packedBits fieldBits
  split_ifs <;> omega

/-- The shift and mask of the code take the field out of the byte. -/
theorem shift_mask {bits shift : Nat} (hb : bits ≤ 7) (hs : shift < 8) (b : UInt8) :
    ((b >>> UInt8.ofNat shift) &&& (((1 : UInt16) <<< UInt16.ofNat bits) - 1).toUInt8).toNat
      = b.toNat / 2 ^ shift % 2 ^ bits := by
  have hmask : ((((1 : UInt16) <<< UInt16.ofNat bits) - 1).toUInt8).toNat = 2 ^ bits - 1 := by
    have : ∀ k ≤ 7, ((((1 : UInt16) <<< UInt16.ofNat k) - 1).toUInt8).toNat = 2 ^ k - 1 := by
      decide
    exact this bits hb
  have hshift : (UInt8.ofNat shift).toNat % 8 = shift := by
    rw [UInt8.toNat_ofNat']
    omega
  rw [UInt8.toNat_and, UInt8.toNat_shiftRight, hmask, hshift, Nat.and_two_pow_sub_one_eq_mod,
    Nat.shiftRight_eq_div_pow]

/-- The code's index arithmetic never leaves its byte, and finds the field. -/
theorem packedIndexAt_eq {bits : Nat} (hbits : bits = 1 ∨ bits = 2 ∨ bits = 4)
    (raw : List UInt8) (col : Nat) : packedIndexAt bits raw col = packedField bits raw col := by
  have hb8 : bits ≤ 7 := by omega
  -- `fields` of them to a byte: column `col` is field `col % fields` from the left
  have hfields : 8 / bits * bits = 8 := by rcases hbits with rfl | rfl | rfl <;> rfl
  have hbyte : col * bits / 8 = col / (8 / bits) := by
    rcases hbits with rfl | rfl | rfl <;> omega
  have hpos : col * bits % 8 = col % (8 / bits) * bits := by
    rcases hbits with rfl | rfl | rfl <;> omega
  have hlast : col % (8 / bits) * bits ≤ 8 - bits := by
    rcases hbits with rfl | rfl | rfl <;> omega
  have hdist : 8 - bits - col % (8 / bits) * bits = bits * (8 / bits - 1 - col % (8 / bits)) := by
    rcases hbits with rfl | rfl | rfl <;> omega
  have hlt : bits * (8 / bits - 1 - col % (8 / bits)) < 8 := by omega
  have hroom : sub? 8 bits = some (8 - bits) := if_pos (by omega)
  have hshift : sub? (8 - bits) (col % (8 / bits) * bits)
      = some (bits * (8 / bits - 1 - col % (8 / bits))) := by rw [sub?, if_pos hlast, hdist]
  simp only [packedIndexAt, packedField, hbyte, hpos, hroom, hshift, Option.bind_eq_bind,
    Option.bind_some]
  cases raw[col / (8 / bits)]? with
  | none => rfl
  | some b =>
      simp only [Option.bind_some, Option.map_some, shr?, if_pos hlt, ← Nat.pow_mul,
        ← shift_mask hb8 hlt]
      rfl

/-- Every column's byte is in the row. -/
theorem packedField_isSome {bits tw col : Nat} (hbits : bits = 1 ∨ bits = 2 ∨ bits = 4)
    {raw : List UInt8} (hlen : raw.length = (tw * bits + 7) / 8) (hcol : col < tw) :
    ∃ idx, packedField bits raw col = some idx := by
  have hin : col / (8 / bits) < raw.length := by
    rw [hlen]
    rcases hbits with rfl | rfl | rfl <;> omega
  simp only [packedField, List.getElem?_eq_getElem hin, Option.map_some]
  exact ⟨_, rfl⟩

/-- A column of a whole row answers its palette entry, or refuses its index. -/
theorem packedColumn_eq {palette : List Rgba} {raw : List UInt8} {tw col : Nat}
    (hlen : raw.length = (tw * packedBits palette.length + 7) / 8) (hcol : col < tw) :
    ∃ idx, packedField (packedBits palette.length) raw col = some idx ∧
      ((∃ c, palette[idx]? = some c ∧ packedColumn palette raw col = .ok c) ∨
        palette[idx]? = none ∧ ∃ e, packedColumn palette raw col = .error e ∧ e.IsProtocol) := by
  have hbits := packedBits_cases palette.length
  obtain ⟨idx, hidx⟩ := packedField_isSome hbits hlen hcol
  refine ⟨idx, hidx, ?_⟩
  rw [packedColumn, packedIndexAt_eq hbits, hidx, orPanic_some, ok_bind]
  cases palette[idx]? with
  | some c => exact .inl ⟨c, rfl, rfl⟩
  | none => exact .inr ⟨rfl, _, rfl, trivial⟩

/-- The row of a whole row of bytes. -/
theorem packedColumns_ok_iff {palette row : List Rgba} {raw : List UInt8} {tw : Nat}
    (hlen : raw.length = (tw * packedBits palette.length + 7) / 8) :
    (List.range tw).mapM (packedColumn palette raw) = .ok row ↔
      row.length = tw ∧ ∀ col < tw, ∃ idx,
        packedField (packedBits palette.length) raw col = some idx ∧
          palette[idx]? = row[col]? := by
  rw [mapM_ok_iff, List.forall₂_iff_get]
  constructor
  · rintro ⟨hl, hall⟩
    rw [List.length_range] at hl
    refine ⟨hl.symm, fun col hcol => ?_⟩
    have h := hall col (by rw [List.length_range]; exact hcol) (by omega)
    simp only [List.get_eq_getElem, List.getElem_range] at h
    obtain ⟨idx, hidx, ⟨c, hc, hok⟩ | ⟨-, e, herr, -⟩⟩ := packedColumn_eq hlen hcol
    · rw [h] at hok
      cases hok
      exact ⟨idx, hidx, by rw [hc, List.getElem?_eq_getElem]⟩
    · rw [h] at herr
      cases herr
  · rintro ⟨hl, hall⟩
    refine ⟨by rw [List.length_range, hl], fun col h1 h2 => ?_⟩
    rw [List.length_range] at h1
    simp only [List.get_eq_getElem, List.getElem_range]
    obtain ⟨idx, hidx, hpal⟩ := hall col h1
    obtain ⟨idx', hidx', ⟨c, hc, hok⟩ | ⟨hnone, -⟩⟩ := packedColumn_eq hlen h1 <;>
      rw [hidx] at hidx' <;> cases hidx'
    · rw [hpal, List.getElem?_eq_getElem h2] at hc
      cases hc
      exact hok
    · rw [hpal, List.getElem?_eq_getElem h2] at hnone
      cases hnone

theorem packedRow_recognises {palette : List Rgba} (hpal : 2 ≤ palette.length) (tw : Nat) :
    Recognises Stop.IsProtocol (packedRow palette tw) (PackedRow palette tw) := by
  refine ((takeBytes_recognises _).andThen (Q := fun raw bs row =>
    bs = [] ∧ (List.range tw).mapM (packedColumn palette raw) = .ok row) ?_).congr ?_
  · rintro xs raw ⟨hlen, rfl⟩
    refine Recognises.lift fun e he => ?_
    obtain ⟨col, hcol, he⟩ := mapM_error he
    obtain ⟨idx, -, ⟨c, -, hok⟩ | ⟨-, e', herr, hproto⟩⟩ :=
      packedColumn_eq hlen (List.mem_range.mp hcol)
    · rw [he] at hok
      cases hok
    · rw [he] at herr
      cases herr
      exact hproto
  · intro raw row
    rw [PackedRow, ← packedBits_eq hpal]
    constructor
    · rintro ⟨xs, ys, raw', rfl, ⟨hlen, rfl⟩, rfl, hok⟩
      rw [List.append_nil]
      exact ⟨hlen, (packedColumns_ok_iff hlen).mp hok⟩
    · rintro ⟨hlen, hok⟩
      exact ⟨raw, [], raw, (List.append_nil raw).symm, ⟨hlen, rfl⟩, rfl,
        (packedColumns_ok_iff hlen).mpr hok⟩

/-! ## The table of subencodings -/

/-- A tile by its first byte: the rows of the table, with the byte as the
code tests it. -/
theorem tile_cons_iff {P : List UInt8 → Rgba → Prop} {tw th : Nat} {sub : UInt8}
    {bs : List UInt8} {px : List Rgba} : Tile P tw th (sub :: bs) px ↔
      (sub.toNat = 0 ∧ px.length = tw * th ∧ Many P bs px) ∨
      (sub.toNat = 1 ∧ ∃ c, P bs c ∧ px = List.replicate (tw * th) c) ∨
      ((2 ≤ sub.toNat ∧ sub.toNat ≤ 16) ∧ ∃ ps rs palette rows, bs = ps ++ rs ∧
        palette.length = sub.toNat ∧ Many P ps palette ∧ rows.length = th ∧
        Many (PackedRow palette tw) rs rows ∧ px = rows.flatten) ∨
      (sub.toNat = 128 ∧ ∃ runs, Many (PlainRun P) bs runs ∧ px = expand runs ∧
        px.length = tw * th) ∨
      (130 ≤ sub.toNat ∧ ∃ ps rs palette runs, bs = ps ++ rs ∧
        palette.length = sub.toNat - 128 ∧ Many P ps palette ∧
        Many (PaletteRun palette) rs runs ∧ px = expand runs ∧ px.length = tw * th) := by
  constructor
  · intro h
    generalize hb : sub :: bs = bytes at h
    cases h with
    | raw hlen hpx =>
        cases hb
        exact .inl ⟨rfl, hlen, hpx⟩
    | solid hc =>
        cases hb
        exact .inr (.inl ⟨rfl, _, hc, rfl⟩)
    | @packed n ps rs palette rows hlo hhi hlen hps hth hrows =>
        obtain ⟨rfl, rfl⟩ := List.cons.inj hb
        have hn : (UInt8.ofNat n).toNat = n := UInt8.toNat_ofNat_of_lt' (by
          simp only [UInt8.size]; omega)
        exact .inr (.inr (.inl ⟨by omega, ps, rs, palette, rows, rfl, by omega, hps, hth, hrows,
          rfl⟩))
    | plainRle hruns hfill =>
        cases hb
        exact .inr (.inr (.inr (.inl ⟨rfl, _, hruns, rfl, hfill⟩)))
    | @paletteRle n ps rs palette runs hlo hhi hlen hps hruns hfill =>
        obtain ⟨rfl, rfl⟩ := List.cons.inj hb
        have hn : (UInt8.ofNat (128 + n)).toNat = 128 + n := UInt8.toNat_ofNat_of_lt' (by
          simp only [UInt8.size]; omega)
        exact .inr (.inr (.inr (.inr ⟨by omega, ps, rs, palette, runs, rfl, by omega, hps, hruns,
          rfl, hfill⟩)))
  · have hlt : sub.toNat < 256 := sub.toNat_lt
    rintro (⟨hs, hlen, hpx⟩ | ⟨hs, c, hc, rfl⟩ | ⟨hs, ps, rs, palette, rows, rfl, hlen, hps, hth,
      hrows, rfl⟩ | ⟨hs, runs, hruns, rfl, hfill⟩ | ⟨hs, ps, rs, palette, runs, rfl, hlen, hps,
      hruns, rfl, hfill⟩)
    · obtain rfl : sub = 0 := UInt8.toNat_inj.mp hs
      exact .raw hlen hpx
    · obtain rfl : sub = 1 := UInt8.toNat_inj.mp hs
      exact .solid hc
    · have h := Tile.packed (P := P) hs.1 hs.2 hlen hps hth hrows
      rwa [UInt8.ofNat_toNat] at h
    · obtain rfl : sub = 128 := UInt8.toNat_inj.mp hs
      exact .plainRle hruns hfill
    · have h := Tile.paletteRle (P := P) (n := sub.toNat - 128) (by omega) (by omega) hlen hps
        hruns hfill
      rwa [Nat.add_sub_cancel' (by omega), UInt8.ofNat_toNat] at h

theorem readPalette_recognises (fmt : PixelFormat) (n : Nat) :
    Recognises Stop.IsProtocol (readPalette fmt n)
      (fun bs palette => palette.length = n ∧ Many (CPixel fmt) bs palette) :=
  (readCpixel_recognises fmt).times n

/-- A run coding started on an empty tile. -/
theorem runs_recognises {entry : TileM (Rgba × Nat)} {R : List UInt8 → Rgba × Nat → Prop}
    (he : Recognises Stop.IsProtocol entry R) (hpos : ∀ bs r, R bs r → 1 ≤ r.2) (count : Nat) :
    Recognises Stop.IsProtocol (decodeRuns entry count count []) (fun bs px =>
      ∃ runs, Many R bs runs ∧ px = expand runs ∧ px.length = count) :=
  decodeRuns_recognises he hpos count count [] (Nat.zero_le _) (Nat.sub_le _ _)

theorem decodeBody_recognises (fmt : PixelFormat) (tw th : Nat) (sub : UInt8) :
    Recognises Stop.IsProtocol (decodeBody fmt tw th sub)
      (fun bs px => Tile (CPixel fmt) tw th (sub :: bs) px) := by
  have hlt : sub.toNat < 256 := sub.toNat_lt
  have h0 : sub = 0 ↔ sub.toNat = 0 := UInt8.toNat_inj.symm
  have h1 : sub = 1 ↔ sub.toNat = 1 := UInt8.toNat_inj.symm
  have hp : 2 ≤ sub ∧ sub ≤ 16 ↔ 2 ≤ sub.toNat ∧ sub.toNat ≤ 16 := Iff.rfl
  have h128 : sub = 128 ↔ sub.toNat = 128 := UInt8.toNat_inj.symm
  have h130 : 130 ≤ sub ↔ 130 ≤ sub.toNat := Iff.rfl
  simp only [decodeBody, h0, h1, hp, h128, h130]
  by_cases hs0 : sub.toNat = 0
  · rw [if_pos hs0]
    refine ((readCpixel_recognises fmt).times (tw * th)).congr fun bs px => ?_
    simp [tile_cons_iff, hs0]
  rw [if_neg hs0]
  by_cases hs1 : sub.toNat = 1
  · rw [if_pos hs1]
    refine ((readCpixel_recognises fmt).andThen fun _ c _ => Recognises.ret _).congr fun bs px => ?_
    rw [tile_cons_iff]
    constructor
    · rintro ⟨xs, ys, c, rfl, hc, rfl, rfl⟩
      exact .inr (.inl ⟨hs1, c, by rwa [List.append_nil], rfl⟩)
    · rintro (h | ⟨-, c, hc, rfl⟩ | h | h | h)
      · omega
      · exact ⟨bs, [], c, (List.append_nil bs).symm, hc, rfl, rfl⟩
      all_goals omega
  rw [if_neg hs1]
  by_cases hsp : 2 ≤ sub.toNat ∧ sub.toNat ≤ 16
  · rw [if_pos hsp]
    refine ((readPalette_recognises fmt _).andThen fun ps palette hps =>
      ((packedRow_recognises (by omega) tw).times th).andThen fun _ rows _ =>
        Recognises.ret rows.flatten).congr fun bs px => ?_
    rw [tile_cons_iff]
    constructor
    · rintro ⟨ps, ys, palette, rfl, ⟨hlen, hps⟩, rs, zs, rows, rfl, ⟨hth, hrows⟩, rfl, rfl⟩
      rw [List.append_nil]
      exact .inr (.inr (.inl ⟨hsp, ps, rs, palette, rows, rfl, hlen, hps, hth, hrows, rfl⟩))
    · rintro (h | h | ⟨-, ps, rs, palette, rows, rfl, hlen, hps, hth, hrows, rfl⟩ | h | h)
      · omega
      · omega
      · exact ⟨ps, rs, palette, rfl, ⟨hlen, hps⟩, rs, [], rows, (List.append_nil rs).symm,
          ⟨hth, hrows⟩, rfl, rfl⟩
      all_goals omega
  rw [if_neg hsp]
  by_cases hs128 : sub.toNat = 128
  · rw [if_pos hs128]
    refine (runs_recognises (plainEntry_recognises fmt) (fun _ _ => plainRun_pos) _).congr
      fun bs px => ?_
    simp [tile_cons_iff, hs128]
  rw [if_neg hs128]
  by_cases hs130 : 130 ≤ sub.toNat
  · rw [if_pos hs130]
    refine ((readPalette_recognises fmt _).andThen fun _ palette _ =>
      runs_recognises (paletteEntry_recognises palette) (fun _ _ => paletteRun_pos) _).congr
      fun bs px => ?_
    rw [tile_cons_iff]
    constructor
    · rintro ⟨ps, rs, palette, rfl, ⟨hlen, hps⟩, runs, hruns, hpx, hfill⟩
      exact .inr (.inr (.inr (.inr ⟨hs130, ps, rs, palette, runs, rfl, hlen, hps, hruns, hpx,
        hfill⟩)))
    · rintro (h | h | h | h | ⟨-, ps, rs, palette, runs, rfl, hlen, hps, hruns, hpx, hfill⟩)
      · omega
      · omega
      · omega
      · omega
      · exact ⟨ps, rs, palette, rfl, ⟨hlen, hps⟩, runs, hruns, hpx, hfill⟩
  rw [if_neg hs130]
  refine (Recognises.fail trivial).congr fun bs px => ?_
  rw [tile_cons_iff]
  constructor
  · intro h; exact h.elim
  · rintro (h | h | h | h | h) <;> omega

theorem decodeTile_recognises (fmt : PixelFormat) (tw th : Nat) :
    Recognises Stop.IsProtocol (decodeTile fmt tw th) (Tile (CPixel fmt) tw th) := by
  refine (takeByte_recognises.andThen (Q := fun sub bs px =>
    Tile (CPixel fmt) tw th (sub :: bs) px) fun _ sub _ => ?_).congr fun bs px => ?_
  · refine ((decodeBody_recognises fmt tw th sub).andThen
      (Q := fun px' bs px => bs = [] ∧ px = px') fun ys px' hpx => ?_).congr fun bs px => ?_
    · rw [if_neg (not_not.mpr hpx.length)]
      exact Recognises.ret px'
    · constructor
      · rintro ⟨xs, ys, px', rfl, hpx, rfl, rfl⟩
        rwa [List.append_nil]
      · intro h
        exact ⟨bs, [], px, (List.append_nil bs).symm, h, rfl, rfl⟩
  · constructor
    · rintro ⟨xs, ys, sub, rfl, rfl, h⟩
      exact h
    · intro h
      cases bs with
      | nil =>
          generalize hb : ([] : List UInt8) = bytes at h
          cases h <;> cases hb
      | cons sub bs => exact ⟨[sub], bs, sub, rfl, rfl, h⟩

/-! ## The payload as a fold over the boxes -/

theorem tileStarts_eq (n : Nat) : tileStarts n = tileOrigins n := by
  have hlt : (tileStarts n).Pairwise (fun a b => a < b) := by
    rw [tileStarts, List.pairwise_map]
    refine List.pairwise_lt_range.imp fun hab => ?_
    simp only [zrleTile]
    omega
  refine hlt.eq_of_mem_iff (List.pairwise_lt_range.filter _) fun x => ?_
  rw [mem_tileOrigins]
  simp only [tileStarts, zrleTile, List.mem_map, List.mem_range]
  constructor
  · rintro ⟨k, hk, rfl⟩
    exact ⟨Nat.dvd_mul_left 64 k, by omega⟩
  · rintro ⟨⟨k, rfl⟩, hx⟩
    exact ⟨k, by omega, Nat.mul_comm k 64⟩

/-- Put a tile's pixels in its place. -/
def place (w : Nat) (out : List UInt8) (t : Box × List Rgba) : Option (List UInt8) :=
  copyRows? 4 out w t.1.x t.1.y (pixelBytes t.2) t.1.w 0 0 t.1.w t.1.h

/-- One turn of the tile loops. -/
def tileStep (fmt : PixelFormat) (w : Nat) (out : List UInt8) (b : Box) : TileM (List UInt8) := do
  let pixels ← decodeTile fmt b.w b.h
  liftM (orPanic (place w out (b, pixels)))

theorem foldlM_flatMap {m : Type → Type} [Monad m] [LawfulMonad m] {α β γ : Type}
    (f : γ → β → m γ) (g : α → List β) : ∀ (l : List α) (c : γ),
    (l.flatMap g).foldlM f c = l.foldlM (fun c a => (g a).foldlM f c) c
  | [], c => rfl
  | a :: l, c => by
      rw [List.flatMap_cons, List.foldlM_append, List.foldlM_cons]
      exact bind_congr fun c' => foldlM_flatMap f g l c'

theorem decodeTilesFrom_eq (fmt : PixelFormat) (w h : Nat) :
    decodeTilesFrom fmt w h
      = (boxes w h).foldlM (tileStep fmt w) (List.replicate (w * h * 4) 0) := by
  rw [boxes, foldlM_flatMap, ← tileStarts_eq, ← tileStarts_eq, decodeTilesFrom]
  simp only [List.foldlM_map]
  rfl

/-! ## One tile in its place -/

/-- A tile as large as its box goes into an image that holds the box; it
shows there, and no other pixel changes. -/
theorem place_spec {w h : Nat} {out : List UInt8} {t : Box × List Rgba}
    (hout : out.length = w * h * 4) (hfit : t.1.Fits w h) (ht : t.2.length = t.1.w * t.1.h) :
    ∃ out', place w out t = some out' ∧ out'.length = w * h * 4 ∧ Shows out' w t ∧
      ∀ x < w, ∀ y, ¬ t.1.Has x y → pixelAt out' w x y = pixelAt out w x y := by
  obtain ⟨out', hcopy, hlen, hdrawn⟩ := copyRows_drawn (pixelBytes t.2) t.1.w 0 0 hout
    hfit.1 hfit.2
    (by rw [length_pixelBytes, ht, Nat.zero_add]) (by omega)
  refine ⟨out', hcopy, by omega, ?_, ?_⟩
  · intro i hi j hj
    have hin : j * t.1.w + i < t.2.length := by
      rw [ht]
      exact index_lt hi hj
    have hx : t.1.x + i < w := by
      have := hfit.1
      omega
    rw [hdrawn _ hx, if_pos (by omega), List.getElem?_eq_getElem hin, Option.map_some,
      ← record_pixelBytes hin]
    simp only [pixelAt, Nat.zero_add, Nat.add_sub_cancel_left]
  · intro x hx y hhas
    rw [hdrawn x hx]
    exact if_neg hhas

theorem tileStep_recognises (fmt : PixelFormat) {w h : Nat} {out : List UInt8} {b : Box}
    (hout : out.length = w * h * 4) (hfit : b.Fits w h) :
    Recognises Stop.IsProtocol (tileStep fmt w out b) (fun bs out' =>
      ∃ px, Tile (CPixel fmt) b.w b.h bs px ∧ place w out (b, px) = some out') := by
  refine ((decodeTile_recognises fmt b.w b.h).andThen (Q := fun px bs out' =>
    bs = [] ∧ place w out (b, px) = some out') fun xs px hpx => ?_).congr fun bs out' => ?_
  · obtain ⟨out', hplace, -⟩ := place_spec (t := (b, px)) hout hfit hpx.length
    rw [hplace, orPanic_some]
    exact (Recognises.ret out').congr fun bs o => by rw [Option.some_inj, eq_comm (a := o)]
  · constructor
    · rintro ⟨xs, ys, px, rfl, hpx, rfl, hplace⟩
      exact ⟨px, by rwa [List.append_nil], hplace⟩
    · rintro ⟨px, hpx, hplace⟩
      exact ⟨bs, [], px, (List.append_nil bs).symm, hpx, rfl, hplace⟩

/-! ## The image of a list of tiles -/

/-- The tiles put in their places one after another. -/
def assemble (w : Nat) (out : List UInt8) (tiles : List (Box × List Rgba)) :
    Option (List UInt8) := tiles.foldlM (place w) out

/-- Tiles that share no pixel all show in what they assemble to, and a
pixel in none of them is as it was. -/
theorem assemble_spec {w h : Nat} : ∀ (tiles : List (Box × List Rgba)) (out : List UInt8),
    out.length = w * h * 4 → (∀ t ∈ tiles, t.1.Fits w h ∧ t.2.length = t.1.w * t.1.h) →
    (tiles.map Prod.fst).Pairwise (fun b c => ∀ x y, b.Has x y → ¬ c.Has x y) →
    ∃ out', assemble w out tiles = some out' ∧ out'.length = w * h * 4 ∧
      (∀ t ∈ tiles, Shows out' w t) ∧
      ∀ x < w, ∀ y, (∀ t ∈ tiles, ¬ t.1.Has x y) → pixelAt out' w x y = pixelAt out w x y
  | [], out, hout, _, _ => ⟨out, rfl, hout, by simp, fun _ _ _ _ => rfl⟩
  | t :: tiles, out, hout, hall, hdisj => by
      rw [List.map_cons, List.pairwise_cons] at hdisj
      obtain ⟨hfit, ht⟩ := hall t (by simp)
      obtain ⟨mid, hmid, hmidlen, hshow, hframe⟩ := place_spec hout hfit ht
      obtain ⟨out', hout', hlen, hshows, hframe'⟩ := assemble_spec tiles mid hmidlen
        (fun t' h' => hall t' (by simp [h'])) hdisj.2
      refine ⟨out', by rw [assemble, List.foldlM_cons, hmid]; exact hout', hlen, ?_, ?_⟩
      · intro t' ht'
        rcases List.mem_cons.mp ht' with rfl | ht'
        · -- the later tiles leave this one's pixels alone
          intro i hi j hj
          have hx : t'.1.x + i < w := by
            have := hfit.1
            omega
          have hhas : t'.1.Has (t'.1.x + i) (t'.1.y + j) := by
            simp only [Box.Has]
            omega
          rw [hshow i hi j hj, hframe' _ hx _ fun t'' h'' =>
            hdisj.1 _ (List.mem_map_of_mem h'') _ _ hhas]
        · exact hshows t' ht'
      · intro x hx y hno
        rw [hframe' x hx y (fun t' h' => hno t' (by simp [h'])), hframe x hx y (hno t (by simp))]

/-- Two images that show the same tiles of a whole rect are the same. -/
theorem shows_unique {w h : Nat} {tiles : List (Box × List Rgba)} {px px' : List UInt8}
    (hbox : tiles.map Prod.fst = boxes w h) (hlen : px.length = w * h * 4)
    (hlen' : px'.length = w * h * 4) (hpx : ∀ t ∈ tiles, Shows px w t)
    (hpx' : ∀ t ∈ tiles, Shows px' w t) : px = px' := by
  refine eq_of_record (k := 4) (n := w * h) (by omega) (by omega) fun i hi => ?_
  have hw : 0 < w := by
    rcases Nat.eq_zero_or_pos w with rfl | hw
    · simp at hi
    · exact hw
  have hx : i % w < w := Nat.mod_lt i hw
  have hy : i / w < h := Nat.div_lt_of_lt_mul hi
  have hi' : i / w * w + i % w = i := by
    rw [Nat.mul_comm]
    exact Nat.div_add_mod i w
  obtain ⟨b, hb, hhas⟩ := boxes_cover hx hy
  rw [← hbox] at hb
  obtain ⟨t, ht, rfl⟩ := List.mem_map.mp hb
  obtain ⟨⟨hx1, hx2⟩, hy1, hy2⟩ := hhas
  have h1 := hpx t ht (i % w - t.1.x) (by omega) (i / w - t.1.y) (by omega)
  have h2 := hpx' t ht (i % w - t.1.x) (by omega) (i / w - t.1.y) (by omega)
  rw [h1, Option.some_inj, pixelAt, pixelAt, Nat.add_sub_cancel' hx1, Nat.add_sub_cancel' hy1,
    hi'] at h2
  exact h2

/-- The loop over any list of boxes: the pieces of input are the boxes'
tiles, and the output is what they assemble to. -/
theorem tileLoop_recognises (fmt : PixelFormat) {w h : Nat} :
    ∀ (bx : List Box) (out : List UInt8), out.length = w * h * 4 → (∀ b ∈ bx, b.Fits w h) →
    Recognises Stop.IsProtocol (bx.foldlM (tileStep fmt w) out) (fun bs out' =>
      ∃ tiles, tiles.map Prod.fst = bx ∧
        Many (fun bs t => Tile (CPixel fmt) t.1.w t.1.h bs t.2) bs tiles ∧
        assemble w out tiles = some out')
  | [], out, hout, _ => by
      rw [List.foldlM_nil]
      refine (Recognises.ret out).congr fun bs out' => ?_
      constructor
      · rintro ⟨rfl, rfl⟩
        exact ⟨[], rfl, .nil, rfl⟩
      · rintro ⟨tiles, hmap, hmany, hasm⟩
        obtain rfl : tiles = [] := List.map_eq_nil_iff.mp hmap
        exact ⟨many_nil_iff.mp hmany, (Option.some_inj.mp hasm).symm⟩
  | b :: bx, out, hout, hfit => by
      rw [List.foldlM_cons]
      refine ((tileStep_recognises fmt hout (hfit b (by simp))).andThen
        (Q := fun mid bs out' => ∃ tiles, tiles.map Prod.fst = bx ∧
          Many (fun bs t => Tile (CPixel fmt) t.1.w t.1.h bs t.2) bs tiles ∧
          assemble w mid tiles = some out') ?_).congr fun bs out' => ?_
      · rintro xs mid ⟨px, hpx, hplace⟩
        refine tileLoop_recognises fmt bx mid ?_ fun b' hb' => hfit b' (by simp [hb'])
        obtain ⟨out', hout', hlen, -⟩ :=
          place_spec (t := (b, px)) hout (hfit b (by simp)) hpx.length
        rw [hplace] at hout'
        cases hout'
        exact hlen
      · constructor
        · rintro ⟨xs, ys, mid, rfl, ⟨px, hpx, hplace⟩, tiles, rfl, hmany, hasm⟩
          refine ⟨(b, px) :: tiles, rfl, .cons hpx hmany, ?_⟩
          rw [assemble, List.foldlM_cons, hplace]
          exact hasm
        · rintro ⟨tiles, hmap, hmany, hasm⟩
          cases hmany with
          | nil => cases hmap
          | @cons xs ys t tiles ht hmany =>
              rw [List.map_cons, List.cons.injEq] at hmap
              obtain ⟨rfl, rfl⟩ := hmap
              rw [assemble, List.foldlM_cons] at hasm
              cases hplace : place w out t with
              | none => rw [hplace] at hasm; cases hasm
              | some mid =>
                  rw [hplace] at hasm
                  exact ⟨xs, ys, mid, rfl, ⟨t.2, ht, hplace⟩, tiles, rfl, hmany, hasm⟩

/-- The tiles of a whole rect assemble to an image that shows them all. -/
theorem assemble_boxes {w h : Nat} {tiles : List (Box × List Rgba)}
    (hmap : tiles.map Prod.fst = boxes w h)
    (hlens : ∀ t ∈ tiles, t.2.length = t.1.w * t.1.h) :
    ∃ out, assemble w (List.replicate (w * h * 4) 0) tiles = some out ∧
      out.length = w * h * 4 ∧ ∀ t ∈ tiles, Shows out w t := by
  obtain ⟨out, hasm, hlen, hshows, -⟩ := assemble_spec (w := w) (h := h) tiles _
    List.length_replicate
    (fun t ht => ⟨boxes_fit _ (hmap ▸ List.mem_map_of_mem ht), hlens t ht⟩)
    (hmap ▸ boxes_disjoint w h)
  exact ⟨out, hasm, hlen, hshows⟩

theorem lengths_of_tiles {P : List UInt8 → Rgba → Prop} {bs : List UInt8}
    {tiles : List (Box × List Rgba)}
    (h : Many (fun bs t => Tile P t.1.w t.1.h bs t.2) bs tiles) :
    ∀ t ∈ tiles, t.2.length = t.1.w * t.1.h :=
  h.forall fun _ _ ht => ht.length

/-- **The decoder recognises the grammar**, for every pixel format. -/
theorem decodeTilesFrom_recognises (fmt : PixelFormat) (w h : Nat) :
    Recognises Stop.IsProtocol (decodeTilesFrom fmt w h) (Denotes (CPixel fmt) w h) := by
  rw [decodeTilesFrom_eq]
  refine (tileLoop_recognises fmt (boxes w h) _ List.length_replicate boxes_fit).congr
    fun bs px => ?_
  constructor
  · rintro ⟨tiles, hmap, hmany, hasm⟩
    obtain ⟨out', hout', hlen, hshows⟩ := assemble_boxes hmap (lengths_of_tiles hmany)
    rw [hasm] at hout'
    cases hout'
    exact ⟨hlen, tiles, hmap, hmany, hshows⟩
  · rintro ⟨hlen, tiles, hmap, hmany, hshows⟩
    obtain ⟨out', hout', hlen', hshows'⟩ := assemble_boxes hmap (lengths_of_tiles hmany)
    rw [shows_unique hmap hlen hlen' hshows hshows']
    exact ⟨tiles, hmap, hmany, hout'⟩

/-! ## Colours -/

/-- Every pixel of a tile is the colour of one of its CPIXELs. -/
theorem Tile.forall {P : List UInt8 → Rgba → Prop} {Q : Rgba → Prop} {tw th : Nat}
    {bs : List UInt8} {px : List Rgba} (h : Tile P tw th bs px) (hP : ∀ bs c, P bs c → Q c) :
    ∀ c ∈ px, Q c := by
  intro c hc
  cases h with
  | raw _ hpx => exact hpx.forall hP c hc
  | solid hc' =>
      rw [List.eq_of_mem_replicate hc]
      exact hP _ _ hc'
  | @packed n ps rs palette rows _ _ _ hps _ hrows =>
      obtain ⟨row, hrow, hcrow⟩ := List.mem_flatten.mp hc
      obtain ⟨raw, -, hlen, hcols⟩ :=
        hrows.forall (Q := fun row => ∃ raw, PackedRow palette tw raw row)
          (fun raw _ h => ⟨raw, h⟩) row hrow
      obtain ⟨col, hcol, rfl⟩ := List.mem_iff_getElem.mp hcrow
      obtain ⟨idx, -, hidx⟩ := hcols col (by omega)
      rw [List.getElem?_eq_getElem hcol] at hidx
      exact hps.forall hP _ (List.mem_of_getElem? hidx)
  | @plainRle rs runs hruns _ =>
      obtain ⟨r, hr, hcr⟩ := List.mem_flatMap.mp hc
      rw [List.eq_of_mem_replicate hcr]
      exact hruns.forall (Q := fun r => Q r.1) (fun _ _ ⟨_, _, _, hcp, _⟩ => hP _ _ hcp) r hr
  | @paletteRle n ps rs palette runs _ _ _ hps hruns _ =>
      obtain ⟨r, hr, hcr⟩ := List.mem_flatMap.mp hc
      rw [List.eq_of_mem_replicate hcr]
      refine hruns.forall (Q := fun r => Q r.1) (fun _ _ hrun => ?_) r hr
      rcases hrun with ⟨_, _, _, _, hidx, _⟩ | ⟨_, _, _, hidx, _⟩
      · exact hps.forall hP _ (List.mem_of_getElem? hidx)
      · exact hps.forall hP _ (List.mem_of_getElem? hidx)

/-- Every pixel of a denoted image is the colour of a CPIXEL. -/
theorem Denotes.pixel {P : List UInt8 → Rgba → Prop} {Q : Rgba → Prop} {w h : Nat}
    {bs px : List UInt8} (hden : Denotes P w h bs px) (hP : ∀ bs c, P bs c → Q c)
    {x y : Nat} (hx : x < w) (hy : y < h) : ∃ c, pixelAt px w x y = c.bytes ∧ Q c := by
  obtain ⟨-, tiles, hbox, hmany, hshows⟩ := hden
  obtain ⟨b, hb, hhas⟩ := boxes_cover hx hy
  rw [← hbox] at hb
  obtain ⟨t, ht, rfl⟩ := List.mem_map.mp hb
  obtain ⟨⟨hx1, hx2⟩, hy1, hy2⟩ := hhas
  have hshow := hshows t ht (x - t.1.x) (by omega) (y - t.1.y) (by omega)
  rw [Nat.add_sub_cancel' hx1, Nat.add_sub_cancel' hy1, Option.map_eq_some_iff] at hshow
  obtain ⟨c, hc, hpx⟩ := hshow
  exact ⟨c, hpx.symm, hmany.forall (Q := fun t => ∀ c ∈ t.2, Q c)
    (fun _ _ htile => htile.forall hP) t ht c (List.mem_of_getElem? hc)⟩

/-- A decoded CPIXEL is opaque. -/
theorem CPixel.alpha {fmt : PixelFormat} {bs : List UInt8} {c : Rgba} (h : CPixel fmt bs c) :
    c.a = 255 := by
  obtain ⟨hlen, hc⟩ := h
  rw [cpixelRgba_eq fmt hlen] at hc
  cases hc
  rfl

/-- A decoded rect is as large as it should be, and opaque. -/
theorem decodeTiles_ok {fmt : PixelFormat} {w h : UInt16} {data px : List UInt8}
    (hok : decodeTiles data fmt w h = .ok px) : px.length = w.toNat * h.toNat * 4 ∧
      ∀ x < w.toNat, ∀ y < h.toNat, (pixelAt px w.toNat x y)[3]? = some 255 := by
  rw [decodeTiles] at hok
  cases hrun : decodeTilesFrom fmt w.toNat h.toNat data with
  | error e => rw [hrun] at hok; cases hok
  | ok out =>
      rw [hrun] at hok
      cases hok
      obtain ⟨bs, hden, -⟩ := ((decodeTilesFrom_recognises fmt _ _).accepts data _ _).mp hrun
      refine ⟨hden.1, fun x hx y hy => ?_⟩
      obtain ⟨c, hpx, ha⟩ := hden.pixel (Q := fun c => c.a = 255) (fun _ _ h => h.alpha) hx hy
      rw [hpx, Rgba.bytes, ha]
      rfl

theorem decodeTiles_fails {fmt : PixelFormat} {w h : UInt16} {data : List UInt8} {e : Stop}
    (herr : decodeTiles data fmt w h = .error e) : e.IsProtocol := by
  rw [decodeTiles] at herr
  cases hrun : decodeTilesFrom fmt w.toNat h.toNat data with
  | error e' =>
      rw [hrun] at herr
      cases herr
      exact (decodeTilesFrom_recognises fmt _ _).fails data _ hrun
  | ok out => rw [hrun] at herr; cases herr

/-! ## The negotiated format -/

/-- A channel of eight bits, eight bits up. -/
theorem scale_255 (p : UInt32) (k : Nat) (hk : 8 * k < 32) :
    (PixelFormat.scale (p >>> UInt32.ofNat (8 * k)) 255).toNat = p.toNat / 256 ^ k % 256 := by
  have hshift : (UInt32.ofNat (8 * k)).toNat % 32 = 8 * k := by
    rw [UInt32.toNat_ofNat']
    omega
  have h255 : (255 : UInt16).toUInt32.toNat = 2 ^ 8 - 1 := rfl
  rw [PixelFormat.scale, if_neg (by decide), if_pos rfl, UInt32.toNat_toUInt8, UInt32.toNat_and,
    h255, Nat.and_two_pow_sub_one_eq_mod, UInt32.toNat_shiftRight, hshift,
    Nat.shiftRight_eq_div_pow, Nat.pow_mul, Nat.mod_mod]

/-- A CPIXEL of the negotiated format is R, G, B. -/
theorem cpixel_rgbx32 : CPixel PixelFormat.rgbx32 = RgbCPixel := by
  funext bs c
  have hvalue : ∀ r g b : UInt8,
      cpixelRgba PixelFormat.rgbx32 [r, g, b] = .ok ⟨r, g, b, 255⟩ := by
    intro r g b
    rw [cpixelRgba_eq _ rfl]
    have hwire : cpixelWire PixelFormat.rgbx32 [r, g, b] = [r, g, b, 0] := rfl
    have hp := PixelFormat.toNat_readPixel PixelFormat.rgbx32 [r, g, b, 0]
    have hnat : beNat (if PixelFormat.rgbx32.bigEndian then [r, g, b, 0]
        else [r, g, b, 0].reverse) = (b.toNat * 256 + g.toNat) * 256 + r.toNat := by
      simp [PixelFormat.rgbx32, beNat]
    have hr : r.toNat < 256 := r.toNat_lt
    have hg : g.toNat < 256 := g.toNat_lt
    have hb : b.toNat < 256 := b.toNat_lt
    replace hp : (PixelFormat.rgbx32.readPixel [r, g, b, 0]).toNat
        = (b.toNat * 256 + g.toNat) * 256 + r.toNat := hp.trans hnat
    rw [hwire]
    congr 1
    simp only [PixelFormat.toRgba, Rgba.mk.injEq]
    refine ⟨UInt8.toNat_inj.mp ?_, UInt8.toNat_inj.mp ?_, UInt8.toNat_inj.mp ?_, trivial⟩
    · exact (scale_255 _ 0 (by omega)).trans (by rw [hp]; omega)
    · exact (scale_255 _ 1 (by omega)).trans (by rw [hp]; omega)
    · exact (scale_255 _ 2 (by omega)).trans (by rw [hp]; omega)
  rw [eq_iff_iff]
  constructor
  · rintro ⟨hlen, hc⟩
    obtain ⟨r, g, b, rfl⟩ := List.length_eq_three.mp hlen
    rw [hvalue] at hc
    cases hc
    exact ⟨r, g, b, rfl, rfl⟩
  · rintro ⟨r, g, b, rfl, rfl⟩
    exact ⟨rfl, hvalue r g b⟩

/-- **The tile decoder accepts exactly the documented grammar and is
total**: at the negotiated format it returns the image of a prefix that is
the rect's tiles, or a protocol error. -/
theorem decodeTiles_accepts (data : List UInt8) (w h : UInt16) :
    (∀ px, decodeTiles data PixelFormat.rgbx32 w h = .ok px ↔
      ∃ bs rest, data = bs ++ rest ∧ Denotes RgbCPixel w.toNat h.toNat bs px) ∧
    ((∃ px, decodeTiles data PixelFormat.rgbx32 w h = .ok px) ∨
      ∃ what, decodeTiles data PixelFormat.rgbx32 w h = .error (.err (.protocol what))) := by
  have hrec := decodeTilesFrom_recognises PixelFormat.rgbx32 w.toNat h.toNat
  rw [cpixel_rgbx32] at hrec
  rw [decodeTiles]
  rcases hrun : decodeTilesFrom PixelFormat.rgbx32 w.toNat h.toNat data with e | ⟨out, rest⟩
  · refine ⟨fun px => ⟨fun h => (by cases h), ?_⟩, .inr ?_⟩
    · rintro ⟨bs, rest, hdata, hden⟩
      rw [(hrec.accepts data px rest).mpr ⟨bs, hden, hdata⟩] at hrun
      cases hrun
    · obtain ⟨what, rfl⟩ := Stop.isProtocol_iff.mp (hrec.fails data e hrun)
      exact ⟨what, rfl⟩
  · refine ⟨fun px => ⟨?_, ?_⟩, .inl ⟨out, rfl⟩⟩
    · rintro ⟨⟩
      obtain ⟨bs, hden, hdata⟩ := (hrec.accepts data out rest).mp hrun
      exact ⟨bs, rest, hdata, hden⟩
    · rintro ⟨bs, rest', hdata, hden⟩
      rw [(hrec.accepts data px rest').mpr ⟨bs, hden, hdata⟩] at hrun
      cases hrun
      rfl

end Bolide.Rfb
