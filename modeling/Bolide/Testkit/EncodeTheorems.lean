/-
Bolide.Testkit.EncodeTheorems — the encoder writes the grammar the decoder
reads.

Nothing here mentions the decoder until the end: every piece the encoder
writes is shown to be a sentence of `Bolide.Rfb.ZrleGrammar` for the colours
it was given, whatever form the tile was spent on. The round trip is then
one application of `decodeTilesFrom_recognises`.
-/
import Bolide.Testkit.Encode
import Bolide.Rfb.ZrleTheorems

namespace Bolide.Testkit

open Lib Rfb

/-! ## CPIXELs -/

/-- The formats RFB knows: 8, 16 or 32 bits per pixel. -/
def StandardDepth (fmt : PixelFormat) : Prop :=
  fmt.bitsPerPixel = 8 ∨ fmt.bitsPerPixel = 16 ∨ fmt.bitsPerPixel = 32

theorem StandardDepth.bytes {fmt : PixelFormat} (h : StandardDepth fmt) :
    1 ≤ fmt.bytesPerPixel ∧ fmt.bytesPerPixel ≤ 4 := by
  rcases h with h | h | h <;> rw [PixelFormat.bytesPerPixel, h] <;> decide

/-- A CPIXEL as wide as the pixel is the pixel. -/
theorem writeCpixel_whole {fmt : PixelFormat} {p : UInt32} (hd : StandardDepth fmt)
    (heq : fmt.cpixelBytes = fmt.bytesPerPixel) (hp : p &&& fmt.cpixelMask = p) :
    ∃ bs, writeCpixel fmt p = .ok bs ∧ CPixel fmt bs (fmt.toRgba p) := by
  obtain ⟨h1, h4⟩ := hd.bytes
  have hlen : (fmt.writePixel p).length = fmt.bytesPerPixel := by
    rw [PixelFormat.length_writePixel]
    omega
  have hoff : fmt.cpixelOffset = 0 := by rw [PixelFormat.cpixelOffset, if_pos heq]
  have hread : fmt.readPixel (fmt.writePixel p) = p := by
    apply UInt32.toNat_inj.mp
    rw [PixelFormat.readPixel_writePixel]
    rw [PixelFormat.cpixelMask, if_pos heq] at hp
    have hpow : 256 ^ min fmt.bytesPerPixel 4 = 2 ^ (8 * min fmt.bytesPerPixel 4) := by
      rw [Nat.pow_mul]
    rw [hpow] at hp ⊢
    exact Nat.mod_eq_of_lt (PixelFormat.toNat_lt_of_and (by omega) hp)
  refine ⟨fmt.writePixel p, ?_, by rw [hlen, heq], ?_⟩
  · have hroom : sub? fmt.bytesPerPixel 0 = some fmt.bytesPerPixel := rfl
    have hall : slice? (fmt.writePixel p) 0 (0 + min fmt.bytesPerPixel fmt.bytesPerPixel)
        = some (fmt.writePixel p) := by
      rw [slice?_eq_some (by omega) (by omega), List.drop_zero,
        List.take_of_length_le (by omega)]
    simp only [writeCpixel, hoff, hlen, hroom, heq, orPanic_some, ok_bind, hall]
  · rw [cpixelRgba_eq fmt (by rw [hlen, heq]), cpixelWire, if_pos heq, hread]

/-- A three-byte CPIXEL put back is the pixel, but for the byte it drops. -/
theorem writeCpixel_dropped {fmt : PixelFormat} (hcb : fmt.cpixelBytes = 3)
    (hbpp : fmt.bytesPerPixel = 4) (p : UInt32) :
    ∃ bs, writeCpixel fmt p = .ok bs ∧ CPixel fmt bs (fmt.toRgba (p &&& fmt.cpixelMask)) := by
  have hne : ¬ fmt.cpixelBytes = fmt.bytesPerPixel := by omega
  have hoff : fmt.cpixelOffset ≤ 1 := by
    rcases cpixelBytes_cases fmt with h | h
    · exact absurd h hne
    · exact h.2.2
  have hlen : (fmt.writePixel p).length = 4 := by
    rw [PixelFormat.length_writePixel]
    omega
  let bs := ((fmt.writePixel p).drop fmt.cpixelOffset).take 3
  have hbs : bs.length = fmt.cpixelBytes := by
    rw [List.length_take, List.length_drop]
    omega
  -- the byte that is dropped is the one that is filled back in
  have hread : fmt.readPixel (cpixelWire fmt bs) = p &&& fmt.cpixelMask := by
    apply UInt32.toNat_inj.mp
    have hlt : p.toNat < 4294967296 := p.toNat_lt
    have hmask : (p &&& fmt.cpixelMask).toNat =
        if fmt.cpixelDropsHighByte then p.toNat % 2 ^ 24 else p.toNat / 256 * 256 := by
      rw [PixelFormat.cpixelMask, if_neg hne]
      split
      · exact PixelFormat.toNat_and_low p
      · exact PixelFormat.toNat_and_high p
    rw [hmask, PixelFormat.toNat_readPixel, cpixelWire, if_neg hne]
    simp only [bs, hbpp, PixelFormat.writePixel_eq, PixelFormat.cpixelOffset, hcb]
    cases hbig : fmt.bigEndian <;> cases hdrop : fmt.cpixelDropsHighByte <;>
      simp [beBytes, beNat, splice] <;> omega
  refine ⟨bs, ?_, hbs, by rw [cpixelRgba_eq fmt hbs, hread]⟩
  have hroom : sub? 4 fmt.cpixelOffset = some (4 - fmt.cpixelOffset) := if_pos (by omega)
  have hmin : min 3 (4 - fmt.cpixelOffset) = 3 := by omega
  have hslice : slice? (fmt.writePixel p) fmt.cpixelOffset (fmt.cpixelOffset + 3) = some bs := by
    rw [slice?_eq_some (by omega) (by omega), Nat.add_sub_cancel_left]
  simp only [writeCpixel, hlen, hroom, hcb, hmin, orPanic_some, ok_bind, hslice]

/-- A pixel value made of bits the CPIXEL carries is written as a CPIXEL of its colour. -/
theorem writeCpixel_spec {fmt : PixelFormat} {p : UInt32} (hd : StandardDepth fmt)
    (hp : p &&& fmt.cpixelMask = p) :
    ∃ bs, writeCpixel fmt p = .ok bs ∧ CPixel fmt bs (fmt.toRgba p) := by
  rcases cpixelBytes_cases fmt with heq | ⟨hcb, hbpp, -⟩
  · exact writeCpixel_whole hd heq hp
  · have hwritten := writeCpixel_dropped hcb hbpp p
    rwa [hp] at hwritten

theorem writeCpixels_spec {fmt : PixelFormat} {px : List UInt32}
    (h : ∀ p ∈ px, ∃ bs, writeCpixel fmt p = .ok bs ∧ CPixel fmt bs (fmt.toRgba p)) :
    ∃ bs, writeCpixels fmt px = .ok bs ∧ Many (CPixel fmt) bs (px.map fmt.toRgba) := by
  obtain ⟨bss, hbss, hmany⟩ := mapM_many _ h
  exact ⟨bss.flatten, by rw [writeCpixels, hbss]; rfl, hmany⟩

/-! ## Palettes -/

theorem subset_paletteFrom (palette : List UInt32) (px : List UInt32) :
    ∀ p ∈ palette, p ∈ paletteFrom palette px := by
  induction px generalizing palette with
  | nil => intro p hp; exact hp
  | cons q px ih =>
      intro p hp
      rw [paletteFrom]
      split
      · exact ih palette p hp
      · split
        · exact List.mem_append_left _ hp
        · exact ih _ p (List.mem_append_left _ hp)

/-- A palette that was not given up on has every colour of the tile. -/
theorem mem_paletteFrom (palette : List UInt32) (px : List UInt32)
    (h : (paletteFrom palette px).length ≤ 128) : ∀ p ∈ px, p ∈ paletteFrom palette px := by
  induction px generalizing palette with
  | nil => intro p hp; cases hp
  | cons q px ih =>
      intro p hp
      rw [paletteFrom] at h ⊢
      split at h
      · next hq =>
          rw [if_pos hq]
          rcases List.mem_cons.mp hp with rfl | hp
          · exact subset_paletteFrom _ _ _ hq
          · exact ih palette h p hp
      · next hq =>
          rw [if_neg hq]
          split at h
          · omega
          · next hlen =>
              rw [if_neg hlen]
              rcases List.mem_cons.mp hp with rfl | hp
              · exact subset_paletteFrom _ _ _ (List.mem_append_right _ (by simp))
              · exact ih _ h p hp

theorem paletteFrom_subset (palette : List UInt32) (px : List UInt32) :
    ∀ p ∈ paletteFrom palette px, p ∈ palette ∨ p ∈ px := by
  induction px generalizing palette with
  | nil => intro p hp; exact .inl hp
  | cons q px ih =>
      intro p hp
      rw [paletteFrom] at hp
      have hnew : p ∈ palette ++ [q] → p ∈ palette ∨ p ∈ q :: px := by
        intro h
        rcases List.mem_append.mp h with h | h
        · exact .inl h
        · exact .inr (by simp [List.mem_singleton.mp h])
      split at hp
      · rcases ih palette p hp with h | h
        · exact .inl h
        · exact .inr (List.mem_cons_of_mem q h)
      · split at hp
        · exact hnew hp
        · rcases ih _ p hp with h | h
          · exact hnew h
          · exact .inr (List.mem_cons_of_mem q h)

theorem mem_paletteOf {px : List UInt32} (h : (paletteOf px).length ≤ 128) :
    ∀ p ∈ px, p ∈ paletteOf px := mem_paletteFrom [] px h

theorem paletteOf_subset {px : List UInt32} : ∀ p ∈ paletteOf px, p ∈ px := by
  intro p hp
  rcases paletteFrom_subset [] px p hp with h | h
  · cases h
  · exact h

/-- A tile with a pixel has a colour. -/
theorem paletteOf_pos {px : List UInt32} (h : px ≠ []) : 0 < (paletteOf px).length := by
  obtain ⟨p, px, rfl⟩ := List.exists_cons_of_ne_nil h
  rcases Nat.lt_or_ge 128 (paletteOf (p :: px)).length with hbig | hsmall
  · omega
  · exact List.length_pos_of_mem (mem_paletteOf hsmall p (by simp))

/-- The position of a colour of the palette. -/
theorem position_spec {palette : List UInt32} {p : UInt32} (hp : p ∈ palette) :
    ∃ idx, position palette p = .ok idx ∧ palette[idx]? = some p := by
  have hfound := List.findIdx?_eq_some_of_exists (p := (· == p)) ⟨p, hp, by simp⟩
  obtain ⟨hlt, heq, -⟩ := List.findIdx?_eq_some_iff_getElem.mp hfound
  exact ⟨_, by rw [position, hfound]; rfl, by
    rw [List.getElem?_eq_getElem hlt, beq_iff_eq.mp heq]⟩

theorem lt_of_getElem?_eq_some {α : Type} {l : List α} {i : Nat} {a : α} (h : l[i]? = some a) :
    i < l.length := (List.getElem?_eq_some_iff.mp h).1

/-! ## Runs -/

theorem expand_append {α : Type} (r s : List (α × Nat)) :
    expand (r ++ s) = expand r ++ expand s := List.flatMap_append

theorem expand_map {α β : Type} (f : α → β) (runs : List (α × Nat)) :
    expand (runs.map (Prod.map f id)) = (expand runs).map f := by
  induction runs with
  | nil => rfl
  | cons r runs ih => simp [ih]

/-- One more pixel is one more pixel at the end. -/
theorem expand_addToRuns (runs : List (UInt32 × Nat)) (p : UInt32) :
    expand (addToRuns runs p) = expand runs ++ [p] := by
  rw [addToRuns]
  rcases List.eq_nil_or_concat runs with rfl | ⟨init, ⟨v, n⟩, rfl⟩
  · rfl
  · rw [List.concat_eq_append, List.getLast?_append]
    simp only [List.getLast?_singleton, Option.some_or]
    split
    · next h =>
        subst h
        rw [List.dropLast_concat]
        simp [expand_append, List.replicate_succ']
    · simp [expand_append]

theorem addToRuns_pos {runs : List (UInt32 × Nat)} (h : ∀ r ∈ runs, 1 ≤ r.2) (p : UInt32) :
    ∀ r ∈ addToRuns runs p, 1 ≤ r.2 := by
  rw [addToRuns]
  rcases List.eq_nil_or_concat runs with rfl | ⟨init, ⟨v, n⟩, rfl⟩
  · simp
  · rw [List.concat_eq_append, List.getLast?_append] at *
    simp only [List.getLast?_singleton, Option.some_or]
    intro r hr
    split at hr
    · rw [List.dropLast_concat] at hr
      rcases List.mem_append.mp hr with hr | hr
      · exact h r (List.mem_append_left _ hr)
      · rw [List.mem_singleton.mp hr]
        omega
    · rcases List.mem_append.mp hr with hr | hr
      · exact h r hr
      · rw [List.mem_singleton.mp hr]

/-- The runs of a tile are its pixels. -/
theorem expand_runsOf (px : List UInt32) : expand (runsOf px) = px := by
  induction px using List.reverseRecOn with
  | nil => rfl
  | append_singleton px p ih =>
      rw [runsOf, List.foldl_append, List.foldl_cons, List.foldl_nil, expand_addToRuns]
      exact congrArg (· ++ [p]) ih

theorem runsOf_pos (px : List UInt32) : ∀ r ∈ runsOf px, 1 ≤ r.2 := by
  induction px using List.reverseRecOn with
  | nil => intro r hr; cases hr
  | append_singleton px p ih =>
      rw [runsOf, List.foldl_append, List.foldl_cons, List.foldl_nil]
      exact addToRuns_pos ih p

/-- A run is of a colour of the tile. -/
theorem runsOf_mem {px : List UInt32} : ∀ r ∈ runsOf px, r.1 ∈ px := by
  intro r hr
  have hmem : r.1 ∈ expand (runsOf px) :=
    List.mem_flatMap.mpr ⟨r, hr, List.mem_replicate.mpr
      ⟨Nat.one_le_iff_ne_zero.mp (runsOf_pos px r hr), rfl⟩⟩
  rwa [expand_runsOf] at hmem

theorem runLengthBytes_spec (n : Nat) : RunLength (runLengthBytes n) (n + 1) := by
  fun_induction runLengthBytes n with
  | case1 n hn ih =>
      obtain ⟨k, b, hb, hbs, hsum⟩ := ih
      refine ⟨k + 1, b, hb, by rw [hbs]; rfl, ?_⟩
      rw [List.map_cons, List.sum_cons]
      have h255 : (255 : UInt8).toNat = 255 := rfl
      omega
  | case2 n hn =>
      refine ⟨0, UInt8.ofNat n, ?_, rfl, ?_⟩
      · rw [UInt8.lt_iff_toNat_lt, UInt8.toNat_ofNat']
        have h255 : (0xff : UInt8).toNat = 255 := rfl
        omega
      · simp only [List.map_cons, List.map_nil, List.sum_cons, List.sum_nil, UInt8.toNat_ofNat']
        omega

theorem writeRunLength_spec {n : Nat} (h : 1 ≤ n) :
    ∃ bs, writeRunLength n = .ok bs ∧ RunLength bs n := by
  have hsub : sub? n 1 = some (n - 1) := if_pos h
  refine ⟨runLengthBytes (n - 1), by rw [writeRunLength, hsub]; rfl, ?_⟩
  have hrun := runLengthBytes_spec (n - 1)
  rwa [Nat.sub_add_cancel h] at hrun

theorem writePlainRun_spec {fmt : PixelFormat} {run : UInt32 × Nat} (hpos : 1 ≤ run.2)
    (h : ∃ bs, writeCpixel fmt run.1 = .ok bs ∧ CPixel fmt bs (fmt.toRgba run.1)) :
    ∃ bs, writePlainRun fmt run = .ok bs ∧
      PlainRun (CPixel fmt) bs (Prod.map fmt.toRgba id run) := by
  obtain ⟨cs, hcs, hcp⟩ := h
  obtain ⟨ls, hls, hrun⟩ := writeRunLength_spec hpos
  exact ⟨cs ++ ls, by rw [writePlainRun, hcs, ok_bind, hls]; rfl, cs, ls, rfl, hcp, hrun⟩

theorem or_high (n : Nat) (h : n < 128) : (UInt8.ofNat n ||| 0x80).toNat = 128 + n := by
  have hn : (UInt8.ofNat n).toNat = n := by
    rw [UInt8.toNat_ofNat']
    omega
  have h80 : (0x80 : UInt8).toNat = 1 <<< 7 := rfl
  rw [UInt8.toNat_or, hn, h80, Nat.or_comm, ← Nat.shiftLeft_add_eq_or_of_lt (by omega),
    Nat.shiftLeft_eq]

theorem writePaletteRun_spec {palette : List UInt32} {run : UInt32 × Nat} (f : UInt32 → Rgba)
    (hpal : palette.length ≤ 127) (hmem : run.1 ∈ palette) (hpos : 1 ≤ run.2) :
    ∃ bs, writePaletteRun palette run = .ok bs ∧
      PaletteRun (palette.map f) bs (Prod.map f id run) := by
  obtain ⟨idx, hidx, hget⟩ := position_spec hmem
  have hlt := lt_of_getElem?_eq_some hget
  have hcolour : (palette.map f)[idx]? = some (f run.1) := by rw [List.getElem?_map, hget]; rfl
  by_cases h1 : run.2 = 1
  · have hbyte : (UInt8.ofNat idx).toNat = idx := by
      rw [UInt8.toNat_ofNat']
      omega
    refine ⟨[UInt8.ofNat idx], by rw [writePaletteRun, hidx, ok_bind, if_pos h1]; rfl, .inr ?_⟩
    exact ⟨_, rfl, by omega, by rw [hbyte]; exact hcolour, h1⟩
  · obtain ⟨ls, hls, hrun⟩ := writeRunLength_spec hpos
    have hbyte := or_high idx (by omega)
    refine ⟨(UInt8.ofNat idx ||| 0x80) :: ls,
      by rw [writePaletteRun, hidx, ok_bind, if_neg h1, hls]; rfl, .inl ?_⟩
    exact ⟨_, ls, rfl, by omega, by rw [hbyte, Nat.add_sub_cancel_left]; exact hcolour, hrun⟩

/-! ## Packed rows -/

theorem indexBits_cases {n bits : Nat} (h : indexBits n = some bits) :
    (bits = 1 ∨ bits = 2 ∨ bits = 4) ∧ fieldBits n = bits ∧ n ≤ 2 ^ bits ∧ 2 ≤ n ∧ n ≤ 16 := by
  unfold indexBits at h
  unfold fieldBits
  split_ifs at h ⊢ <;> cases h <;> omega

/-- Shifting an index into a byte is appending a digit to it. -/
theorem shift_in {bits acc idx used : Nat} (hbits : bits = 1 ∨ bits = 2 ∨ bits = 4)
    (hidx : idx < 2 ^ bits) (hacc : acc < 2 ^ used) (hused : used + bits ≤ 8) (b : UInt8)
    (hb : b.toNat = acc) :
    ((b <<< UInt8.ofNat bits) ||| UInt8.ofNat idx).toNat = acc * 2 ^ bits + idx := by
  have hpow : 2 ^ (used + bits) ≤ 2 ^ 8 := Nat.pow_le_pow_right (by omega) hused
  have hroom : acc * 2 ^ bits < 2 ^ 8 := by
    have := Nat.mul_lt_mul_of_pos_right hacc (Nat.two_pow_pos bits)
    rw [← Nat.pow_add] at this
    omega
  have hbits8 : (UInt8.ofNat bits).toNat % 8 = bits := by
    rw [UInt8.toNat_ofNat']
    omega
  have hidx8 : (UInt8.ofNat idx).toNat = idx := by
    have : 2 ^ bits ≤ 16 := by rcases hbits with rfl | rfl | rfl <;> decide
    rw [UInt8.toNat_ofNat']
    omega
  rw [UInt8.toNat_or, UInt8.toNat_shiftLeft, hbits8, hidx8, hb, Nat.shiftLeft_eq,
    Nat.mod_eq_of_lt hroom, ← Nat.shiftLeft_eq, ← Nat.shiftLeft_add_eq_or_of_lt hidx,
    Nat.shiftLeft_eq]

/-- Padding a byte leaves its digits where they are, from the left. -/
theorem shift_tail {acc room : Nat} (hroom : room < 8) (hacc : acc * 2 ^ room < 2 ^ 8) (b : UInt8)
    (hb : b.toNat = acc) : (b <<< UInt8.ofNat room).toNat = acc * 2 ^ room := by
  have hroom8 : (UInt8.ofNat room).toNat % 8 = room := by
    rw [UInt8.toNat_ofNat']
    omega
  rw [UInt8.toNat_shiftLeft, hroom8, hb, Nat.shiftLeft_eq, Nat.mod_eq_of_lt hacc]

/-- The digits of a byte filled up to `done` and padded are its first fields. -/
theorem packedField_tail {bits : Nat} {done : List Nat} (hdone : ∀ d ∈ done, d < 2 ^ bits)
    (hlen : done.length ≤ 8 / bits) {b : UInt8}
    (hb : b.toNat = digitsBe (2 ^ bits) done * 2 ^ (bits * (8 / bits - done.length)))
    (rest : List UInt8) {col : Nat} (hcol : col < done.length) :
    packedField bits (b :: rest) col = done[col]? := by
  have hbyte : col / (8 / bits) = 0 := Nat.div_eq_of_lt (by omega)
  have hfield : 8 / bits - 1 - col % (8 / bits)
      = (8 / bits - done.length) + (done.length - 1 - col) := by
    rw [Nat.mod_eq_of_lt (by omega)]
    omega
  simp only [packedField, hbyte, hfield, List.getElem?_cons_zero, Option.map_some, hb]
  rw [Nat.pow_mul, Nat.pow_add, ← Nat.div_div_eq_div_mul,
    Nat.mul_div_cancel _ (Nat.pow_pos (Nat.two_pow_pos bits)), digitsBe_digit hdone hcol,
    List.getElem?_eq_getElem hcol]

/-- The fields after the first byte are those of the rest. -/
theorem packedField_cons {bits : Nat} (hbits : bits = 1 ∨ bits = 2 ∨ bits = 4) (b : UInt8)
    (rest : List UInt8) {col : Nat} (hcol : 8 / bits ≤ col) :
    packedField bits (b :: rest) col = packedField bits rest (col - 8 / bits) := by
  have hpos : 0 < 8 / bits := by rcases hbits with rfl | rfl | rfl <;> decide
  have hdiv : col / (8 / bits) = (col - 8 / bits) / (8 / bits) + 1 :=
    Nat.div_eq_sub_div hpos hcol
  have hmod : col % (8 / bits) = (col - 8 / bits) % (8 / bits) := Nat.mod_eq_sub_mod hcol
  simp only [packedField, hdiv, hmod, List.getElem?_cons_succ]

/-- The packing loop with `done` already in the byte being filled: field
`col` of what it writes is index `col`. -/
theorem packRowFrom_spec {palette : List UInt32} {bits : Nat}
    (hbits : bits = 1 ∨ bits = 2 ∨ bits = 4) (hpal : palette.length ≤ 2 ^ bits) :
    ∀ (row : List UInt32) (done idxs : List Nat) (acc : UInt8),
      List.Forall₂ (fun p idx => position palette p = .ok idx ∧ palette[idx]? = some p) row idxs →
      (∀ d ∈ done, d < 2 ^ bits) → done.length < 8 / bits →
      acc.toNat = digitsBe (2 ^ bits) done →
      ∃ raw, packRowFrom palette bits acc (done.length * bits) row = .ok raw ∧
        raw.length = ((done.length + row.length) * bits + 7) / 8 ∧
        ∀ col < done.length + row.length, packedField bits raw col = (done ++ idxs)[col]?
  | [], done, idxs, acc, hidxs, hdone, hlen, hacc => by
      cases hidxs
      rw [packRowFrom]
      rcases Nat.eq_zero_or_pos done.length with h0 | hpos
      · refine ⟨[], ?_, ?_, ?_⟩
        · rw [if_neg (by rw [h0]; omega)]
          rfl
        · simp [h0]
        · intro col hcol
          rw [h0, List.length_nil] at hcol
          omega
      · have hused : done.length * bits < 8 ∧ 0 < done.length * bits := by
          rcases hbits with rfl | rfl | rfl <;> omega
        have hsub : sub? 8 (done.length * bits) = some (8 - done.length * bits) :=
          if_pos (by omega)
        have hroom : 8 - done.length * bits = bits * (8 / bits - done.length) := by
          rcases hbits with rfl | rfl | rfl <;> omega
        have hlt := digitsBe_lt hdone
        have hval : digitsBe (2 ^ bits) done * 2 ^ (8 - done.length * bits) < 2 ^ 8 := by
          rw [← Nat.pow_mul, Nat.mul_comm] at hlt
          have h2 := Nat.mul_lt_mul_of_pos_right hlt (Nat.two_pow_pos (8 - done.length * bits))
          rwa [← Nat.pow_add, Nat.add_sub_cancel' (by omega)] at h2
        have hbyte := shift_tail (by omega) hval acc hacc
        refine ⟨[acc <<< UInt8.ofNat (8 - done.length * bits)], ?_, ?_, ?_⟩
        · rw [if_pos hused.2, hsub]
          rfl
        · simp only [List.length_nil, Nat.add_zero, List.length_singleton]
          omega
        · intro col hcol
          rw [List.length_nil, Nat.add_zero] at hcol
          rw [List.append_nil]
          exact packedField_tail hdone (by omega) (hroom ▸ hbyte) [] hcol
  | p :: row, done, idxs, acc, hidxs, hdone, hlen, hacc => by
      obtain ⟨idx, idxs, ⟨hposn, hget⟩, hrow, rfl⟩ := List.forall₂_cons_left_iff.mp hidxs
      have hidx : idx < 2 ^ bits := by
        have := lt_of_getElem?_eq_some hget
        omega
      have hused : done.length * bits + bits ≤ 8 := by
        rcases hbits with rfl | rfl | rfl <;> omega
      have hdone' : ∀ d ∈ done ++ [idx], d < 2 ^ bits := by
        intro d hd
        rcases List.mem_append.mp hd with hd | hd
        · exact hdone d hd
        · rw [List.mem_singleton.mp hd]
          exact hidx
      have hacc' : ((acc <<< UInt8.ofNat bits) ||| UInt8.ofNat idx).toNat
          = digitsBe (2 ^ bits) (done ++ [idx]) := by
        have hlt := digitsBe_lt hdone
        rw [← Nat.pow_mul, Nat.mul_comm] at hlt
        rw [digitsBe_snoc]
        exact shift_in hbits hidx hlt hused acc hacc
      rw [packRowFrom, hposn, ok_bind]
      by_cases hfull : done.length * bits + bits = 8
      · -- the byte is full: what follows starts a new one
        have hlast : (done ++ [idx]).length = 8 / bits := by
          rw [List.length_append, List.length_singleton]
          rcases hbits with rfl | rfl | rfl <;> omega
        have hper : 0 < 8 / bits := by rcases hbits with rfl | rfl | rfl <;> decide
        obtain ⟨rest, hrest, hrestlen, hfields⟩ := packRowFrom_spec hbits hpal row [] idxs 0 hrow
          (by simp) hper rfl
        rw [List.length_nil, Nat.zero_mul] at hrest
        simp only [List.length_nil, Nat.zero_add, List.nil_append] at hrestlen hfields
        refine ⟨_ :: rest, by rw [if_pos hfull, hrest]; rfl, ?_, ?_⟩
        · rw [List.length_cons, hrestlen, List.length_cons]
          rcases hbits with rfl | rfl | rfl <;> omega
        · intro col hcol
          rw [List.length_cons] at hcol
          rw [List.append_cons done idx idxs]
          rcases Nat.lt_or_ge col (done ++ [idx]).length with hlo | hhi
          · rw [List.getElem?_append_left hlo]
            refine packedField_tail hdone' hlast.le ?_ rest hlo
            rw [hacc', hlast, Nat.sub_self, Nat.mul_zero, Nat.pow_zero, Nat.mul_one]
          · rw [List.getElem?_append_right hhi, hlast, packedField_cons hbits _ rest (hlast ▸ hhi)]
            refine hfields _ ?_
            rw [List.length_append, List.length_singleton] at hhi hlast
            omega
      · have hmore : (done ++ [idx]).length * bits = done.length * bits + bits := by
          rw [List.length_append, List.length_singleton, Nat.add_mul, Nat.one_mul]
        obtain ⟨raw, hraw, hrawlen, hfields⟩ := packRowFrom_spec hbits hpal row (done ++ [idx]) idxs
          _ hrow hdone' (by
            rw [List.length_append, List.length_singleton]
            rcases hbits with rfl | rfl | rfl <;> omega) hacc'
        rw [hmore] at hraw
        refine ⟨raw, by rw [if_neg hfull, hraw], ?_, ?_⟩
        · rw [hrawlen, List.length_append, List.length_singleton, List.length_cons]
          congr 2
          ring
        · intro col hcol
          rw [List.length_cons] at hcol
          rw [hfields col (by rw [List.length_append, List.length_singleton]; omega),
            List.append_cons done idx idxs]

/-- A row of the tile is written as a row of the grammar. -/
theorem packRow_spec {palette row : List UInt32} {bits : Nat} (f : UInt32 → Rgba)
    (hbits : indexBits palette.length = some bits) (hrow : ∀ p ∈ row, p ∈ palette) :
    ∃ raw, packRow palette bits row = .ok raw ∧
      PackedRow (palette.map f) row.length raw (row.map f) := by
  obtain ⟨hcases, hfield, hpal, -⟩ := indexBits_cases hbits
  obtain ⟨idxs, hidxs⟩ : ∃ idxs, List.Forall₂
      (fun p idx => position palette p = .ok idx ∧ palette[idx]? = some p) row idxs := by
    induction row with
    | nil => exact ⟨[], .nil⟩
    | cons p row ih =>
        obtain ⟨idxs, h⟩ := ih (fun q hq => hrow q (by simp [hq]))
        obtain ⟨idx, hidx⟩ := position_spec (hrow p (by simp))
        exact ⟨idx :: idxs, .cons hidx h⟩
  obtain ⟨raw, hraw, hlen, hfields⟩ := packRowFrom_spec hcases hpal row [] idxs 0 hidxs (by simp)
    (by rcases hcases with rfl | rfl | rfl <;> decide) rfl
  rw [List.length_nil, Nat.zero_mul] at hraw
  rw [List.length_nil, Nat.zero_add] at hlen hfields
  refine ⟨raw, hraw, ?_, List.length_map f, fun col hcol => ?_⟩
  · rw [List.length_map, hfield, hlen]
  · have hcol' : col < idxs.length := by rw [← hidxs.length_eq]; exact hcol
    obtain ⟨-, hget⟩ := (List.forall₂_iff_get.mp hidxs).2 col hcol hcol'
    refine ⟨idxs[col], ?_, ?_⟩
    · rw [List.length_map, hfield, hfields col hcol, List.nil_append,
        List.getElem?_eq_getElem hcol']
    · rw [List.getElem?_map, List.getElem?_map, List.getElem?_eq_getElem hcol]
      exact congrArg (Option.map f) hget

/-! ## Rows of a tile -/

theorem chunks_spec {α : Type} {w : Nat} (hw : 0 < w) : ∀ (th n : Nat) (px : List α),
    px.length = w * th → th ≤ n → (chunks w n px).length = th ∧ (chunks w n px).flatten = px ∧
      ∀ row ∈ chunks w n px, row.length = w
  | 0, n, px, hlen, _ => by
      obtain rfl : px = [] := List.length_eq_zero_iff.mp (by simpa using hlen)
      cases n <;> simp [chunks]
  | th + 1, 0, px, _, hn => by omega
  | th + 1, n + 1, px, hlen, hn => by
      rw [Nat.mul_add, Nat.mul_one] at hlen
      have hne : px ≠ [] := by
        rintro rfl
        simp at hlen
        omega
      obtain ⟨h1, h2, h3⟩ := chunks_spec hw th n (px.drop w) (by rw [List.length_drop]; omega)
        (by omega)
      rw [chunks, if_neg hne]
      refine ⟨by rw [List.length_cons, h1], by rw [List.flatten_cons, h2, List.take_append_drop],
        ?_⟩
      intro row hrow
      rcases List.mem_cons.mp hrow with rfl | hrow
      · rw [List.length_take]
        omega
      · exact h3 row hrow

/-! ## Tiles -/

/-- A tile of `palette` colours can be written in this form. -/
def Expressible (palette : Nat) : ZrleTiling → Prop
  | .solid => palette = 1
  | .packedPalette => (indexBits palette).isSome
  | .paletteRle => 2 ≤ palette ∧ palette ≤ 127
  | _ => True

theorem autoTiling_expressible {palette : Nat} (hpos : 0 < palette) (runs pixels : Nat) :
    Expressible palette (autoTiling palette runs pixels) := by
  unfold autoTiling
  split
  · assumption
  · split
    · assumption
    · split
      · exact ⟨by omega, by assumption⟩
      · split <;> trivial

/-- Whatever was asked for, the form spent is one the tile can express. -/
theorem chooseTiling_expressible {palette : Nat} (hpos : 0 < palette) (tiling : ZrleTiling)
    (runs pixels : Nat) : Expressible palette (chooseTiling tiling palette runs pixels) := by
  have hauto := autoTiling_expressible hpos runs pixels
  cases tiling <;> simp only [chooseTiling]
  · exact hauto
  · trivial
  · split
    · assumption
    · exact hauto
  · split
    · assumption
    · exact hauto
  · trivial
  · split
    · assumption
    · exact hauto

section Tile

variable {px : List UInt32} {w th : Nat} {fmt : PixelFormat}

/-- A tile of one colour is that colour throughout. -/
theorem eq_replicate_of_palette {p : UInt32} (h : paletteOf px = [p]) :
    px = List.replicate px.length p := by
  refine List.eq_replicate_iff.mpr ⟨rfl, fun q hq => ?_⟩
  have hmem := mem_paletteOf (by rw [h]; simp) q hq
  rw [h] at hmem
  exact List.mem_singleton.mp hmem

theorem encodeTile_packed (hw : 0 < w) (hlen : px.length = w * th) {bits : Nat}
    (hbits : indexBits (paletteOf px).length = some bits) {ps : List UInt8}
    (hps : Many (CPixel fmt) ps ((paletteOf px).map fmt.toRgba)) :
    ∃ rows, (chunks w px.length px).mapM (packRow (paletteOf px) bits) = .ok rows ∧
      Tile (CPixel fmt) w th (UInt8.ofNat (paletteOf px).length :: (ps ++ rows.flatten))
        (px.map fmt.toRgba) := by
  obtain ⟨-, -, -, hlo, hhi⟩ := indexBits_cases hbits
  have hth : th ≤ px.length := by
    rw [hlen]
    exact Nat.le_mul_of_pos_left th hw
  obtain ⟨hcount, hflat, hrowlen⟩ := chunks_spec hw th px.length px hlen hth
  have hcolours : ∀ row ∈ chunks w px.length px, ∀ p ∈ row, p ∈ paletteOf px := by
    intro row hrow p hp
    refine mem_paletteOf (by omega) p ?_
    rw [← hflat]
    exact List.mem_flatten.mpr ⟨row, hrow, hp⟩
  obtain ⟨rows, hrows, hmany⟩ := mapM_many (packRow (paletteOf px) bits)
    (P := PackedRow ((paletteOf px).map fmt.toRgba) w) (f := List.map fmt.toRgba)
    (l := chunks w px.length px) fun row hrow => by
      have h := packRow_spec fmt.toRgba hbits (hcolours row hrow)
      rwa [hrowlen row hrow] at h
  refine ⟨rows, hrows, ?_⟩
  have htile := Tile.packed (P := CPixel fmt) hlo hhi (List.length_map _) hps
    ((List.length_map _).trans hcount) hmany
  rwa [← List.map_flatten, hflat] at htile

/-- **Every form of every tile is a sentence of the grammar** for the
colours of its pixels. -/
theorem encodeTile_spec (hw : 0 < w) (hth : 0 < th) (hlen : px.length = w * th)
    (tiling : ZrleTiling)
    (hcp : ∀ p ∈ px, ∃ bs, writeCpixel fmt p = .ok bs ∧ CPixel fmt bs (fmt.toRgba p)) :
    ∃ bs, encodeTile px w tiling fmt = .ok bs ∧
      Tile (CPixel fmt) w th bs (px.map fmt.toRgba) := by
  have hne : px ≠ [] := by
    rintro rfl
    have := Nat.mul_pos hw hth
    simp at hlen
    omega
  have hexp := chooseTiling_expressible (paletteOf_pos hne) tiling (runsOf px).length px.length
  obtain ⟨ps, hps, hpalette⟩ := writeCpixels_spec
    fun p (hp : p ∈ paletteOf px) => hcp p (paletteOf_subset p hp)
  have hraw : ∃ bs, (do
      let cs ← writeCpixels fmt px
      return 0 :: cs : Outcome (List UInt8)) = .ok bs ∧
      Tile (CPixel fmt) w th bs (px.map fmt.toRgba) := by
    obtain ⟨cs, hcs, hmany⟩ := writeCpixels_spec hcp
    exact ⟨0 :: cs, by rw [hcs]; rfl, .raw (by rw [List.length_map, hlen]) hmany⟩
  have hexpand : expand ((runsOf px).map (Prod.map fmt.toRgba id)) = px.map fmt.toRgba := by
    rw [expand_map, expand_runsOf]
  have hfill : (expand ((runsOf px).map (Prod.map fmt.toRgba id))).length = w * th := by
    rw [hexpand, List.length_map, hlen]
  unfold encodeTile
  simp only
  cases hform : chooseTiling tiling (paletteOf px).length (runsOf px).length px.length with
  | auto => exact hraw
  | raw => exact hraw
  | solid =>
      rw [hform] at hexp
      obtain ⟨p, hp⟩ := List.length_eq_one_iff.mp hexp
      obtain ⟨cs, hcs, hc⟩ := hcp p (paletteOf_subset p (by rw [hp]; simp))
      refine ⟨1 :: cs, by simp only [hp, List.getElem?_cons_zero, orPanic_some, ok_bind, hcs]; rfl,
        ?_⟩
      rw [eq_replicate_of_palette hp, List.map_replicate, hlen]
      exact .solid hc
  | packedPalette =>
      rw [hform] at hexp
      obtain ⟨bits, hbits⟩ := Option.isSome_iff_exists.mp hexp
      obtain ⟨rows, hrows, htile⟩ := encodeTile_packed hw hlen hbits hpalette
      exact ⟨_, by simp only [hbits, orPanic_some, ok_bind, hps, hrows,
        if_neg (Nat.pos_iff_ne_zero.mp hw)]; rfl, htile⟩
  | plainRle =>
      obtain ⟨rs, hrs, hmany⟩ := mapM_many (writePlainRun fmt)
        (P := PlainRun (CPixel fmt)) (f := Prod.map fmt.toRgba id) (l := runsOf px)
        fun r hr => writePlainRun_spec (runsOf_pos px r hr) (hcp r.1 (runsOf_mem r hr))
      refine ⟨128 :: rs.flatten, by rw [hrs]; rfl, ?_⟩
      have htile := Tile.plainRle hmany hfill
      rwa [hexpand] at htile
  | paletteRle =>
      rw [hform] at hexp
      obtain ⟨hlo, hhi⟩ : 2 ≤ (paletteOf px).length ∧ (paletteOf px).length ≤ 127 := hexp
      obtain ⟨rs, hrs, hmany⟩ := mapM_many (writePaletteRun (paletteOf px))
        (P := PaletteRun ((paletteOf px).map fmt.toRgba)) (f := Prod.map fmt.toRgba id)
        (l := runsOf px)
        fun r hr => writePaletteRun_spec fmt.toRgba hhi
          (mem_paletteOf (by omega) _ (runsOf_mem r hr)) (runsOf_pos px r hr)
      refine ⟨(128 + UInt8.ofNat (paletteOf px).length) :: (ps ++ rs.flatten),
        by rw [hps, ok_bind, hrs]; rfl, ?_⟩
      have htile := Tile.paletteRle hlo hhi (List.length_map _) hpalette hmany hfill
      rwa [hexpand, UInt8.ofNat_add] at htile

end Tile

/-! ## Regions of a screen -/

/-- A pixel on the screen is there to be read. -/
theorem Screen.pixel_eq (s : Screen) {x y : UInt16} (hx : x < s.width) (hy : y < s.height) :
    ∃ c, s.pixel x y = some c ∧ pixelAt s.rgba s.width.toNat x.toNat y.toNat = c.bytes := by
  have hx' : x.toNat < s.width.toNat := hx
  have hy' : y.toNat < s.height.toNat := hy
  have hi : y.toNat * s.width.toNat + x.toNat < s.width.toNat * s.height.toNat :=
    index_lt hx' hy'
  have hlen : (pixelAt s.rgba s.width.toNat x.toNat y.toNat).length = 4 := by
    have := s.length_rgba
    exact length_record (by omega)
  obtain ⟨c, hc⟩ := Rgba.exists_bytes hlen
  have hoff : ¬ (x ≥ s.width ∨ y ≥ s.height) := by
    rw [ge_iff_le, ge_iff_le, UInt16.le_iff_toNat_le, UInt16.le_iff_toNat_le]
    omega
  exact ⟨c, by rw [Screen.pixel, if_neg hoff, hc]; rfl, hc⟩

theorem length_region (s : Screen) (x y w h : UInt16) :
    (region s x y w h).length = w.toNat * h.toNat := by
  rw [region, List.flatMap_def, length_flatten_of_forall (k := w.toNat), List.length_map,
    List.length_range]
  simp

/-- The pixel of a region at column `i`, row `j`. -/
theorem getElem?_region (s : Screen) (x y w h : UInt16) {i j : Nat} (hi : i < w.toNat)
    (hj : j < h.toNat) : (region s x y w h)[j * w.toNat + i]?
      = some ((s.pixel (satAdd x (UInt16.ofNat i)) (satAdd y (UInt16.ofNat j))).getD
          Rfb.black) := by
  let rows := (List.range h.toNat).map fun row => (List.range w.toNat).map fun col =>
    (s.pixel (satAdd x (UInt16.ofNat col)) (satAdd y (UInt16.ofNat row))).getD Rfb.black
  have hrows : ∀ r ∈ rows, r.length = w.toNat := by simp [rows]
  have hrec := record_flatten hrows (i := j) (by simpa [rows] using hj)
  have hget := congrArg (·[i]?) hrec
  simp only [getElem?_record, if_pos hi] at hget
  rw [region, List.flatMap_def, Nat.mul_comm, hget]
  simp [rows, hi]

theorem satAdd_eq {a b : UInt16} (h : a.toNat + b.toNat < 65536) : satAdd a b = a + b := if_pos h

/-! ## The tile stream -/

section Stream

variable (screen : Screen) (tiling : ZrleTiling) (x y w h : UInt16) (fmt : PixelFormat)

/-- The pixel values of the tile at `b` of the rect. -/
def boxPixels (b : Box) : List UInt32 :=
  tilePixels screen (UInt16.ofNat (x.toNat + b.x)) (UInt16.ofNat (y.toNat + b.y))
    (UInt16.ofNat b.w) (UInt16.ofNat b.h) fmt

/-- The tiles of the rect, as the decoder should see them. -/
def boxTiles : List (Box × List Rgba) :=
  (boxes w.toNat h.toNat).map fun b => (b, (boxPixels screen x y fmt b).map fmt.toRgba)

variable {screen x y w h fmt}

/-- A box of a rect has pixels, and as many as its size. -/
theorem boxes_size {b : Box} (hb : b ∈ boxes w.toNat h.toNat) : 0 < b.w ∧ 0 < b.h ∧
    b.w < 65536 ∧ b.h < 65536 := by
  obtain ⟨ty, hy, tx, hx, rfl⟩ := mem_boxes.mp hb
  have hx' := (mem_tileOrigins.mp hx).2
  have hy' := (mem_tileOrigins.mp hy).2
  simp only
  omega

theorem length_boxPixels {b : Box} (hw : b.w < 65536) (hh : b.h < 65536) :
    (boxPixels screen x y fmt b).length = b.w * b.h := by
  rw [boxPixels, tilePixels, List.length_map, length_region, UInt16.toNat_ofNat',
    UInt16.toNat_ofNat', Nat.mod_eq_of_lt hw, Nat.mod_eq_of_lt hh]

/-- The stream is the tiles of the rect, each in a form of the grammar. -/
theorem tiles_spec (screen : Screen) (tiling : ZrleTiling) (x y w h : UInt16)
    (hd : StandardDepth fmt) (hf : fmt.CpixelKeepsColour) :
    ∃ bs, tiles screen tiling x y w h fmt = .ok bs ∧
      Many (fun bs t => Tile (CPixel fmt) t.1.w t.1.h bs t.2) bs
        (boxTiles screen x y w h fmt) := by
  have hcp : ∀ b : Box, ∀ p ∈ boxPixels screen x y fmt b,
      ∃ bs, writeCpixel fmt p = .ok bs ∧ CPixel fmt bs (fmt.toRgba p) := by
    intro b p hp
    obtain ⟨c, -, rfl⟩ := List.mem_map.mp hp
    exact writeCpixel_spec hd (PixelFormat.fromRgba_and_cpixelMask hf c)
  let box (dy dx : Nat) : Box := ⟨dx, dy, min 64 (w.toNat - dx), min 64 (h.toNat - dy)⟩
  have hrow : ∀ dy ∈ tileStarts h.toNat, ∃ bs, (do
      let row ← (tileStarts w.toNat).mapM fun dx => encodeTile (boxPixels screen x y fmt (box dy dx))
        (UInt16.ofNat (box dy dx).w).toNat tiling fmt
      return row.flatten : Outcome (List UInt8)) = .ok bs ∧
      Many (fun bs t => Tile (CPixel fmt) t.1.w t.1.h bs t.2) bs
        ((tileStarts w.toNat).map fun dx =>
          (box dy dx, (boxPixels screen x y fmt (box dy dx)).map fmt.toRgba)) := by
    intro dy hdy
    obtain ⟨bss, hbss, hmany⟩ := mapM_many
      (fun dx => encodeTile (boxPixels screen x y fmt (box dy dx))
        (UInt16.ofNat (box dy dx).w).toNat tiling fmt)
      (P := fun bs (t : Box × List Rgba) => Tile (CPixel fmt) t.1.w t.1.h bs t.2)
      (f := fun dx => (box dy dx, (boxPixels screen x y fmt (box dy dx)).map fmt.toRgba))
      (l := tileStarts w.toNat) fun dx hdx => by
        rw [tileStarts_eq] at hdx hdy
        have hb : box dy dx ∈ boxes w.toNat h.toNat := mem_boxes.mpr ⟨dy, hdy, dx, hdx, rfl⟩
        obtain ⟨hw, hh, hw16, hh16⟩ := boxes_size hb
        rw [UInt16.toNat_ofNat', Nat.mod_eq_of_lt hw16]
        exact encodeTile_spec hw hh (length_boxPixels hw16 hh16) tiling (hcp _)
    exact ⟨bss.flatten, by rw [hbss]; rfl, hmany⟩
  obtain ⟨rows, hrows, hmany⟩ := mapM_many _ hrow
  refine ⟨rows.flatten, ?_, ?_⟩
  · exact (congrArg (· >>= fun rows => pure rows.flatten) hrows :)
  · have hflat := hmany.flatten
    rw [← List.flatMap_def, tileStarts_eq, tileStarts_eq] at hflat
    rw [boxTiles, boxes, List.map_flatMap]
    simpa only [List.map_map, Function.comp_def] using hflat

/-- The pixel of the tile stream at `(i, j)` of the rect. -/
theorem boxPixels_getElem? (hx : x.toNat + w.toNat ≤ screen.width.toNat) {b : Box}
    (hb : b ∈ boxes w.toNat h.toNat) (hy : y.toNat + h.toNat ≤ screen.height.toNat) {i j : Nat}
    (hi : i < b.w) (hj : j < b.h) :
    ((boxPixels screen x y fmt b).map fmt.toRgba)[j * b.w + i]?
      = some (fmt.toRgba (fmt.fromRgba ((screen.pixel (x + UInt16.ofNat (b.x + i))
          (y + UInt16.ofNat (b.y + j))).getD Rfb.black))) := by
  have hfit := boxes_fit b hb
  obtain ⟨-, -, hw16, hh16⟩ := boxes_size hb
  have hw : (UInt16.ofNat b.w).toNat = b.w := by rw [UInt16.toNat_ofNat']; omega
  have hh : (UInt16.ofNat b.h).toNat = b.h := by rw [UInt16.toNat_ofNat']; omega
  have hsw := screen.width.toNat_lt
  have hsh := screen.height.toNat_lt
  have hbx := hfit.1
  have hby := hfit.2
  have hcol : satAdd (UInt16.ofNat (x.toNat + b.x)) (UInt16.ofNat i) = x + UInt16.ofNat (b.x + i) := by
    have h1 : (UInt16.ofNat (x.toNat + b.x)).toNat = x.toNat + b.x := by
      rw [UInt16.toNat_ofNat']
      omega
    have h2 : (UInt16.ofNat i).toNat = i := by
      rw [UInt16.toNat_ofNat']
      omega
    rw [satAdd_eq (by omega)]
    simp [UInt16.ofNat_add, UInt16.add_assoc]
  have hrow : satAdd (UInt16.ofNat (y.toNat + b.y)) (UInt16.ofNat j) = y + UInt16.ofNat (b.y + j) := by
    have h1 : (UInt16.ofNat (y.toNat + b.y)).toNat = y.toNat + b.y := by
      rw [UInt16.toNat_ofNat']
      omega
    have h2 : (UInt16.ofNat j).toNat = j := by
      rw [UInt16.toNat_ofNat']
      omega
    rw [satAdd_eq (by omega)]
    simp [UInt16.ofNat_add, UInt16.add_assoc]
  have hget := getElem?_region screen (UInt16.ofNat (x.toNat + b.x)) (UInt16.ofNat (y.toNat + b.y))
    (UInt16.ofNat b.w) (UInt16.ofNat b.h) (i := i) (j := j) (by omega) (by omega)
  rw [hw, hcol, hrow] at hget
  rw [boxPixels, tilePixels, List.getElem?_map, List.getElem?_map, hget]
  rfl

end Stream

/-! ## The round trip -/

/-- The stream denotes an image, and its pixels are the screen's as the
format can express them. -/
theorem tiles_denotes {screen : Screen} {x y w h : UInt16} {fmt : PixelFormat}
    (tiling : ZrleTiling) (hd : StandardDepth fmt) (hf : fmt.CpixelKeepsColour)
    (hx : x.toNat + w.toNat ≤ screen.width.toNat)
    (hy : y.toNat + h.toNat ≤ screen.height.toNat) :
    ∃ bytes px, tiles screen tiling x y w h fmt = .ok bytes ∧
      Denotes (CPixel fmt) w.toNat h.toNat bytes px ∧
      ∀ i j : UInt16, i < w → j < h → ∃ c, screen.pixel (x + i) (y + j) = some c ∧
        pixelAt px w.toNat i.toNat j.toNat = (fmt.toRgba (fmt.fromRgba c)).bytes := by
  obtain ⟨bytes, hbytes, hmany⟩ := tiles_spec screen tiling x y w h hd hf
  have hmap : (boxTiles screen x y w h fmt).map Prod.fst = boxes w.toNat h.toNat := by
    simp [boxTiles, Function.comp_def]
  obtain ⟨px, -, hlen, hshows⟩ := assemble_boxes hmap (lengths_of_tiles hmany)
  refine ⟨bytes, px, hbytes, ⟨hlen, _, hmap, hmany, hshows⟩, fun i j hi hj => ?_⟩
  have hi' : i.toNat < w.toNat := hi
  have hj' : j.toNat < h.toNat := hj
  obtain ⟨b, hb, ⟨hx1, hx2⟩, hy1, hy2⟩ := boxes_cover hi' hj'
  have hshow := hshows _ (List.mem_map_of_mem hb) (i.toNat - b.x) (by simp only; omega)
    (j.toNat - b.y) (by simp only; omega)
  simp only at hshow
  rw [boxPixels_getElem? hx hb hy (by omega) (by omega), Nat.add_sub_cancel' hx1,
    Nat.add_sub_cancel' hy1, UInt16.ofNat_toNat, UInt16.ofNat_toNat, Option.map_some,
    Option.some_inj] at hshow
  have hsw := screen.width.toNat_lt
  have hsh := screen.height.toNat_lt
  obtain ⟨c, hc, -⟩ := screen.pixel_eq (x := x + i) (y := y + j)
    (by rw [UInt16.lt_iff_toNat_lt, UInt16.toNat_add]; omega)
    (by rw [UInt16.lt_iff_toNat_lt, UInt16.toNat_add]; omega)
  exact ⟨c, hc, by rw [← hshow, hc]; rfl⟩

/-- Decoding what the encoder wrote succeeds, uses every byte, and shows
every pixel of the rect as the format can express it. -/
def RoundTrips (screen : Screen) (tiling : ZrleTiling) (x y w h : UInt16) (fmt : PixelFormat) :
    Prop :=
  ∃ bytes px, tiles screen tiling x y w h fmt = .ok bytes ∧
    decodeTilesFrom fmt w.toNat h.toNat bytes = .ok (px, []) ∧
    decodeTiles bytes fmt w h = .ok px ∧ px.length = w.toNat * h.toNat * 4 ∧
    ∀ i j : UInt16, i < w → j < h → ∃ c, screen.pixel (x + i) (y + j) = some c ∧
      pixelAt px w.toNat i.toNat j.toNat = (fmt.toRgba (fmt.fromRgba c)).bytes

/-- **ZRLE tile coding round-trips** for every format whose CPIXEL loses no
colour bit. -/
theorem tiles_roundTrip {screen : Screen} {x y w h : UInt16} {fmt : PixelFormat}
    (tiling : ZrleTiling) (hd : StandardDepth fmt) (hf : fmt.CpixelKeepsColour)
    (hx : x.toNat + w.toNat ≤ screen.width.toNat)
    (hy : y.toNat + h.toNat ≤ screen.height.toNat) :
    RoundTrips screen tiling x y w h fmt := by
  obtain ⟨bytes, px, hbytes, hden, hpx⟩ := tiles_denotes tiling hd hf hx hy
  have hrun : decodeTilesFrom fmt w.toNat h.toNat bytes = .ok (px, []) :=
    ((decodeTilesFrom_recognises fmt _ _).accepts bytes px []).mpr
      ⟨bytes, hden, (List.append_nil bytes).symm⟩
  exact ⟨bytes, px, hbytes, hrun, by rw [decodeTiles, hrun]; rfl, hden.1, hpx⟩

/-- The round trip on a red pixel in the negotiated format. -/
theorem tiles_roundTrip_red :
    RoundTrips (Screen.solid 1 1 ⟨255, 0, 0, 255⟩) .auto 0 0 1 1 PixelFormat.rgbx32 :=
  tiles_roundTrip .auto (.inr (.inr rfl)) (by decide) (by decide) (by decide)

/-- Eight bits per pixel, and a red channel that is all above them. -/
def highRed8 : PixelFormat where
  bitsPerPixel := 8
  depth := 8
  bigEndian := false
  trueColour := true
  redMax := 255
  greenMax := 0
  blueMax := 0
  redShift := 8
  greenShift := 0
  blueShift := 0

/-- Asking only a 3-byte CPIXEL to keep the colour is not enough: an 8-bit
pixel loses a channel that lies above it. -/
theorem not_roundTrip_highRed8 : ¬ ∀ (screen : Screen) (tiling : ZrleTiling) (x y w h : UInt16)
    (fmt : PixelFormat), StandardDepth fmt →
    (fmt.cpixelBytes = 3 → fmt.bytesPerPixel = 4 → fmt.CpixelKeepsColour) →
    x.toNat + w.toNat ≤ screen.width.toNat → y.toNat + h.toNat ≤ screen.height.toNat →
    RoundTrips screen tiling x y w h fmt := by
  intro hall
  obtain ⟨bytes, px, hbytes, -, hdec, -, hpx⟩ := hall (Screen.solid 1 1 ⟨255, 0, 0, 255⟩) .raw
    0 0 1 1 highRed8 (.inl rfl) (by decide) (by decide) (by decide)
  have htiles : tiles (Screen.solid 1 1 ⟨255, 0, 0, 255⟩) .raw 0 0 1 1 highRed8 = .ok [0, 0] := rfl
  rw [htiles] at hbytes
  cases hbytes
  have himage : decodeTiles [0, 0] highRed8 1 1 = .ok [0, 0, 0, 255] := rfl
  rw [himage] at hdec
  cases hdec
  obtain ⟨c, hc, hbad⟩ := hpx 0 0 (by decide) (by decide)
  have hred : (Screen.solid 1 1 ⟨255, 0, 0, 255⟩).pixel (0 + 0) (0 + 0)
      = some ⟨255, 0, 0, 255⟩ := rfl
  rw [hred] at hc
  cases hc
  exact absurd hbad (by decide)

end Bolide.Testkit
