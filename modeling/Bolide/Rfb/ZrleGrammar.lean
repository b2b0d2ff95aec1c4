/-
Bolide.Rfb.ZrleGrammar — the tile format, as the module doc of
`bolide-rfb/src/zrle.rs` writes it down.

That doc is the one specification the decoder and the testkit's encoder
both read, so it is stated here once, as relations between bytes and what
they mean, with no reference to either implementation. The CPIXEL coding is
a parameter `P`: `P bs c` says that the bytes `bs` are a CPIXEL of colour
`c`. `Tile` is the table of subencodings, `Denotes` the payload as a whole.
-/
import Bolide.Rfb.Framebuffer
import Bolide.Lib.Recogniser

namespace Bolide.Rfb

open Lib

/-! ## Pieces of a tile -/

/-- Zero or more `0xff`, then one byte below it: their sum plus one. -/
def RunLength (bs : List UInt8) (n : Nat) : Prop :=
  ∃ k b, b < 0xff ∧ bs = List.replicate k 0xff ++ [b] ∧ n = (bs.map UInt8.toNat).sum + 1

/-- What a list of `(value, length)` runs stands for. -/
def expand {α : Type} (runs : List (α × Nat)) : List α :=
  runs.flatMap (fun r => List.replicate r.2 r.1)

/-- A `(CPIXEL, runlength)` pair. -/
def PlainRun (P : List UInt8 → Rgba → Prop) (bs : List UInt8) (run : Rgba × Nat) : Prop :=
  ∃ cs ls, bs = cs ++ ls ∧ P cs run.1 ∧ RunLength ls run.2

/-- A palette run: bit 7 set, the index in the low 7 bits and a run length;
or the whole byte an index, for a run of one. -/
def PaletteRun (palette : List Rgba) (bs : List UInt8) (run : Rgba × Nat) : Prop :=
  (∃ b ls, bs = b :: ls ∧ 128 ≤ b.toNat ∧ palette[b.toNat - 128]? = some run.1 ∧
      RunLength ls run.2) ∨
    ∃ b, bs = [b] ∧ b.toNat < 128 ∧ palette[b.toNat]? = some run.1 ∧ run.2 = 1

/-- The index field of column `col`: `bits` wide, most significant first in
the byte it is in. -/
def packedField (bits : Nat) (raw : List UInt8) (col : Nat) : Option Nat :=
  let fields := 8 / bits
  raw[col / fields]?.map fun b => b.toNat / (2 ^ bits) ^ (fields - 1 - col % fields) % 2 ^ bits

/-- The narrowest field for a palette of `n`: `n == 2` → 1 bit, `n <= 4` → 2
bits, `n <= 16` → 4 bits. -/
def fieldBits (n : Nat) : Nat := if n = 2 then 1 else if n ≤ 4 then 2 else 4

/-- One row of packed indices, padded to a byte boundary. -/
def PackedRow (palette : List Rgba) (tw : Nat) (raw : List UInt8) (row : List Rgba) : Prop :=
  let bits := fieldBits palette.length
  raw.length = (tw * bits + 7) / 8 ∧ row.length = tw ∧
    ∀ col < tw, ∃ idx, packedField bits raw col = some idx ∧ palette[idx]? = row[col]?

/-! ## The table of subencodings -/

/-- `bs` is one tile of `tw` by `th` pixels, and `px` are its pixels. -/
inductive Tile (P : List UInt8 → Rgba → Prop) (tw th : Nat) : List UInt8 → List Rgba → Prop
  | raw {bs px} (hlen : px.length = tw * th) (hpx : Many P bs px) : Tile P tw th (0 :: bs) px
  | solid {bs c} (hc : P bs c) : Tile P tw th (1 :: bs) (List.replicate (tw * th) c)
  | packed {n ps bs palette rows} (hlo : 2 ≤ n) (hhi : n ≤ 16)
      (hlen : palette.length = n) (hps : Many P ps palette)
      (hth : rows.length = th) (hrows : Many (PackedRow palette tw) bs rows) :
      Tile P tw th (UInt8.ofNat n :: (ps ++ bs)) rows.flatten
  | plainRle {bs runs} (hruns : Many (PlainRun P) bs runs)
      (hfill : (expand runs).length = tw * th) : Tile P tw th (128 :: bs) (expand runs)
  | paletteRle {n ps bs palette runs} (hlo : 2 ≤ n) (hhi : n ≤ 127)
      (hlen : palette.length = n) (hps : Many P ps palette)
      (hruns : Many (PaletteRun palette) bs runs)
      (hfill : (expand runs).length = tw * th) :
      Tile P tw th (UInt8.ofNat (128 + n) :: (ps ++ bs)) (expand runs)

/-! ## The payload -/

/-- A tile's place in its rect. -/
structure Box where
  x : Nat
  y : Nat
  w : Nat
  h : Nat
  deriving DecidableEq, Repr

/-- Where the tiles of an axis of length `n` start: every multiple of 64 below it. -/
def tileOrigins (n : Nat) : List Nat := (List.range n).filter (fun x => 64 ∣ x)

/-- The tiles of a rect, left to right then top to bottom, clipped at its
right and bottom edges. -/
def boxes (w h : Nat) : List Box :=
  (tileOrigins h).flatMap fun y => (tileOrigins w).map fun x =>
    ⟨x, y, min 64 (w - x), min 64 (h - y)⟩

/-- The pixels of one tile are at its place in the image. -/
def Shows (px : List UInt8) (w : Nat) (t : Box × List Rgba) : Prop :=
  ∀ i < t.1.w, ∀ j < t.1.h,
    t.2[j * t.1.w + i]?.map Rgba.bytes = some (pixelAt px w (t.1.x + i) (t.1.y + j))

/-- `bs` is the tiles of a `w` by `h` rect end to end, and `px` their image. -/
def Denotes (P : List UInt8 → Rgba → Prop) (w h : Nat) (bs px : List UInt8) : Prop :=
  px.length = w * h * 4 ∧ ∃ tiles : List (Box × List Rgba), tiles.map Prod.fst = boxes w h ∧
    Many (fun bs t => Tile P t.1.w t.1.h bs t.2) bs tiles ∧ ∀ t ∈ tiles, Shows px w t

/-- The CPIXEL of bolide's negotiated format: 3 bytes, R, G, B. -/
def RgbCPixel (bs : List UInt8) (c : Rgba) : Prop :=
  ∃ r g b, bs = [r, g, b] ∧ c = ⟨r, g, b, 255⟩

/-! ## Lengths -/

@[simp] theorem expand_nil {α : Type} : expand ([] : List (α × Nat)) = [] := rfl

@[simp] theorem expand_cons {α : Type} (r : α × Nat) (runs : List (α × Nat)) :
    expand (r :: runs) = List.replicate r.2 r.1 ++ expand runs := rfl

theorem RunLength.pos {bs : List UInt8} {n : Nat} (h : RunLength bs n) : 1 ≤ n := by
  obtain ⟨k, b, -, -, rfl⟩ := h
  omega

/-- A tile has every pixel of its box. -/
theorem Tile.length {P : List UInt8 → Rgba → Prop} {tw th : Nat} {bs : List UInt8}
    {px : List Rgba} (h : Tile P tw th bs px) : px.length = tw * th := by
  cases h with
  | raw hlen => exact hlen
  | solid => exact List.length_replicate
  | packed _ _ _ _ hth hrows =>
      have hall := hrows.forall (Q := fun row => row.length = tw) fun _ _ hr => hr.2.1
      rw [length_flatten_of_forall hall, hth]
  | plainRle _ hfill => exact hfill
  | paletteRle _ _ _ _ _ hfill => exact hfill

/-! ## Where the tiles are -/

theorem mem_tileOrigins {x n : Nat} : x ∈ tileOrigins n ↔ 64 ∣ x ∧ x < n := by
  simp only [tileOrigins, List.mem_filter, List.mem_range, decide_eq_true_eq]
  exact and_comm

/-- The origins are in order, a tile apart. -/
theorem tileOrigins_pairwise (n : Nat) :
    (tileOrigins n).Pairwise (fun a b => a + 64 ≤ b) := by
  have hlt : (tileOrigins n).Pairwise (fun a b => a < b) := List.pairwise_lt_range.filter _
  refine hlt.imp_of_mem fun ha hb hab => ?_
  obtain ⟨⟨i, rfl⟩, -⟩ := mem_tileOrigins.mp ha
  obtain ⟨⟨j, rfl⟩, -⟩ := mem_tileOrigins.mp hb
  omega

/-- A box with a pixel `(x, y)` of the image in it. -/
def Box.Has (b : Box) (x y : Nat) : Prop := (b.x ≤ x ∧ x < b.x + b.w) ∧ b.y ≤ y ∧ y < b.y + b.h

/-- The box is inside a `w` by `h` image. -/
def Box.Fits (w h : Nat) (b : Box) : Prop := b.x + b.w ≤ w ∧ b.y + b.h ≤ h

theorem mem_boxes {w h : Nat} {b : Box} : b ∈ boxes w h ↔
    ∃ y ∈ tileOrigins h, ∃ x ∈ tileOrigins w,
      (⟨x, y, min 64 (w - x), min 64 (h - y)⟩ : Box) = b := by
  simp only [boxes, List.mem_flatMap, List.mem_map]

theorem boxes_fit {w h : Nat} : ∀ b ∈ boxes w h, b.Fits w h := by
  intro b hb
  obtain ⟨y, hy, x, hx, rfl⟩ := mem_boxes.mp hb
  have hy' := (mem_tileOrigins.mp hy).2
  have hx' := (mem_tileOrigins.mp hx).2
  constructor <;> simp only <;> omega

/-- No pixel is in two tiles. -/
theorem boxes_disjoint (w h : Nat) :
    (boxes w h).Pairwise (fun b c => ∀ x y, b.Has x y → ¬ c.Has x y) := by
  rw [boxes, List.pairwise_flatMap]
  constructor
  · intro y _
    rw [List.pairwise_map]
    refine (tileOrigins_pairwise w).imp fun hab x' y' hb hc => ?_
    simp only [Box.Has] at hb hc
    omega
  · refine (tileOrigins_pairwise h).imp fun hab b hb c hc x' y' hB hC => ?_
    obtain ⟨_, _, rfl⟩ := List.mem_map.mp hb
    obtain ⟨_, _, rfl⟩ := List.mem_map.mp hc
    simp only [Box.Has] at hB hC
    omega

/-- Every pixel of the rect is in a tile. -/
theorem boxes_cover {w h x y : Nat} (hx : x < w) (hy : y < h) :
    ∃ b ∈ boxes w h, b.Has x y := by
  have hxs : x / 64 * 64 ∈ tileOrigins w :=
    mem_tileOrigins.mpr ⟨Nat.dvd_mul_left _ _, by omega⟩
  have hys : y / 64 * 64 ∈ tileOrigins h :=
    mem_tileOrigins.mpr ⟨Nat.dvd_mul_left _ _, by omega⟩
  refine ⟨_, mem_boxes.mpr ⟨_, hys, _, hxs, rfl⟩, ?_⟩
  simp only [Box.Has]
  omega

end Bolide.Rfb
