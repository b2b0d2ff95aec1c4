/-
Bolide.Lib.Pieces — a file that is written piece by piece.

`writeAt` is what one write at an offset does to a file. `Copied whole
content n` says that the file has the first `n` items of what is copied into
it, and is no longer than that: writing any piece of `whole` in its place
keeps it, whoever writes, and writing the next one after `n` takes it further.
-/
import Mathlib

namespace Lib

variable {α : Type} {whole content piece : List α} {n offset : Nat}

/-- A write at an offset: a gap before it is filled, and what was there is
overwritten. -/
def writeAt (fill : α) (content : List α) (offset : Nat) (piece : List α) : List α :=
  if piece.length = 0 then content
  else content.take offset ++ List.replicate (offset - content.length) fill ++ piece ++
    content.drop (offset + piece.length)

theorem length_writeAt (fill : α) (h : piece.length ≠ 0) :
    (writeAt fill content offset piece).length = max content.length (offset + piece.length) := by
  rw [writeAt, if_neg h]
  simp only [List.length_append, List.length_take, List.length_replicate, List.length_drop]
  omega

/-- What was there stays, but for the piece's place. -/
theorem getElem?_writeAt (fill : α) {i : Nat} (hi : i < content.length) :
    (writeAt fill content offset piece)[i]? =
      if offset ≤ i ∧ i < offset + piece.length then piece[i - offset]? else content[i]? := by
  unfold writeAt
  split
  · next hnil => rw [if_neg (by omega)]
  · rw [List.append_assoc, List.append_assoc]
    by_cases hbefore : i < offset
    · rw [List.getElem?_append_left (by rw [List.length_take]; omega), List.getElem?_take,
        if_pos hbefore, if_neg (by omega)]
    · have hgap : offset - content.length = 0 := by omega
      have htake : (content.take offset).length = offset := by rw [List.length_take]; omega
      rw [hgap, List.replicate_zero, List.nil_append,
        List.getElem?_append_right (by omega), htake]
      by_cases hin : i < offset + piece.length
      · rw [List.getElem?_append_left (by omega), if_pos (by omega)]
      · rw [List.getElem?_append_right (by omega), List.getElem?_drop, if_neg (by omega)]
        congr 1
        omega

/-- The first `n` items of `whole` are there, and nothing after its end. -/
structure Copied (whole content : List α) (n : Nat) : Prop where
  start : ∀ i < n, content[i]? = whole[i]?
  fits : content.length ≤ whole.length
  reached : n ≤ content.length

theorem copied_nil (whole : List α) : Copied whole [] 0 := ⟨by simp, by simp, by simp⟩

theorem Copied.eq (h : Copied whole content whole.length) : content = whole := by
  have hlen : content.length = whole.length := le_antisymm h.fits h.reached
  refine List.ext_getElem? fun i => ?_
  by_cases hi : i < whole.length
  · exact h.start i hi
  · rw [List.getElem?_eq_none (by omega), List.getElem?_eq_none (by omega)]

/-- A piece of `whole`, from an offset on. -/
theorem getElem?_piece (k : Nat) {i : Nat} (hi : offset ≤ i)
    (hend : i < offset + ((whole.drop offset).take k).length) :
    ((whole.drop offset).take k)[i - offset]? = whole[i]? := by
  rw [List.length_take, List.length_drop] at hend
  rw [List.getElem?_take, if_pos (by omega), List.getElem?_drop]
  congr 1
  omega

/-- A piece written in its place, by whoever writes it. -/
theorem Copied.write (fill : α) (h : Copied whole content n) (offset k : Nat) :
    Copied whole (writeAt fill content offset ((whole.drop offset).take k)) n := by
  by_cases hnil : ((whole.drop offset).take k).length = 0
  · rw [writeAt, if_pos hnil]
    exact h
  have hlen := @length_writeAt _ content _ offset fill hnil
  have hfits := h.fits
  have hreached := h.reached
  refine ⟨fun i hi => ?_, ?_, ?_⟩
  · rw [getElem?_writeAt fill (by omega)]
    split
    · next hin => exact getElem?_piece k hin.1 hin.2
    · exact h.start i hi
  · rw [hlen]
    rw [List.length_take, List.length_drop] at hnil ⊢
    omega
  · omega

/-- The next piece takes the copy further. -/
theorem Copied.advance (fill : α) (h : Copied whole content n) (k : Nat) :
    Copied whole (writeAt fill content n ((whole.drop n).take k))
      (n + ((whole.drop n).take k).length) := by
  by_cases hnil : ((whole.drop n).take k).length = 0
  · rw [writeAt, if_pos hnil, hnil]
    exact h
  have hlen := @length_writeAt _ content _ n fill hnil
  have hreached := h.reached
  refine ⟨fun i hi => ?_, (h.write fill n k).fits, by omega⟩
  by_cases hin : i < n
  · exact (h.write fill n k).start i hin
  · have hgap : n - content.length = 0 := by omega
    have htake : (content.take n).length = n := by rw [List.length_take]; omega
    rw [writeAt, if_neg hnil, hgap, List.replicate_zero, List.append_nil, List.append_assoc,
      List.getElem?_append_right (by omega), htake, List.getElem?_append_left (by omega)]
    exact getElem?_piece k (by omega) hi

end Lib
