/-
Bolide.Rfb.KeysymTheorems — characters and their keysyms.

`charOf` reads a keysym back (`charOf_keysymForChar`), so only a carriage
return and a line feed share one. As a key name a character has the same
keysym as in a text, unless it is one of the Mac's modifier glyphs.
-/
import Bolide.Rfb.Keysym

namespace Bolide.Rfb

/-! ## Reading keysyms back -/

/-- A carriage return is typed like a line feed. -/
def newline (c : Char) : Char := if c = '\r' then '\n' else c

/-- The character that is typed with a keysym. -/
def charOf (keysym : UInt32) : Char :=
  if keysym = 0xff0d then '\n'
  else if keysym = 0xff09 then '\t'
  else if keysym = 0xff08 then '\x08'
  else if keysym = 0xffff then '\x7f'
  else if keysym < 0x100 then Char.ofNat keysym.toNat
  else Char.ofNat (keysym.toNat - 0x01000000)

/-- The controls that have a key of their own. -/
def controls : List Char := ['\x08', '\t', '\n', '\r', '\x7f']

theorem toNat_lt (c : Char) : c.toNat < 0x110000 := by
  have hvalid : c.toNat < 0xd800 ∨ 0xdfff < c.toNat ∧ c.toNat < 0x110000 := c.valid
  omega

/-- A character that is no such control is a keysym of its own, or a Unicode one. -/
theorem keysymForChar_plain {c : Char} (hc : c ∉ controls) :
    (keysymForChar c).toNat =
      if c.toNat < 0x100 then c.toNat else 0x01000000 + c.toNat := by
  simp only [controls, List.mem_cons, List.not_mem_nil, or_false, not_or] at hc
  obtain ⟨hback, htab, hline, hreturn, hdelete⟩ := hc
  have hval : c.val.toNat = c.toNat := rfl
  have hvalid := toNat_lt c
  rw [keysymForChar, if_neg (by simp [hline, hreturn]), if_neg htab, if_neg hback, if_neg hdelete]
  by_cases hlatin : c.toNat < 0x100
  · have hlatin' : c.val < 0x100 := UInt32.lt_iff_toNat_lt.mpr hlatin
    rw [if_pos hlatin', if_pos hlatin, hval]
  · have hlatin' : ¬ c.val < 0x100 := fun h => hlatin (UInt32.lt_iff_toNat_lt.mp h)
    have hsum : (0x01000000 + c.val).toNat = (0x01000000 + c.toNat) % 2 ^ 32 := rfl
    rw [if_neg hlatin', if_neg hlatin, hsum]
    omega

theorem keysymForChar_newline (c : Char) : keysymForChar (newline c) = keysymForChar c := by
  unfold newline
  split
  · next hreturn =>
      rw [hreturn]
      rfl
  · rfl

/-- A keysym that no key of a control has. -/
theorem charOf_plain {keysym : UInt32} (h : keysym.toNat < 0x100 ∨ 0x10000 ≤ keysym.toNat) :
    charOf keysym =
      Char.ofNat (if keysym.toNat < 0x100 then keysym.toNat else keysym.toNat - 0x01000000) := by
  have hne : ∀ n : UInt32, 0x100 ≤ n.toNat → n.toNat < 0x10000 → keysym ≠ n := by
    rintro n hlow hhigh rfl
    omega
  rw [charOf, if_neg (hne _ (by decide) (by decide)), if_neg (hne _ (by decide) (by decide)),
    if_neg (hne _ (by decide) (by decide)), if_neg (hne _ (by decide) (by decide))]
  by_cases hlatin : keysym.toNat < 0x100
  · rw [if_pos (UInt32.lt_iff_toNat_lt.mpr hlatin), if_pos hlatin]
  · rw [if_neg fun hlt => hlatin (UInt32.lt_iff_toNat_lt.mp hlt), if_neg hlatin]

theorem charOf_keysymForChar (c : Char) : charOf (keysymForChar c) = newline c := by
  by_cases hc : c ∈ controls
  · simp only [controls, List.mem_cons, List.not_mem_nil, or_false] at hc
    rcases hc with rfl | rfl | rfl | rfl | rfl <;> decide
  · have hkeysym := keysymForChar_plain hc
    have hreturn : newline c = c := if_neg fun h => hc (by rw [h]; decide)
    rw [hreturn]
    by_cases hlatin : c.toNat < 0x100
    · rw [if_pos hlatin] at hkeysym
      rw [charOf_plain (.inl (hkeysym ▸ hlatin)), hkeysym, if_pos hlatin, Char.ofNat_toNat]
    · rw [if_neg hlatin] at hkeysym
      have hunicode : ¬ 0x01000000 + c.toNat < 0x100 := by omega
      rw [charOf_plain (.inr (by omega)), hkeysym, if_neg hunicode, Nat.add_sub_cancel_left,
        Char.ofNat_toNat]

/-- Two characters have one keysym only if they are one, or both end a line. -/
theorem keysymForChar_eq_iff {c d : Char} :
    keysymForChar c = keysymForChar d ↔ newline c = newline d := by
  constructor
  · intro h
    rw [← charOf_keysymForChar c, h, charOf_keysymForChar]
  · intro h
    rw [← keysymForChar_newline c, h, keysymForChar_newline]

/-! ## Key names of one character -/

/-- Command, option, shift and control. -/
def macGlyphs : List Char := ['\u2318', '\u2325', '\u21e7', '\u2303']

theorem canonicalKeysym_singleton (c : Char) : canonicalKeysym (String.singleton c) = none := by
  have hlength : ∀ e ∈ canonical, e.1.toList.length ≠ 1 := by decide
  rw [canonicalKeysym, Option.map_eq_none_iff, List.find?_eq_none]
  intro e he
  rw [decide_eq_true_eq]
  intro heq
  exact hlength e he (by rw [heq, String.toList_singleton]; rfl)

/-- Only letters of ASCII have another lower case. -/
theorem toLower_cases (c : Char) : c.toLower = c ∨ c.toLower.toNat < 128 := by
  unfold Char.toLower
  split
  · next h =>
      have hle : c.val.toNat ≤ 90 := UInt32.le_iff_toNat_le.mp h.2
      have hsum : (c.val + ('a'.val - 'A'.val)).toNat = (c.val.toNat + 32) % 2 ^ 32 := rfl
      refine .inr ?_
      show (c.val + ('a'.val - 'A'.val)).toNat < 128
      omega
  · exact .inl rfl

/-- Of one character there are no aliases but the glyphs. -/
theorem alias_singleton {c : Char} (hc : c ∉ macGlyphs) :
    aliases.find? (fun e => e.1 = lowercase (String.singleton c)) = none := by
  have hglyph : ∀ e ∈ aliases, e.1.toList.length = 1 → e.1.toList.head? ∈ macGlyphs.map some := by
    decide
  rw [List.find?_eq_none]
  intro e he
  rw [decide_eq_true_eq]
  intro heq
  have hlist : e.1.toList = [c.toLower] := by
    rw [heq, lowercase, String.toList_singleton, String.toList_ofList]
    rfl
  have hmem := hglyph e he (by rw [hlist]; rfl)
  rw [hlist, List.head?_cons, List.mem_map] at hmem
  obtain ⟨glyph, hglyph', heq'⟩ := hmem
  have hlower := Option.some.inj heq'
  subst hlower
  rcases toLower_cases c with hsame | hascii
  · exact hc (hsame ▸ hglyph')
  · have hhigh : ∀ glyph ∈ macGlyphs, 128 ≤ glyph.toNat := List.all_iff_forall_prop.mp (by decide)
    exact absurd (hhigh _ hglyph') (by omega)

theorem keysymFor_singleton_iff (c : Char) :
    keysymFor (String.singleton c) = some (keysymForChar c) ↔ c ∉ macGlyphs := by
  constructor
  · intro h hc
    simp only [macGlyphs, List.mem_cons, List.not_mem_nil, or_false] at hc
    revert h
    rcases hc with rfl | rfl | rfl | rfl <;> decide
  · intro hc
    have hne : String.singleton c ≠ "" := by
      intro h
      have hlength := congrArg (fun s => s.toList.length) h
      simp at hlength
    rw [keysymFor, if_neg hne, canonicalKeysym_singleton]
    simp only [alias_singleton hc, Option.bind_none, keysymForRest, String.toList_singleton]

/-! ## Keys that print nothing -/

/-- The names of characters. -/
def printing : List String := ["space", "plus", "minus"]

/-- The keysym of a key of the table that prints nothing. -/
def Unprinting (keysym : UInt32) : Prop := ∃ name, (name, keysym) ∈ canonical ∧ name ∉ printing

theorem unprinting_bounds {keysym : UInt32} (h : Unprinting keysym) :
    0xff08 ≤ keysym.toNat ∧ keysym.toNat ≤ 0xffff := by
  have hbounds : ∀ e ∈ canonical, e.1 ∉ printing → 0xff08 ≤ e.2.toNat ∧ e.2.toNat ≤ 0xffff := by
    decide
  obtain ⟨name, hmem, hname⟩ := h
  exact hbounds _ hmem hname

/-- Only the controls have one of these keysyms. -/
theorem unprinting_keysymForChar_iff (c : Char) :
    Unprinting (keysymForChar c) ↔ c ∈ controls := by
  constructor
  · intro h
    by_contra hc
    have hbounds := unprinting_bounds h
    rw [keysymForChar_plain hc] at hbounds
    split at hbounds <;> omega
  · intro hc
    simp only [controls, List.mem_cons, List.not_mem_nil, or_false] at hc
    rcases hc with rfl | rfl | rfl | rfl | rfl
    · exact ⟨"BackSpace", by decide, by decide⟩
    · exact ⟨"Tab", by decide, by decide⟩
    · exact ⟨"Return", by decide, by decide⟩
    · exact ⟨"Return", by decide, by decide⟩
    · exact ⟨"Delete", by decide, by decide⟩

end Bolide.Rfb
