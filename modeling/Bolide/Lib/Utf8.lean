/-
Bolide.Lib.Utf8 — UTF-8 as lists of bytes.

`utf8Bytes` is the writing of a text. Two readers go the other way:
`ByteArray.utf8Decode?` of the standard library is strict and reads nothing
else, and `fromUtf8Lossy` reads every byte string, with one U+FFFD for each
longest start of a character that is not finished and for each byte that
starts none. Both are inverse to `utf8Bytes`. A byte below 128 is a
character of its own wherever it stands, which is what a format that ends
its strings with a NUL, or sets them apart with a colon, relies on.
-/
import Bolide.Lib.Text

namespace Lib

namespace Text

/-- The UTF-8 of a text. -/
def utf8Bytes (s : Text) : List UInt8 := s.flatMap String.utf8EncodeChar

@[simp] theorem utf8Bytes_nil : utf8Bytes [] = [] := rfl

@[simp] theorem utf8Bytes_cons (c : Char) (s : Text) :
    utf8Bytes (c :: s) = String.utf8EncodeChar c ++ utf8Bytes s := rfl

@[simp] theorem utf8Bytes_append (s t : Text) :
    utf8Bytes (s ++ t) = utf8Bytes s ++ utf8Bytes t := List.flatMap_append

theorem toByteArray_utf8Bytes (s : Text) : (utf8Bytes s).toByteArray = s.utf8Encode := rfl

/-- Reading an array of bytes out, from byte `i` on. -/
theorem toList_loop (bytes : ByteArray) (i : Nat) (read : List UInt8) :
    ByteArray.toList.loop bytes i read = read.reverse ++ bytes.data.toList.drop i := by
  fun_induction ByteArray.toList.loop bytes i read with
  | case1 i read h ih =>
      have hget : bytes.data.toList.drop i = bytes.get! i :: bytes.data.toList.drop (i + 1) := by
        rw [List.drop_eq_getElem_cons h]
        congr 1
        exact (getElem!_pos bytes.data i h).symm
      rw [ih, hget, List.reverse_cons, List.append_assoc, List.singleton_append]
  | case2 i read h =>
      have hdrop : bytes.data.toList.drop i = [] := List.drop_eq_nil_of_le (Nat.le_of_not_lt h)
      rw [hdrop, List.append_nil]

theorem toList_toByteArray (bytes : List UInt8) : bytes.toByteArray.toList = bytes := by
  rw [ByteArray.toList, toList_loop, List.data_toByteArray]
  rfl

/-- The bytes of a string are those of its characters. -/
theorem toUTF8_toList (s : String) : s.toUTF8.toList = utf8Bytes s.toList := by
  conv_lhs => rw [← String.ofList_toList (s := s)]
  exact toList_toByteArray _

theorem length_toUTF8_toList (s : String) : s.toUTF8.toList.length = s.utf8ByteSize := by
  rw [ByteArray.toList, toList_loop]
  rfl

theorem utf8EncodeChar_ne_nil (c : Char) : String.utf8EncodeChar c ≠ [] := by
  intro h
  have hlength := String.length_utf8EncodeChar c
  have hpos := c.utf8Size_pos
  rw [h, List.length_nil] at hlength
  omega

/-! ## Strict decoding -/

theorem mk_toArray (bytes : List UInt8) : ByteArray.mk bytes.toArray = bytes.toByteArray :=
  ByteArray.ext List.data_toByteArray.symm

/-- A byte string is decoded exactly when it is the writing of a text. -/
theorem utf8Decode?_eq_some {bytes : List UInt8} {s : Text} :
    (ByteArray.mk bytes.toArray).utf8Decode?.map Array.toList = some s ↔ bytes = utf8Bytes s := by
  rw [mk_toArray]
  constructor
  · intro h
    obtain ⟨chars, hchars, rfl⟩ := Option.map_eq_some_iff.mp h
    have hsome : bytes.toByteArray.utf8Decode?.isSome := by rw [hchars]; rfl
    have hencode := ByteArray.utf8Encode_get_utf8Decode? (h := hsome)
    simp only [hchars, Option.get_some] at hencode
    exact (List.toByteArray_inj.mp hencode).symm
  · rintro rfl
    rw [toByteArray_utf8Bytes, List.utf8Decode?_utf8Encode]
    rfl

theorem utf8Bytes_inj {s t : Text} : utf8Bytes s = utf8Bytes t ↔ s = t := by
  constructor
  · intro h
    have hs := utf8Decode?_eq_some.mpr (rfl : utf8Bytes s = utf8Bytes s)
    rw [utf8Decode?_eq_some.mpr h] at hs
    exact (Option.some.inj hs).symm
  · exact congrArg utf8Bytes

/-! ## Lossy decoding -/

/-- The byte goes on with a character. -/
def continues (byte : UInt8) : Bool := 0x80 ≤ byte && byte ≤ 0xbf

/-- The byte can be the second of a character of three or four bytes. -/
def secondOf (first second : UInt8) : Bool :=
  if first = 0xe0 then 0xa0 ≤ second && second ≤ 0xbf
  else if first = 0xed then 0x80 ≤ second && second ≤ 0x9f
  else if first = 0xf0 then 0x90 ≤ second && second ≤ 0xbf
  else if first = 0xf4 then 0x80 ≤ second && second ≤ 0x8f
  else continues second

/-- How many bytes one U+FFFD stands for, where no character can be read. -/
def brokenLength : List UInt8 → Nat
  | first :: second :: rest =>
      if 0xe0 ≤ first ∧ first ≤ 0xf4 ∧ secondOf first second = true then
        if 0xf0 ≤ first ∧ (rest.head?.any continues) = true then 3 else 2
      else 1
  | _ => 1

/-- `String::from_utf8_lossy`. -/
def fromUtf8Lossy : List UInt8 → Text
  | [] => []
  | byte :: bytes =>
      match (byte :: bytes).toByteArray.utf8DecodeChar? 0 with
      | some c => c :: fromUtf8Lossy (bytes.drop (c.utf8Size - 1))
      | none => '\ufffd' :: fromUtf8Lossy (bytes.drop (brokenLength (byte :: bytes) - 1))
termination_by bytes => bytes.length
decreasing_by all_goals simp only [List.length_drop, List.length_cons]; omega

/-- What is a text is read as it is. -/
theorem fromUtf8Lossy_utf8Bytes (s : Text) : fromUtf8Lossy (utf8Bytes s) = s := by
  induction s with
  | nil => simp [fromUtf8Lossy]
  | cons c s ih =>
      have hdecode : (utf8Bytes (c :: s)).toByteArray.utf8DecodeChar? 0 = some c :=
        List.utf8DecodeChar?_utf8Encode_cons
      have hlength : (String.utf8EncodeChar c).length = c.utf8Size := String.length_utf8EncodeChar c
      rw [utf8Bytes_cons] at hdecode ⊢
      cases hbytes : String.utf8EncodeChar c with
      | nil => exact absurd hbytes (utf8EncodeChar_ne_nil c)
      | cons byte bytes =>
          rw [hbytes, List.length_cons] at hlength
          rw [hbytes, List.cons_append] at hdecode
          have hdrop : (bytes ++ utf8Bytes s).drop (c.utf8Size - 1) = utf8Bytes s := by
            rw [← hlength, Nat.add_sub_cancel, List.drop_left]
          rw [List.cons_append, fromUtf8Lossy, hdecode]
          simp only [hdrop, ih]

/-! ## Bytes below 128 -/

/-- A byte below 128 in a character is the character. -/
theorem mem_utf8EncodeChar {c : Char} {byte : UInt8} (hbyte : byte.toNat < 128) :
    byte ∈ String.utf8EncodeChar c ↔ c.toNat = byte.toNat := by
  have hval : c.toNat = c.val.toNat := rfl
  rw [String.utf8EncodeChar, hval]
  split_ifs <;> simp only [List.mem_cons, List.not_mem_nil, or_false, ← UInt8.toNat_inj,
    UInt8.toNat_ofNat'] <;> omega

theorem utf8EncodeChar_ascii {c : Char} (h : c.toNat < 128) :
    String.utf8EncodeChar c = [UInt8.ofNat c.toNat] := by
  have hsize : c.utf8Size = 1 := by
    rw [Char.utf8Size_eq_one_iff, UInt32.le_iff_toNat_le]
    exact Nat.le_of_lt_succ h
  rw [String.utf8EncodeChar_eq_singleton hsize]
  rfl

/-- A character with a byte below 128 is that byte. -/
theorem ascii_of_mem {c : Char} {byte : UInt8} (hmem : byte ∈ String.utf8EncodeChar c)
    (hbyte : byte.toNat < 128) : String.utf8EncodeChar c = [byte] := by
  have hc := (mem_utf8EncodeChar hbyte).mp hmem
  rw [utf8EncodeChar_ascii (hc ▸ hbyte), hc, UInt8.ofNat_toNat]

/-- What comes before the first such byte is what comes before the first
such character. -/
theorem takeWhile_utf8Bytes (c : Char) (byte : UInt8) (hc : c.toNat = byte.toNat)
    (hbyte : byte.toNat < 128) (s : Text) (rest : List UInt8) :
    (utf8Bytes s ++ byte :: rest).takeWhile (fun b => b ≠ byte) =
      utf8Bytes (s.takeWhile (fun c' => c' ≠ c)) := by
  induction s with
  | nil => simp
  | cons c' s ih =>
      by_cases hc' : c' = c
      · subst hc'
        rw [utf8Bytes_cons, ascii_of_mem ((mem_utf8EncodeChar hbyte).mpr hc) hbyte]
        simp
      · have hnot : ∀ b ∈ String.utf8EncodeChar c', decide (b ≠ byte) = true := by
          intro b hb
          rw [decide_eq_true_eq]
          rintro rfl
          exact hc' (Char.toNat_inj.mp (((mem_utf8EncodeChar hbyte).mp hb).trans hc.symm))
        rw [utf8Bytes_cons, List.append_assoc, List.takeWhile_append_of_pos hnot, ih]
        simp [hc']

end Text

end Lib
