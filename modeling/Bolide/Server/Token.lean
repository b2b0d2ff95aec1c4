/-
Bolide.Server.Token — the gate before every route (`bearer`,
`token_matches` and `require_token` of `bolide-server/src/http.rs`).

A request is let through when its first `Authorization` header is the scheme
`bearer`, a space, any more blanks and the configured token.

Translation notes. A header value is a list of bytes. `Http` is what the
`http` crate makes of one and what becomes of it on the way; `Http.Lawful`
says what is documented of both. Of a request, its `Authorization` headers
are kept, in order; the route that is reached is left out.
-/
import Bolide.Lib.Utf8
import Bolide.Server.FreshFrame

namespace Bolide.Server

open Lib

/-! ## Header values -/

/-- The header values of the `http` crate, and HTTP itself. -/
structure Http where
  -- `HeaderValue::try_from`: whether these bytes are a value
  accepts : List UInt8 → Bool
  -- `HeaderValue::to_str`
  toStr : List UInt8 → Option Text
  -- what arrives of a value that is sent
  carried : List UInt8 → List UInt8

/-- Visible ASCII, a space or a tab. -/
def visible (byte : UInt8) : Bool := byte = 9 || (32 ≤ byte && byte ≤ 126)

/-- A space or a tab. -/
def blank (byte : UInt8) : Bool := byte = 9 || byte = 32

/-- Without the blanks at both ends. -/
def trimmed (bytes : List UInt8) : List UInt8 :=
  ((bytes.dropWhile blank).reverse.dropWhile blank).reverse

/-- Visible bytes are a value and a string, other bytes are no string, and
HTTP takes the blanks at the ends away. -/
structure Http.Lawful (http : Http) : Prop where
  accepts : ∀ bytes, bytes.all visible = true → http.accepts bytes = true
  toStr : ∀ bytes s, http.toStr bytes = some s ↔
    bytes = Text.utf8Bytes s ∧ bytes.all visible = true
  carried : ∀ bytes, http.carried bytes = trimmed bytes

/-! ## The gate -/

/-- `bearer`: the token out of a header. -/
def bearer (value : Text) : Option Text := do
  let (scheme, token) ← Text.splitOnce [' '] value
  if scheme.map Char.toLower = "bearer".toList then some (token.dropWhile Text.isWhitespace)
  else none

/-- `token_matches`: the whole of both, without an early exit. -/
def tokenMatches (presented expected : Text) : Bool :=
  let presented := Text.utf8Bytes presented
  let expected := Text.utf8Bytes expected
  if presented.length ≠ expected.length then false
  else (presented.zip expected).foldl (fun acc ab => acc ||| (ab.1 ^^^ ab.2)) 0 = 0

def unauthorized : ApiError := ⟨.unauthorized, "this bolide requires `Authorization: Bearer <token>`"⟩

/-- `require_token`, on the `Authorization` headers of a request. -/
def requireToken (http : Http) (expected : Option Text) (headers : List (List UInt8)) :
    Except ApiError Unit :=
  match expected with
  | none => .ok ()
  | some expected =>
      match (headers.head?.bind http.toStr).bind bearer with
      | some token => if tokenMatches token expected = true then .ok () else .error unauthorized
      | none => .error unauthorized

/-! ## Comparing -/

/-- The differences add up to nothing when there are none. -/
theorem foldl_or_eq_zero {pairs : List (UInt8 × UInt8)} {acc : UInt8} :
    pairs.foldl (fun acc ab => acc ||| (ab.1 ^^^ ab.2)) acc = 0 ↔
      acc = 0 ∧ ∀ ab ∈ pairs, ab.1 = ab.2 := by
  induction pairs generalizing acc with
  | nil => simp
  | cons ab pairs ih => rw [List.foldl_cons, ih]; simp [and_assoc]

theorem zip_agree {presented expected : List UInt8} (hlen : presented.length = expected.length) :
    (∀ ab ∈ presented.zip expected, ab.1 = ab.2) ↔ presented = expected := by
  induction presented generalizing expected with
  | nil => simp [List.length_eq_zero_iff.mp hlen.symm]
  | cons a presented ih =>
      cases expected with
      | nil => cases hlen
      | cons b expected =>
          rw [List.zip_cons_cons, List.forall_mem_cons, ih (Nat.succ.inj hlen), List.cons.injEq]

/-- The comparison is equality. -/
theorem tokenMatches_iff {presented expected : Text} :
    tokenMatches presented expected = true ↔ presented = expected := by
  rw [← Text.utf8Bytes_inj, tokenMatches]
  split
  · next hlen =>
      constructor
      · intro h
        cases h
      · exact fun h => absurd (congrArg List.length h) hlen
  · next hlen =>
      rw [decide_eq_true_eq, foldl_or_eq_zero, zip_agree (not_not.mp hlen)]
      simp

/-! ## What is let through -/

/-- `bearer` in any case. -/
def IsBearer (scheme : Text) : Prop := scheme.map Char.toLower = "bearer".toList

theorem space_not_mem {scheme : Text} (h : IsBearer scheme) : ' ' ∉ scheme := by
  intro hmem
  have hmap : Char.toLower ' ' ∈ scheme.map Char.toLower := List.mem_map_of_mem hmem
  rw [h] at hmap
  exact absurd hmap (by decide)

/-- A header with a token in it, and what is before the token. -/
theorem bearer_eq_some {value token : Text} :
    bearer value = some token ↔ ∃ scheme blanks, value = scheme ++ ' ' :: (blanks ++ token) ∧
      IsBearer scheme ∧ (∀ c ∈ blanks, Text.isWhitespace c = true) ∧
      ∀ c ∈ token.head?, Text.isWhitespace c = false := by
  constructor
  · intro h
    obtain ⟨⟨scheme, rest⟩, hsplit, h⟩ := Option.bind_eq_some_iff.mp h
    obtain ⟨hscheme, heq⟩ := Option.ite_none_right_eq_some.mp h
    obtain ⟨rfl, -⟩ := Text.splitOnce_eq_some hsplit
    have htoken := Option.some.inj heq
    refine ⟨scheme, rest.takeWhile Text.isWhitespace, ?_, hscheme, ?_, ?_⟩
    · rw [← htoken, List.takeWhile_append_dropWhile]
    · exact fun c hc => List.mem_takeWhile_imp hc
    · rw [← htoken]
      exact fun c hc => Text.head?_dropWhile hc
  · rintro ⟨scheme, blanks, rfl, hscheme, hblanks, htoken⟩
    have hnot := space_not_mem hscheme
    unfold IsBearer at hscheme
    rw [bearer, Text.splitOnce_append hnot]
    simp only [Option.bind_eq_bind, Option.bind_some]
    rw [if_pos hscheme, List.dropWhile_append_of_pos hblanks, Text.dropWhile_eq_self htoken]

/-- What the gate lets through: the first header is a string, and its token
is the configured one. -/
theorem requireToken_ok {http : Http} {expected : Text} {headers : List (List UInt8)} :
    requireToken http (some expected) headers = .ok () ↔
      ∃ value ∈ headers.head?, ∃ s, http.toStr value = some s ∧ bearer s = some expected := by
  rw [requireToken]
  constructor
  · intro h
    cases hpresented : (headers.head?.bind http.toStr).bind bearer with
    | none =>
        rw [hpresented] at h
        cases h
    | some token =>
        rw [hpresented] at h
        obtain ⟨s, hs, hbearer⟩ := Option.bind_eq_some_iff.mp hpresented
        obtain ⟨value, hvalue, hs⟩ := Option.bind_eq_some_iff.mp hs
        simp only at h
        split at h
        · next hmatches =>
            rw [tokenMatches_iff.mp hmatches] at hbearer
            exact ⟨value, hvalue, s, hs, hbearer⟩
        · cases h
  · rintro ⟨value, hvalue, s, hs, hbearer⟩
    rw [Option.mem_def.mp hvalue, Option.bind_some, hs, Option.bind_some, hbearer]
    exact if_pos (tokenMatches_iff.mpr rfl)

/-- Whoever is not let through is told so. -/
theorem requireToken_refuses {http : Http} {expected : Text} {headers : List (List UInt8)}
    (h : requireToken http (some expected) headers ≠ .ok ()) :
    requireToken http (some expected) headers = .error unauthorized := by
  rw [requireToken] at h ⊢
  cases hpresented : (headers.head?.bind http.toStr).bind bearer with
  | none => rfl
  | some token =>
      rw [hpresented] at h
      simp only at h ⊢
      split at h
      · exact absurd rfl h
      · next hmatches => rw [if_neg hmatches]

/-! ## Visible strings -/

/-- Visible ASCII, a space or a tab. -/
def VisibleChar (c : Char) : Prop := c = '\t' ∨ 32 ≤ c.toNat ∧ c.toNat ≤ 126

/-- A space or a tab. -/
def BlankChar (c : Char) : Prop := c = ' ' ∨ c = '\t'

instance : DecidablePred BlankChar := fun c => inferInstanceAs (Decidable (c = ' ' ∨ c = '\t'))

theorem visible_iff {byte : UInt8} :
    visible byte = true ↔ byte.toNat = 9 ∨ 32 ≤ byte.toNat ∧ byte.toNat ≤ 126 := by
  rw [visible, Bool.or_eq_true, Bool.and_eq_true, decide_eq_true_eq, decide_eq_true_eq,
    decide_eq_true_eq, ← UInt8.toNat_inj, UInt8.le_iff_toNat_le, UInt8.le_iff_toNat_le]
  rfl

theorem blank_iff {byte : UInt8} : blank byte = true ↔ byte.toNat = 9 ∨ byte.toNat = 32 := by
  rw [blank, Bool.or_eq_true, decide_eq_true_eq, decide_eq_true_eq, ← UInt8.toNat_inj,
    ← UInt8.toNat_inj]
  rfl

theorem visibleChar_iff {c : Char} :
    VisibleChar c ↔ c.toNat = 9 ∨ 32 ≤ c.toNat ∧ c.toNat ≤ 126 := by
  rw [VisibleChar, ← Char.toNat_inj]
  rfl

theorem blankChar_iff {c : Char} : BlankChar c ↔ c.toNat = 9 ∨ c.toNat = 32 := by
  rw [BlankChar, ← Char.toNat_inj, ← Char.toNat_inj, or_comm]
  rfl

/-- The blanks are the visible characters that are white space. -/
theorem isWhitespace_visible {c : Char} (h : VisibleChar c) :
    Text.isWhitespace c = true ↔ BlankChar c := by
  rw [blankChar_iff]
  rw [visibleChar_iff] at h
  have hcontains : [0x20, 0x85, 0xa0, 0x1680, 0x2028, 0x2029, 0x202f, 0x205f, 0x3000].contains
      c.toNat = true ↔ c.toNat = 32 := by
    rw [List.contains_iff_mem]
    simp only [List.mem_cons, List.not_mem_nil, or_false]
    omega
  rw [Text.isWhitespace, Bool.or_eq_true, hcontains]
  simp only [Bool.or_eq_true, Bool.and_eq_true, decide_eq_true_eq]
  omega

/-- The bytes of a character are visible when the character is. -/
theorem all_visible_char {c : Char} :
    (String.utf8EncodeChar c).all visible = true ↔ VisibleChar c := by
  rw [visibleChar_iff]
  constructor
  · intro h
    obtain ⟨byte, hmem⟩ := List.exists_mem_of_ne_nil _ (Text.utf8EncodeChar_ne_nil c)
    have hbyte := visible_iff.mp (List.all_eq_true.mp h byte hmem)
    rw [(Text.mem_utf8EncodeChar (by omega)).mp hmem]
    exact hbyte
  · intro h
    rw [Text.utf8EncodeChar_ascii (by omega), List.all_cons, List.all_nil, Bool.and_true,
      visible_iff, UInt8.toNat_ofNat', Nat.mod_eq_of_lt (by omega)]
    exact h

theorem all_visible {s : Text} :
    (Text.utf8Bytes s).all visible = true ↔ ∀ c ∈ s, VisibleChar c := by
  induction s with
  | nil => simp
  | cons c s ih =>
      rw [Text.utf8Bytes_cons, List.all_append, Bool.and_eq_true, all_visible_char, ih,
        List.forall_mem_cons]

/-- The `http` crate: a value may hold bytes above 127 and tabs, but no other
control character. -/
def Http.crate : Http where
  accepts bytes := bytes.all (fun b => b = 9 || (32 ≤ b && b ≠ 127))
  toStr bytes :=
    if bytes.all visible = true then some (bytes.map (fun b => Char.ofNat b.toNat)) else none
  carried := trimmed

theorem utf8Bytes_map_ofNat {bytes : List UInt8} (h : bytes.all visible = true) :
    Text.utf8Bytes (bytes.map (fun b => Char.ofNat b.toNat)) = bytes := by
  induction bytes with
  | nil => rfl
  | cons b bytes ih =>
      rw [List.all_cons, Bool.and_eq_true] at h
      have hb := visible_iff.mp h.1
      have hchar : (Char.ofNat b.toNat).toNat = b.toNat := by
        rw [Char.toNat_ofNat, if_pos (Or.inl (by omega))]
      rw [List.map_cons, Text.utf8Bytes_cons, ih h.2, Text.utf8EncodeChar_ascii (by omega), hchar,
        UInt8.ofNat_toNat]
      rfl

theorem lawful_crate : Http.crate.Lawful where
  accepts bytes h := by
    refine List.all_eq_true.mpr fun b hb => ?_
    have hvisible := visible_iff.mp (List.all_eq_true.mp h b hb)
    rw [Bool.or_eq_true, Bool.and_eq_true, decide_eq_true_eq, decide_eq_true_eq, decide_eq_true_eq,
      ← UInt8.toNat_inj, UInt8.le_iff_toNat_le, Ne, ← UInt8.toNat_inj]
    have h9 : (9 : UInt8).toNat = 9 := rfl
    have h32 : (32 : UInt8).toNat = 32 := rfl
    have h127 : (127 : UInt8).toNat = 127 := rfl
    omega
  toStr bytes s := by
    simp only [Http.crate, Option.ite_none_right_eq_some, Option.some.injEq]
    constructor
    · rintro ⟨hall, rfl⟩
      exact ⟨(utf8Bytes_map_ofNat hall).symm, hall⟩
    · rintro ⟨hbytes, hall⟩
      refine ⟨hall, Text.utf8Bytes_inj.mp ?_⟩
      rw [utf8Bytes_map_ofNat hall, hbytes]
  carried _ := rfl

/-! ## The two directions -/

/-- A header with the token: the scheme in any case, a space, any further
blanks, and the token. -/
def Bears (token : Text) (value : List UInt8) : Prop :=
  ∃ scheme blanks, value = Text.utf8Bytes (scheme ++ ' ' :: (blanks ++ token)) ∧
    IsBearer scheme ∧ ∀ c ∈ blanks, BlankChar c

/-- What is let through bears the token, is visible, and has a token that
begins with no blank. -/
theorem admitted_bears {http : Http} (hhttp : http.Lawful) {token : Text}
    {headers : List (List UInt8)} (h : requireToken http (some token) headers = .ok ()) :
    ∃ value ∈ headers.head?, Bears token value ∧ (∀ c ∈ token, VisibleChar c) ∧
      ∀ c ∈ token.head?, ¬ BlankChar c := by
  obtain ⟨value, hvalue, s, hs, hbearer⟩ := requireToken_ok.mp h
  obtain ⟨rfl, hvisible⟩ := (hhttp.toStr value s).mp hs
  obtain ⟨scheme, blanks, rfl, hscheme, hblanks, htoken⟩ := bearer_eq_some.mp hbearer
  have hall := all_visible.mp hvisible
  have hafter : ∀ c ∈ blanks ++ token, VisibleChar c :=
    fun c hc => hall c (List.mem_append_right _ (List.mem_cons_of_mem _ hc))
  refine ⟨_, hvalue, ⟨scheme, blanks, rfl, hscheme, fun c hc => ?_⟩,
    fun c hc => hafter c (List.mem_append_right _ hc), fun c hc hblank => ?_⟩
  · exact (isWhitespace_visible (hafter c (List.mem_append_left _ hc))).mp (hblanks c hc)
  · have hmem := List.mem_of_mem_head? hc
    have hwhite := (isWhitespace_visible (hafter c (List.mem_append_right _ hmem))).mpr hblank
    rw [htoken c hc] at hwhite
    cases hwhite

end Bolide.Server
