/-
Bolide.Rfb.Ard — Apple Remote Desktop authentication, security type 30
(`bolide-rfb/src/ard.rs`): the client's side of the transform, and the
functions that undo it for a server.

The three primitives come from other crates. MD5 and the AES-128 block
cipher are parameters with the lengths of what they return; `BigUint::modpow`
is the modular power, and panics on a zero modulus.

Translation notes. A Rust string is its UTF-8 bytes where the source takes
`.len()` or `.as_bytes()`. `client_response` can return an `ArdError` or
panic, so its outcome is an `Except ArdError` inside an `Outcome`.
-/
import Bolide.Rfb.Proto
import Bolide.Lib.Utf8

namespace Bolide.Rfb

open Lib

/-- The MD5 digest. -/
structure Md5 where
  digest : List UInt8 → List UInt8
  length_digest : ∀ data, (digest data).length = 16

/-- The AES-128 block cipher: a block keeps its length. -/
structure Aes where
  encryptBlock : List UInt8 → List UInt8 → List UInt8
  length_encryptBlock : ∀ key block, (encryptBlock key block).length = block.length

/-- The cipher in both directions: decryption inverts encryption. -/
structure Aes128 extends Aes where
  decryptBlock : List UInt8 → List UInt8 → List UInt8
  decryptBlock_encryptBlock : ∀ key block, key.length = 16 → block.length = 16 →
    decryptBlock key (encryptBlock key block) = block

namespace Ard

def credentialLen : Nat := 128
def passwordOffset : Nat := 64
def fieldMax : Nat := passwordOffset - 1
def minKeyLen : Nat := 64
def maxKeyLen : Nat := 1024

/-- What went wrong building a response. -/
inductive ArdError where
  | fieldTooLong
  | badKeyLength
  deriving DecidableEq, Repr

/-- The derived `Debug` of `ArdError`. -/
def ArdError.debug : ArdError → String
  | .fieldTooLong => "FieldTooLong"
  | .badKeyLength => "BadKeyLength"

/-! ## Diffie-Hellman -/

/-- `BigUint::to_bytes_be`: no leading zeros, and one byte for zero. -/
def toBytesBe (n : Nat) : List UInt8 := beBytes (n.log2 / 8 + 1) n

/-- Left-pad a big-endian byte string to `width`. -/
def padBe (bytes : List UInt8) (width : Nat) : List UInt8 :=
  if width ≤ bytes.length then bytes
  else List.replicate (width - bytes.length) 0 ++ bytes

/-- `BigUint::modpow`. -/
def modpow (base exponent modulus : Nat) : Outcome Nat :=
  if modulus = 0 then .error .panic else .ok (base ^ exponent % modulus)

/-- `generator ^ private mod prime`, padded to the prime's width. -/
def dhPublic (generator : UInt32) (prime private' : List UInt8) : Outcome (List UInt8) := do
  let v ← modpow generator.toNat (beNat private') (beNat prime)
  return padBe (toBytesBe v) prime.length

/-- `peer_public ^ private mod prime`, padded to the prime's width. -/
def dhShared (peerPublic prime private' : List UInt8) : Outcome (List UInt8) := do
  let v ← modpow (beNat peerPublic) (beNat private') (beNat prime)
  return padBe (toBytesBe v) prime.length

/-- The AES-128 key for the credential block. -/
def aesKey (md5 : Md5) (shared : List UInt8) : List UInt8 := md5.digest shared

/-! ## The credential block -/

/-- The user name at 0 and the password at 64, each with a NUL after it,
and the filler everywhere else. -/
def packCredentials (username password : String) (filler : List UInt8) :
    Except ArdError (List UInt8) :=
  let user := username.toUTF8.toList
  let pass := password.toUTF8.toList
  if user.length > fieldMax ∨ pass.length > fieldMax then .error .fieldTooLong
  else .ok (user ++ 0 :: (filler.take passwordOffset).drop (user.length + 1) ++
    (pass ++ 0 :: (filler.drop passwordOffset).drop (pass.length + 1)))

/-- `data.chunks_exact_mut(16)`, each block encrypted: a shorter last one is
left as it is. -/
def aesEcbEncrypt (aes : Aes) (key data : List UInt8) : List UInt8 :=
  if 16 ≤ data.length then
    aes.encryptBlock key (data.take 16) ++ aesEcbEncrypt aes key (data.drop 16)
  else data
termination_by data.length
decreasing_by rw [List.length_drop]; omega

/-- What is before the first NUL, or the whole field. -/
def readField (bytes : List UInt8) : String :=
  String.ofList (Text.fromUtf8Lossy (bytes.takeWhile (fun b => b ≠ 0)))

/-- The user name and the password of a decrypted block. -/
def unpackCredentials (block : List UInt8) : String × String :=
  (readField (block.take passwordOffset), readField (block.drop passwordOffset))

/-- `aes_ecb_decrypt`, as `aesEcbEncrypt` goes through the blocks. -/
def aesEcbDecrypt (aes : Aes128) (key data : List UInt8) : List UInt8 :=
  if 16 ≤ data.length then
    aes.decryptBlock key (data.take 16) ++ aesEcbDecrypt aes key (data.drop 16)
  else data
termination_by data.length
decreasing_by rw [List.length_drop]; omega

/-- The complete client response: the encrypted credential block, then the
client's public key. -/
def clientResponse (md5 : Md5) (aes : Aes) (generator : UInt32)
    (prime serverPublic : List UInt8) (username password : String)
    (private' filler : List UInt8) : Outcome (Except ArdError (List UInt8)) :=
  let len := prime.length
  if ¬ (minKeyLen ≤ len ∧ len ≤ maxKeyLen) ∨ serverPublic.length ≠ len then
    .ok (.error .badKeyLength)
  else do
    let shared ← dhShared serverPublic prime private'
    let key := aesKey md5 shared
    match packCredentials username password filler with
    | .error e => return .error e
    | .ok block =>
        let out := aesEcbEncrypt aes key block
        let publicKey ← dhPublic generator prime private'
        return .ok (out ++ publicKey)

/-! ## What a response looks like -/

theorem length_aesEcbEncrypt (aes : Aes) (key data : List UInt8) :
    (aesEcbEncrypt aes key data).length = data.length := by
  fun_induction aesEcbEncrypt aes key data with
  | case1 data h ih =>
      rw [List.length_append, aes.length_encryptBlock, ih, List.length_take, List.length_drop]
      omega
  | case2 data h => rfl

/-- A packed block is as long as its filler. -/
theorem length_packCredentials {username password : String} {filler block : List UInt8}
    (hfiller : filler.length = credentialLen)
    (h : packCredentials username password filler = .ok block) :
    block.length = credentialLen := by
  simp only [packCredentials] at h
  split at h
  · cases h
  · next hfit =>
      cases h
      simp only [credentialLen, fieldMax, passwordOffset] at *
      simp only [List.length_append, List.length_cons, List.length_drop, List.length_take]
      omega

/-- A number below `256 ^ k` is written in `k` bytes or fewer. -/
theorem length_toBytesBe_le {n k : Nat} (hk : 0 < k) (hn : n < 256 ^ k) :
    (toBytesBe n).length ≤ k := by
  rw [toBytesBe, length_beBytes]
  rcases Nat.eq_zero_or_pos n with rfl | hpos
  · rw [Nat.log2_zero]
    omega
  · have hlog : n.log2 < 8 * k := by
      rw [Nat.log2_lt (by omega), Nat.pow_mul]
      exact hn
    omega

/-- A Diffie-Hellman value is exactly as wide as the prime. -/
theorem length_padBe_modpow {base exponent : Nat} {prime : List UInt8} {v : Nat}
    (h : modpow base exponent (beNat prime) = .ok v) :
    (padBe (toBytesBe v) prime.length).length = prime.length := by
  rw [modpow] at h
  split at h
  · cases h
  · next hp =>
      cases h
      have hlt := beNat_lt prime
      have hmod : base ^ exponent % beNat prime < beNat prime := Nat.mod_lt _ (by omega)
      have hpos : 0 < prime.length := by
        rcases Nat.eq_zero_or_pos prime.length with h0 | h0
        · rw [h0] at hlt
          omega
        · exact h0
      have hle := length_toBytesBe_le hpos (lt_trans hmod hlt)
      rw [padBe]
      split
      · omega
      · rw [List.length_append, List.length_replicate]
        omega

theorem length_dhPublic {generator : UInt32} {prime private' out : List UInt8}
    (h : dhPublic generator prime private' = .ok out) : out.length = prime.length := by
  rw [dhPublic] at h
  cases hv : modpow generator.toNat (beNat private') (beNat prime) with
  | error e => rw [hv] at h; cases h
  | ok v => rw [hv] at h; cases h; exact length_padBe_modpow hv

/-- How a response comes about. -/
theorem clientResponse_ok {md5 : Md5} {aes : Aes} {generator : UInt32}
    {prime serverPublic : List UInt8} {username password : String}
    {private' filler out : List UInt8}
    (h : clientResponse md5 aes generator prime serverPublic username password private' filler
      = .ok (.ok out)) :
    ∃ shared block publicKey, dhShared serverPublic prime private' = .ok shared ∧
      packCredentials username password filler = .ok block ∧
      dhPublic generator prime private' = .ok publicKey ∧
      out = aesEcbEncrypt aes (aesKey md5 shared) block ++ publicKey := by
  simp only [clientResponse] at h
  split at h
  · cases h
  · cases hs : dhShared serverPublic prime private' with
    | error e => rw [hs] at h; cases h
    | ok shared =>
        rw [hs, ok_bind] at h
        cases hb : packCredentials username password filler with
        | error e => rw [hb] at h; cases h
        | ok block =>
            rw [hb] at h
            cases hp : dhPublic generator prime private' with
            | error e => rw [hp] at h; cases h
            | ok publicKey =>
                rw [hp] at h
                cases h
                exact ⟨shared, block, publicKey, rfl, rfl, rfl, rfl⟩

/-- A response is the 128-byte block and the public key. -/
theorem length_clientResponse {md5 : Md5} {aes : Aes} {generator : UInt32}
    {prime serverPublic : List UInt8} {username password : String}
    {private' filler out : List UInt8} (hfiller : filler.length = credentialLen)
    (h : clientResponse md5 aes generator prime serverPublic username password private' filler
      = .ok (.ok out)) :
    out.length = credentialLen + prime.length := by
  obtain ⟨shared, block, publicKey, -, hb, hp, rfl⟩ := clientResponse_ok h
  rw [List.length_append, length_aesEcbEncrypt, length_packCredentials hfiller hb,
    length_dhPublic hp]

end Ard

end Bolide.Rfb
