/-
Bolide.Testkit.Ard — the server's end of an Apple login (the `Security::Ard`
arm of `bolide-testkit/src/server.rs`).

The server takes the first 128 bytes of a response for the credential block
and the rest, as wide as its prime, for the client's public key. With its
own private exponent it comes to the secret the client came to, so to the
key the block is encrypted under, and reads the login.
-/
import Bolide.Rfb.ArdTheorems

namespace Bolide.Testkit

open Lib Bolide.Rfb Bolide.Rfb.Ard

/-- The key the server derives from a response. -/
def ardKey (md5 : Md5) (prime serverPrivate response : List UInt8) : Outcome (List UInt8) := do
  let clientPublic := (response.drop credentialLen).take prime.length
  let shared ← dhShared clientPublic prime serverPrivate
  return aesKey md5 shared

/-- The user name and the password the server reads in a response. -/
def ardLogin (md5 : Md5) (aes : Aes128) (prime serverPrivate response : List UInt8) :
    Outcome (String × String) := do
  let key ← ardKey md5 prime serverPrivate response
  return unpackCredentials (aesEcbDecrypt aes key (response.take credentialLen))

/-! ## The two ends agree -/

section Exchange

variable {md5 : Md5} {aes : Aes} {generator : UInt32} {prime a b : List UInt8}

/-- What the two ends of an exchange compute, whatever their private
exponents: values as wide as the prime, and one secret. -/
structure Exchange (generator : UInt32) (prime a b : List UInt8) : Prop where
  public_width : ∀ private', ∃ out, dhPublic generator prime private' = .ok out ∧
    out.length = prime.length
  shared_width : ∀ peerPublic private', ∃ out, dhShared peerPublic prime private' = .ok out ∧
    out.length = prime.length
  secret : ∃ publicA publicB shared, dhPublic generator prime a = .ok publicA ∧
    dhPublic generator prime b = .ok publicB ∧ dhShared publicA prime b = .ok shared ∧
    dhShared publicB prime a = .ok shared

/-- The block of a response is encrypted under a key, the one that both ends
derive. -/
structure SameKey (md5 : Md5) (aes : Aes) (prime serverPublic a b response : List UInt8) :
    Prop where
  client : ∃ shared block, dhShared serverPublic prime a = .ok shared ∧
    response.take credentialLen = aesEcbEncrypt aes (aesKey md5 shared) block ∧
    ardKey md5 prime b response = .ok (aesKey md5 shared)

theorem exchange (hprime : beNat prime ≠ 0) : Exchange generator prime a b where
  public_width private' := by
    obtain ⟨out, hout, hpower⟩ := dhPublic_ok generator private' hprime
    exact ⟨out, hout, hpower.length⟩
  shared_width peerPublic private' := by
    obtain ⟨out, hout, hpower⟩ := dhShared_ok peerPublic private' hprime
    exact ⟨out, hout, hpower.length⟩
  secret := by
    obtain ⟨publicA, hA, -⟩ := dhPublic_ok generator a hprime
    obtain ⟨publicB, hB, -⟩ := dhPublic_ok generator b hprime
    obtain ⟨shared, hshared, -⟩ := dhShared_ok publicA b hprime
    exact ⟨publicA, publicB, shared, hA, hB, hshared, dhShared_comm hprime hA hB ▸ hshared⟩

/-- The parts of a response, as the server takes it apart. -/
theorem response_parts {serverPublic : List UInt8} {username password : String}
    {filler response : List UInt8} (hfiller : filler.length = credentialLen)
    (h : clientResponse md5 aes generator prime serverPublic username password a filler =
      .ok (.ok response)) :
    ∃ shared block clientPublic, dhShared serverPublic prime a = .ok shared ∧
      packCredentials username password filler = .ok block ∧
      dhPublic generator prime a = .ok clientPublic ∧
      response.take credentialLen = aesEcbEncrypt aes (aesKey md5 shared) block ∧
      (response.drop credentialLen).take prime.length = clientPublic := by
  obtain ⟨shared, block, clientPublic, hshared, hblock, hpublic, rfl⟩ := clientResponse_ok h
  have hlength : (aesEcbEncrypt aes (aesKey md5 shared) block).length = credentialLen := by
    rw [length_aesEcbEncrypt, length_packCredentials hfiller hblock]
  refine ⟨shared, block, clientPublic, hshared, hblock, hpublic, List.take_left' hlength, ?_⟩
  rw [List.drop_left' hlength]
  exact List.take_of_length_le (length_dhPublic hpublic).le

/-- The server's secret is the client's, and so is its key. -/
theorem ardKey_response {serverPublic clientPublic shared response : List UInt8}
    (hprime : beNat prime ≠ 0) (hserver : dhPublic generator prime b = .ok serverPublic)
    (hpublic : dhPublic generator prime a = .ok clientPublic)
    (hshared : dhShared serverPublic prime a = .ok shared)
    (hdrop : (response.drop credentialLen).take prime.length = clientPublic) :
    ardKey md5 prime b response = .ok (aesKey md5 shared) := by
  have hsecret : dhShared clientPublic prime b = .ok shared :=
    (dhShared_comm hprime hpublic hserver).trans hshared
  rw [ardKey, hdrop, hsecret]
  rfl

theorem sameKey {serverPublic : List UInt8} {username password : String}
    {filler response : List UInt8} (hprime : beNat prime ≠ 0)
    (hfiller : filler.length = credentialLen) (hserver : dhPublic generator prime b = .ok serverPublic)
    (h : clientResponse md5 aes generator prime serverPublic username password a filler =
      .ok (.ok response)) : SameKey md5 aes prime serverPublic a b response := by
  obtain ⟨shared, block, clientPublic, hshared, -, hpublic, htake, hdrop⟩ :=
    response_parts hfiller h
  exact ⟨shared, block, hshared, htake, ardKey_response hprime hserver hpublic hshared hdrop⟩

/-- **Both ends of an Apple login derive one key.** -/
theorem keys_agree (md5 : Md5) (aes : Aes) (generator : UInt32) {prime : List UInt8}
    (hprime : beNat prime ≠ 0) (a b : List UInt8) :
    Exchange generator prime a b ∧
      ∀ serverPublic username password filler response, filler.length = credentialLen →
        clientResponse md5 aes generator prime serverPublic username password a filler =
          .ok (.ok response) →
        response.length = credentialLen + prime.length ∧
          (dhPublic generator prime b = .ok serverPublic →
            SameKey md5 aes prime serverPublic a b response) := by
  refine ⟨exchange hprime, fun serverPublic username password filler response hfiller h => ?_⟩
  exact ⟨length_clientResponse hfiller h, fun hserver => sameKey hprime hfiller hserver h⟩

/-- The textbook group: generator 5 and prime 23. -/
theorem keys_agree_textbook : beNat [23] ≠ 0 ∧ ∀ (md5 : Md5) (aes : Aes) (a b : List UInt8),
    Exchange 5 [23] a b ∧
      ∀ serverPublic username password filler response, filler.length = credentialLen →
        clientResponse md5 aes 5 [23] serverPublic username password a filler =
          .ok (.ok response) →
        response.length = credentialLen + [(23 : UInt8)].length ∧
          (dhPublic 5 [23] b = .ok serverPublic → SameKey md5 aes [23] serverPublic a b response) :=
  ⟨by decide, fun md5 aes a b => keys_agree md5 aes 5 (by decide) a b⟩

end Exchange

/-! ## The login -/

/-- A response to a server's challenge carries the login, when neither string
has a NUL inside. -/
theorem ardLogin_clientResponse {md5 : Md5} {aes : Aes128} {generator : UInt32}
    {prime serverPublic clientPrivate serverPrivate : List UInt8} {username password : String}
    {filler response : List UInt8} (hprime : beNat prime ≠ 0)
    (hfiller : filler.length = credentialLen)
    (hserver : dhPublic generator prime serverPrivate = .ok serverPublic)
    (h : clientResponse md5 aes.toAes generator prime serverPublic username password clientPrivate
      filler = .ok (.ok response)) :
    ardLogin md5 aes prime serverPrivate response = .ok (username, password) ↔
      '\x00' ∉ username.toList ∧ '\x00' ∉ password.toList := by
  obtain ⟨shared, block, clientPublic, hshared, hblock, hpublic, htake, hdrop⟩ :=
    response_parts hfiller h
  have hkey : ardKey md5 prime serverPrivate response = .ok (aesKey md5 shared) :=
    ardKey_response hprime hserver hpublic hshared hdrop
  rw [← read_iff aes (md5.length_digest shared) hfiller hblock, ardLogin, hkey, htake]
  constructor
  · exact Except.ok.inj
  · exact congrArg Except.ok

end Bolide.Testkit
