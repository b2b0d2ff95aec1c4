/-
Bolide.Rfb.ArdTheorems — what an Apple login computes, and what undoes it.

The numbers first: big-endian writing and left-padding keep a value, so a
Diffie-Hellman value is the modular power, as wide as the prime, and the two
ends of an exchange agree. Then the block: decryption gives the packed block
back, and a field is read up to its first NUL, so a login arrives exactly
when neither of its strings has a NUL inside. Last, the panic of `modpow`:
nothing before it looks at the value of the prime, and a server that sends
zeros for it crashes the client.
-/
import Bolide.Rfb.WireTheorems

namespace Bolide.Rfb

open Lib Prog

namespace Ard

/-! ## Numbers -/

theorem beNat_cons_zero (bs : List UInt8) : beNat (0 :: bs) = beNat bs := rfl

theorem beNat_replicate_zero (n : Nat) (bs : List UInt8) :
    beNat (List.replicate n 0 ++ bs) = beNat bs := by
  induction n with
  | zero => rfl
  | succ n ih => rw [List.replicate_succ, List.cons_append, beNat_cons_zero, ih]

theorem beNat_padBe (bs : List UInt8) (width : Nat) : beNat (padBe bs width) = beNat bs := by
  rw [padBe]
  split
  · rfl
  · exact beNat_replicate_zero _ bs

theorem beNat_toBytesBe (n : Nat) : beNat (toBytesBe n) = n := by
  have hlt : n < 256 ^ (n.log2 / 8 + 1) := by
    calc n < 2 ^ (n.log2 + 1) := Nat.lt_log2_self
      _ ≤ 2 ^ (8 * (n.log2 / 8 + 1)) := Nat.pow_le_pow_right (by decide) (by omega)
      _ = 256 ^ (n.log2 / 8 + 1) := by rw [Nat.pow_mul]
  rw [toBytesBe, beNat_beBytes, Nat.mod_eq_of_lt hlt]

/-- A byte string denotes zero exactly when all its bytes are zero. -/
theorem beNat_eq_zero {bs : List UInt8} : beNat bs = 0 ↔ ∀ b ∈ bs, b = 0 := by
  induction bs using List.reverseRecOn with
  | nil => simp [beNat]
  | append_singleton bs b ih =>
      have hb : b.toNat = 0 ↔ b = 0 := by rw [← UInt8.toNat_inj]; rfl
      rw [beNat_snoc, Nat.add_eq_zero_iff, hb]
      simp [ih, or_imp, forall_and]

section Exchange

variable {generator : UInt32} {prime : List UInt8}

/-- What both ends compute: a power, in as many bytes as the prime has. -/
structure Power (base exponent : Nat) (prime out : List UInt8) : Prop where
  length : out.length = prime.length
  value : beNat out = base ^ exponent % beNat prime

theorem power_padBe (base exponent : Nat) (h : beNat prime ≠ 0) :
    modpow base exponent (beNat prime) = .ok (base ^ exponent % beNat prime) ∧
      Power base exponent prime
        (padBe (toBytesBe (base ^ exponent % beNat prime)) prime.length) := by
  have hpow : modpow base exponent (beNat prime) = .ok (base ^ exponent % beNat prime) := if_neg h
  exact ⟨hpow, length_padBe_modpow hpow, by rw [beNat_padBe, beNat_toBytesBe]⟩

theorem dhPublic_ok (generator : UInt32) (private' : List UInt8) (h : beNat prime ≠ 0) :
    ∃ out, dhPublic generator prime private' = .ok out ∧
      Power generator.toNat (beNat private') prime out := by
  obtain ⟨hpow, hout⟩ := power_padBe generator.toNat (beNat private') h
  exact ⟨_, by rw [dhPublic, hpow]; rfl, hout⟩

theorem dhShared_ok (peerPublic private' : List UInt8) (h : beNat prime ≠ 0) :
    ∃ out, dhShared peerPublic prime private' = .ok out ∧
      Power (beNat peerPublic) (beNat private') prime out := by
  obtain ⟨hpow, hout⟩ := power_padBe (beNat peerPublic) (beNat private') h
  exact ⟨_, by rw [dhShared, hpow]; rfl, hout⟩

/-- The width and the value are all there is to a power. -/
theorem Power.unique {base exponent base' exponent' : Nat} {out out' : List UInt8}
    (h : Power base exponent prime out) (h' : Power base' exponent' prime out')
    (heq : base ^ exponent % beNat prime = base' ^ exponent' % beNat prime) : out = out' := by
  rw [← beBytes_beNat out, ← beBytes_beNat out', h.length, h'.length, h.value, h'.value, heq]

/-- A power of a power, either way round. -/
theorem pow_pow_mod (g a b p : Nat) : (g ^ a % p) ^ b % p = (g ^ b % p) ^ a % p := by
  rw [← Nat.pow_mod, ← Nat.pow_mod, ← Nat.pow_mul, ← Nat.pow_mul, Nat.mul_comm]

/-- The two ends of an exchange come to one secret. -/
theorem dhShared_comm {private₁ private₂ public₁ public₂ : List UInt8} (h : beNat prime ≠ 0)
    (h₁ : dhPublic generator prime private₁ = .ok public₁)
    (h₂ : dhPublic generator prime private₂ = .ok public₂) :
    dhShared public₁ prime private₂ = dhShared public₂ prime private₁ := by
  obtain ⟨out₁, hout₁, hpublic₁⟩ := dhPublic_ok generator private₁ h
  obtain ⟨out₂, hout₂, hpublic₂⟩ := dhPublic_ok generator private₂ h
  obtain rfl : out₁ = public₁ := Except.ok.inj (hout₁.symm.trans h₁)
  obtain rfl : out₂ = public₂ := Except.ok.inj (hout₂.symm.trans h₂)
  obtain ⟨key₁, hkey₁, hshared₁⟩ := dhShared_ok out₁ private₂ h
  obtain ⟨key₂, hkey₂, hshared₂⟩ := dhShared_ok out₂ private₁ h
  have hkey : key₁ = key₂ := by
    refine hshared₁.unique hshared₂ ?_
    rw [hpublic₁.value, hpublic₂.value]
    exact pow_pow_mod generator.toNat (beNat private₁) (beNat private₂) (beNat prime)
  rw [hkey₁, hkey₂, hkey]

end Exchange

/-! ## The block -/

theorem aesEcbDecrypt_aesEcbEncrypt (aes : Aes128) {key : List UInt8} (hkey : key.length = 16)
    (data : List UInt8) : aesEcbDecrypt aes key (aesEcbEncrypt aes.toAes key data) = data := by
  fun_induction aesEcbEncrypt aes.toAes key data with
  | case1 data h ih =>
      have hblock : (data.take 16).length = 16 := by
        rw [List.length_take]
        omega
      have hcipher : (aes.encryptBlock key (data.take 16)).length = 16 := by
        rw [aes.length_encryptBlock, hblock]
      rw [aesEcbDecrypt, if_pos (by rw [List.length_append, hcipher]; omega),
        List.take_left' hcipher, List.drop_left' hcipher, ih,
        aes.decryptBlock_encryptBlock key _ hkey hblock, List.take_append_drop]
  | case2 data h => rw [aesEcbDecrypt, if_neg h]

/-- A field is read up to the first NUL of what was written. -/
theorem readField_append (s : String) (rest : List UInt8) :
    readField (s.toUTF8.toList ++ 0 :: rest) =
      String.ofList (s.toList.takeWhile (fun c => c ≠ '\x00')) := by
  rw [readField, Text.toUTF8_toList,
    Text.takeWhile_utf8Bytes '\x00' 0 rfl (by decide),
    Text.fromUtf8Lossy_utf8Bytes]

/-- The string as far as its first NUL. -/
theorem takeWhile_nul {s : String} :
    String.ofList (s.toList.takeWhile (fun c => c ≠ '\x00')) = s ↔ '\x00' ∉ s.toList := by
  rw [← String.toList_inj, String.toList_ofList, List.takeWhile_eq_self_iff]
  constructor
  · intro h hmem
    simpa using h _ hmem
  · intro h c hc
    rw [decide_eq_true_eq]
    rintro rfl
    exact h hc

/-- What a packed block is unpacked to. -/
theorem unpackCredentials_packCredentials {username password : String} {filler block : List UInt8}
    (hfiller : filler.length = credentialLen)
    (h : packCredentials username password filler = .ok block) :
    unpackCredentials block =
      (String.ofList (username.toList.takeWhile (fun c => c ≠ '\x00')),
        String.ofList (password.toList.takeWhile (fun c => c ≠ '\x00'))) := by
  simp only [packCredentials] at h
  split at h
  · cases h
  · next hfit =>
      have hblock := Except.ok.inj h
      have hlength : (username.toUTF8.toList ++
          0 :: (filler.take passwordOffset).drop (username.toUTF8.toList.length + 1)).length =
          passwordOffset := by
        simp only [credentialLen, fieldMax, passwordOffset] at *
        simp only [List.length_append, List.length_cons, List.length_drop, List.length_take]
        omega
      rw [unpackCredentials, ← hblock, List.take_left' hlength, List.drop_left' hlength,
        readField_append, readField_append]

/-- The strings that fit are packed. -/
theorem packCredentials_isOk {username password : String} {filler : List UInt8} :
    (∃ block, packCredentials username password filler = .ok block) ↔
      username.utf8ByteSize ≤ fieldMax ∧ password.utf8ByteSize ≤ fieldMax := by
  simp only [packCredentials, Text.length_toUTF8_toList]
  constructor
  · rintro ⟨block, h⟩
    split at h
    · cases h
    · omega
  · intro h
    rw [if_neg (by omega)]
    exact ⟨_, rfl⟩

/-- A login arrives as it was given: it is packed exactly when both strings
fit, and then a server reads these two strings. -/
structure Arrives (aes : Aes128) (key filler : List UInt8) (username password : String) : Prop where
  packed : (∃ block, packCredentials username password filler = .ok block) ↔
    username.utf8ByteSize ≤ fieldMax ∧ password.utf8ByteSize ≤ fieldMax
  read : ∀ block, packCredentials username password filler = .ok block →
    unpackCredentials (aesEcbDecrypt aes key (aesEcbEncrypt aes.toAes key block)) =
      (username, password)

/-- A packed login is read as it was given when there is no NUL inside. -/
theorem read_iff (aes : Aes128) {key filler block : List UInt8} (hkey : key.length = 16)
    (hfiller : filler.length = credentialLen) {username password : String}
    (hblock : packCredentials username password filler = .ok block) :
    unpackCredentials (aesEcbDecrypt aes key (aesEcbEncrypt aes.toAes key block)) =
        (username, password) ↔
      '\x00' ∉ username.toList ∧ '\x00' ∉ password.toList := by
  rw [aesEcbDecrypt_aesEcbEncrypt aes hkey, unpackCredentials_packCredentials hfiller hblock,
    Prod.mk.injEq, takeWhile_nul, takeWhile_nul]

/-- **A login that fits arrives exactly when it has no NUL inside.** -/
theorem login_arrives (aes : Aes128) {key filler : List UInt8} (hkey : key.length = 16)
    (hfiller : filler.length = credentialLen) (username password : String) :
    Arrives aes key filler username password ↔
      (username.utf8ByteSize ≤ fieldMax → password.utf8ByteSize ≤ fieldMax →
        '\x00' ∉ username.toList ∧ '\x00' ∉ password.toList) := by
  constructor
  · intro h huser hpass
    obtain ⟨block, hblock⟩ := h.packed.mpr ⟨huser, hpass⟩
    exact (read_iff aes hkey hfiller hblock).mp (h.read block hblock)
  · intro h
    refine ⟨packCredentials_isOk, fun block hblock => ?_⟩
    obtain ⟨huser, hpass⟩ := packCredentials_isOk.mp ⟨block, hblock⟩
    exact (read_iff aes hkey hfiller hblock).mpr (h huser hpass)

/-- The identity is a cipher. -/
theorem nonempty_aes128 : Nonempty Aes128 :=
  ⟨{ encryptBlock := fun _ block => block
     length_encryptBlock := fun _ _ => rfl
     decryptBlock := fun _ block => block
     decryptBlock_encryptBlock := fun _ _ _ _ => rfl }⟩

theorem login_arrives_plain : Nonempty Aes128 ∧ ∀ aes : Aes128,
    Arrives aes (List.replicate 16 0) (List.replicate 128 0) "meteor" "hunter2" := by
  refine ⟨nonempty_aes128, fun aes => ?_⟩
  exact (login_arrives aes List.length_replicate List.length_replicate "meteor" "hunter2").mpr
    (fun _ _ => by decide)

/-- Whatever the cipher, a NUL in the user name cuts it short. -/
theorem not_login_arrives_nul : ¬ ∃ aes : Aes128,
    Arrives aes (List.replicate 16 0) (List.replicate 128 0) "a\x00b" "hunter2" := by
  rintro ⟨aes, h⟩
  obtain ⟨block, hblock⟩ := h.packed.mpr (by decide)
  have hread := (read_iff aes List.length_replicate List.length_replicate hblock).mp
    (h.read block hblock)
  exact hread.1 (by decide)

/-! ## The panic -/

/-- A response panics exactly when the prime is zero. -/
theorem clientResponse_panic {md5 : Md5} {aes : Aes} {generator : UInt32}
    {prime serverPublic : List UInt8} {username password : String} {private' filler : List UInt8} :
    clientResponse md5 aes generator prime serverPublic username password private' filler =
        .error .panic ↔
      (minKeyLen ≤ prime.length ∧ prime.length ≤ maxKeyLen) ∧ serverPublic.length = prime.length ∧
        ∀ b ∈ prime, b = 0 := by
  simp only [clientResponse, ← beNat_eq_zero]
  split
  · next hbad =>
      constructor
      · intro h
        cases h
      · rintro ⟨hlen, hpublic, -⟩
        rcases hbad with h | h
        · exact absurd hlen h
        · exact absurd hpublic h
  · next hgood =>
      rw [not_or, not_not, not_not] at hgood
      by_cases hzero : beNat prime = 0
      · have hpanic : dhShared serverPublic prime private' = .error .panic := by
          rw [dhShared, modpow, if_pos hzero]
          rfl
        rw [hpanic]
        exact ⟨fun _ => ⟨hgood.1, hgood.2, hzero⟩, fun _ => rfl⟩
      · obtain ⟨shared, hshared, -⟩ := dhShared_ok serverPublic private' hzero
        obtain ⟨publicKey, hpublic, -⟩ := dhPublic_ok generator private' hzero
        rw [hshared, hpublic, ok_bind]
        constructor
        · intro h
          cases hpack : packCredentials username password filler with
          | error e => rw [hpack] at h; cases h
          | ok block => rw [hpack] at h; cases h
        · exact fun h => absurd h.2.2 hzero

/-! ## The panic, in a session -/

end Ard

section Panics

variable {peer : Peer} {timeout : Duration} {w : Wire} {stream : List UInt8} {α : Type}

/-- The run ends in a panic. -/
def Panics (peer : Peer) (timeout : Duration) (w : Wire) (p : Task α) : Prop :=
  (p.run (wire peer timeout) w).1 = .error .panic

/-- A read the far end does not serve is an error and no panic. -/
theorem wire_fill_err (timeout : Duration) {n : Nat} (h : Serves peer w stream)
    (hn : stream.length < n) : ∃ e, wire peer timeout (.fill n) w = (.error (.err e), w) := by
  simp only [wire]
  rw [h, List.drop_left]
  unfold fillFrom
  rw [if_neg (by omega)]
  cases peer.ending with
  | closed => exact ⟨_, rfl⟩
  | silent => exact ⟨_, rfl⟩

/-- A read panics if what comes after it does. -/
theorem panics_fill {n : Nat} {f : List UInt8 → Task α} (h : Serves peer w stream) :
    Panics peer timeout w (fill n >>= f) ↔ ∃ bytes rest, stream = bytes ++ rest ∧
      bytes.length = n ∧ Panics peer timeout (w.read bytes) (f bytes) := by
  constructor
  · intro hpanic
    rcases Nat.lt_or_ge stream.length n with hshort | hlen
    · obtain ⟨e, hfill⟩ := wire_fill_err timeout h hshort
      simp only [Panics, fill, op, step_bind, ret_bind, run_step] at hpanic
      rw [hfill, ofExcept_error, fail_bind, run_fail] at hpanic
      cases hpanic
    · refine ⟨stream.take n, stream.drop n, (List.take_append_drop n stream).symm,
        List.length_take_of_le hlen, ?_⟩
      rw [← List.take_append_drop n stream] at h
      rwa [Panics, run_fill h (List.length_take_of_le hlen)] at hpanic
  · rintro ⟨bytes, rest, rfl, hn, hpanic⟩
    rwa [Panics, run_fill h hn]

theorem panics_u16 {f : UInt16 → Task α} (h : Serves peer w stream) :
    Panics peer timeout w (Conn.u16 >>= f) ↔ ∃ v rest, stream = be16 v ++ rest ∧
      Panics peer timeout (w.read (be16 v)) (f v) := by
  rw [Conn.u16, bind_assoc, panics_fill h]
  constructor
  · rintro ⟨bytes, rest, hstream, hlen, hpanic⟩
    refine ⟨ofBe16 bytes, rest, ?_, ?_⟩
    · rw [be16_ofBe16 hlen, hstream]
    · rw [be16_ofBe16 hlen]
      exact hpanic
  · rintro ⟨v, rest, hstream, hpanic⟩
    refine ⟨be16 v, rest, hstream, length_be16 v, ?_⟩
    rw [ofBe16_be16]
    exact hpanic

theorem panics_random {n : Nat} {f : List UInt8 → Task α} :
    Panics peer timeout w (fillRandom n >>= f) ↔ ∃ draw, peer.draws w.drawn = .ok draw ∧
      Panics peer timeout { w with drawn := w.drawn + 1 } (f ((List.range n).map draw)) := by
  simp only [Panics, fillRandom, op, step_bind, ret_bind, run_step, wire]
  cases hdraw : peer.draws w.drawn with
  | error e => simp [Except.map, protocolError]
  | ok draw => simp [Except.map]

theorem not_panics_write (bytes : List UInt8) : ¬ Panics peer timeout w (Conn.write bytes) := by
  rw [← bind_pure (Conn.write bytes)]
  by_cases htakes : peer.takesOf (w.sent ++ bytes) = w.sent ++ bytes
  · rw [Panics, run_write htakes]
    simp
  · rw [Panics, run_write_broken htakes]
    simp

theorem panics_ofExcept {β : Type} {x : Outcome β} {f : β → Task α}
    (hf : ∀ b, ¬ Panics peer timeout w (f b)) :
    Panics peer timeout w (Prog.ofExcept x >>= f) ↔ x = .error .panic := by
  cases x with
  | error e => simp [Panics]
  | ok b => simp [hf b]

/-- The rest of a challenge's session does not panic. -/
theorem not_panics_answer {answer : Except Ard.ArdError (List UInt8) → Task Unit}
    (herror : ∀ e, ∃ what, answer (.error e) = Prog.ofExcept (protocolError what))
    (hok : ∀ payload, answer (.ok payload) = Conn.write payload)
    (response : Except Ard.ArdError (List UInt8)) : ¬ Panics peer timeout w (answer response) := by
  intro hpanic
  cases response with
  | error e =>
      obtain ⟨what, hwhat⟩ := herror e
      rw [hwhat] at hpanic
      cases hpanic
  | ok payload =>
      rw [hok] at hpanic
      exact not_panics_write payload hpanic

/-- A challenge with zeros for its prime, of a key length that is taken. -/
def ZeroChallenge (stream : List UInt8) : Prop :=
  ∃ (generator keyLen : UInt16) (prime serverPublic rest : List UInt8),
    stream = be16 generator ++ (be16 keyLen ++ (prime ++ (serverPublic ++ rest))) ∧
    prime.length = keyLen.toNat ∧ serverPublic.length = keyLen.toNat ∧
    (Ard.minKeyLen ≤ keyLen.toNat ∧ keyLen.toNat ≤ Ard.maxKeyLen) ∧ ∀ b ∈ prime, b = 0

/-- The RNG draws what the client asks for. -/
def Draws (peer : Peer) (w : Wire) : Prop :=
  (∃ draw, peer.draws w.drawn = .ok draw) ∧ ∃ draw, peer.draws (w.drawn + 1) = .ok draw

/-- With the credentials at hand, the challenge decides. -/
theorem panics_challenge (crypto : Crypto) {config : Config} (timeout : Duration)
    {username password : String} (husername : config.username = some username)
    (hpassword : config.password = some password) (h : Serves peer w stream) :
    Panics peer timeout w (ardAuthenticate crypto config) ↔
      ZeroChallenge stream ∧ Draws peer w := by
  unfold ardAuthenticate
  rw [husername, hpassword]
  simp only
  constructor
  · intro hpanic
    obtain ⟨generator, rest, rfl, hpanic⟩ := (panics_u16 h).mp hpanic
    have h := serves_read h
    obtain ⟨keyLen, rest, rfl, hpanic⟩ := (panics_u16 h).mp hpanic
    have h := serves_read h
    split at hpanic
    · cases hpanic
    · next hlen =>
        obtain ⟨prime, rest, rfl, hprime, hpanic⟩ := (panics_fill h).mp hpanic
        have h := serves_read h
        obtain ⟨serverPublic, rest, rfl, hpublic, hpanic⟩ := (panics_fill h).mp hpanic
        obtain ⟨draw₁, hdraw₁, hpanic⟩ := panics_random.mp hpanic
        obtain ⟨draw₂, hdraw₂, hpanic⟩ := panics_random.mp hpanic
        have hresponse := (panics_ofExcept
          (not_panics_answer (fun _ => ⟨_, rfl⟩) (fun _ => rfl))).mp hpanic
        have hzero := Ard.clientResponse_panic.mp hresponse
        exact ⟨⟨generator, keyLen, prime, serverPublic, rest, rfl, hprime, hpublic,
          not_not.mp hlen, hzero.2.2⟩, ⟨draw₁, hdraw₁⟩, ⟨draw₂, hdraw₂⟩⟩
  · rintro ⟨⟨generator, keyLen, prime, serverPublic, rest, rfl, hprime, hpublic, hlen, hall⟩,
      ⟨draw₁, hdraw₁⟩, ⟨draw₂, hdraw₂⟩⟩
    refine (panics_u16 h).mpr ⟨generator, _, rfl, ?_⟩
    have h := serves_read h
    refine (panics_u16 h).mpr ⟨keyLen, _, rfl, ?_⟩
    have h := serves_read h
    rw [if_neg (not_not.mpr hlen)]
    refine (panics_fill h).mpr ⟨prime, _, rfl, hprime, ?_⟩
    have h := serves_read h
    refine (panics_fill h).mpr ⟨serverPublic, _, rfl, hpublic, ?_⟩
    refine panics_random.mpr ⟨draw₁, hdraw₁, panics_random.mpr ⟨draw₂, hdraw₂, ?_⟩⟩
    refine (panics_ofExcept (not_panics_answer (fun _ => ⟨_, rfl⟩) (fun _ => rfl))).mpr ?_
    rw [← hprime] at hlen hpublic
    exact Ard.clientResponse_panic.mpr ⟨hlen, hpublic, hall⟩

/-- The challenge crashes the client: nothing keeps it from being answered,
and its prime is zero. -/
structure Crashes (config : Config) (peer : Peer) (w : Wire) (stream : List UInt8) : Prop where
  username : config.username.isSome = true
  password : config.password.isSome = true
  challenge : ZeroChallenge stream
  draws : Draws peer w

/-- **An Apple login panics exactly when the server sends zeros for the
prime.** -/
theorem ardAuthenticate_safe (crypto : Crypto) (config : Config) (peer : Peer)
    (timeout : Duration) (w : Wire) (stream : List UInt8) (h : Serves peer w stream) :
    ((ardAuthenticate crypto config).run (wire peer timeout) w).1 ≠ .error .panic ↔
      ¬ Crashes config peer w stream := by
  refine not_congr ?_
  show Panics peer timeout w (ardAuthenticate crypto config) ↔ _
  cases husername : config.username with
  | none =>
      constructor
      · intro hpanic
        rw [Panics, ardAuthenticate, husername] at hpanic
        cases hpanic
      · intro hcrash
        have hsome := hcrash.username
        rw [husername] at hsome
        cases hsome
  | some username =>
      cases hpassword : config.password with
      | none =>
          constructor
          · intro hpanic
            rw [Panics, ardAuthenticate, husername, hpassword] at hpanic
            cases hpanic
          · intro hcrash
            have hsome := hcrash.password
            rw [hpassword] at hsome
            cases hsome
      | some password =>
          rw [panics_challenge crypto timeout husername hpassword h]
          constructor
          · rintro ⟨hchallenge, hdraws⟩
            exact ⟨by rw [husername]; rfl, by rw [hpassword]; rfl, hchallenge, hdraws⟩
          · exact fun hcrash => ⟨hcrash.challenge, hcrash.draws⟩

/-- A server that sends `prime` and `serverPublic` in a challenge of
generator 5, and then nothing. -/
def Peer.challenging (prime serverPublic : List UInt8) : Peer where
  sends := fun _ => be16 5 ++ (be16 (UInt16.ofNat prime.length) ++ (prime ++ (serverPublic ++ [])))
  ending := .silent
  takes := none
  draws := fun _ => .ok (fun _ => 1)

/-- A user name and a password, and the rest as it is. -/
def Config.named (username password : String) : Config :=
  { Config.default with username := some username, password := some password }

/-- The first byte of the prime is the fifth of a challenge. -/
theorem ZeroChallenge.fifth (h : ZeroChallenge stream) : stream[4]? = some 0 := by
  obtain ⟨generator, keyLen, prime, serverPublic, rest, rfl, hprime, -, ⟨hmin, -⟩, hall⟩ := h
  cases prime with
  | nil =>
      rw [List.length_nil, Ard.minKeyLen] at *
      omega
  | cons b prime =>
      rw [hall b List.mem_cons_self]
      obtain ⟨g₁, g₂, hg, -⟩ := be16_eq generator
      obtain ⟨k₁, k₂, hk, -⟩ := be16_eq keyLen
      rw [hg, hk]
      rfl

theorem serves_challenging (prime serverPublic : List UInt8) :
    Serves (Peer.challenging prime serverPublic) .new
      (be16 5 ++ (be16 (UInt16.ofNat prime.length) ++ (prime ++ (serverPublic ++ [])))) := rfl

theorem ardAuthenticate_safe_ones :
    (∃ stream, Serves (Peer.challenging (List.replicate 64 1) (List.replicate 64 1)) .new stream) ∧
      ((ardAuthenticate Crypto.null (Config.named "meteor" "hunter2")).run
        (wire (Peer.challenging (List.replicate 64 1) (List.replicate 64 1)) 10) .new).1 ≠
        .error .panic := by
  refine ⟨⟨_, serves_challenging _ _⟩,
    (ardAuthenticate_safe _ _ _ _ _ _ (serves_challenging _ _)).mpr fun hcrash => ?_⟩
  have hfifth := hcrash.challenge.fifth
  exact absurd hfifth (by decide)

/-- Sixty-four zeros for the prime crash every client. -/
theorem not_ardAuthenticate_safe_zeros : ¬ ∃ crypto : Crypto,
    ((ardAuthenticate crypto (Config.named "meteor" "hunter2")).run
      (wire (Peer.challenging (List.replicate 64 0) (List.replicate 64 1)) 10) .new).1 ≠
      .error .panic := by
  rintro ⟨crypto, hrun⟩
  refine hrun ((panics_challenge crypto 10 rfl rfl (serves_challenging _ _)).mpr
    ⟨?_, ⟨_, rfl⟩, ⟨_, rfl⟩⟩)
  refine ⟨5, 64, List.replicate 64 0, List.replicate 64 1, [], ?_, List.length_replicate,
    List.length_replicate, by decide, fun b hb => List.eq_of_mem_replicate hb⟩
  rw [List.length_replicate]
  rfl

end Panics

end Bolide.Rfb
