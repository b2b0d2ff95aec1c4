/-
Bolide.Rfb.Handshake — the opening of a session
(`handshake`, `ard_authenticate` and `choose_security` of
`bolide-rfb/src/client.rs`).

`handshake` is a `Task` on the connection alone. `wire` says what its
operations do: a read takes the next bytes the far end has sent, and what
the far end has sent may depend on everything the client has written; a
write is taken whole or, when the connection breaks, in part.

Translation notes. `handshake` is one function in the source; its sections
are named here. `Wire.got` counts the reads that completed. The whole of the
handshake is read with the timeout armed.
-/
import Bolide.Rfb.Client
import Bolide.Rfb.Ard

namespace Bolide.Rfb

open Lib

/-! ## Configuration -/

/-- Which security type to prefer. -/
inductive AuthMode where
  | auto
  | ard
  | vnc
  deriving DecidableEq, Repr

/-- How to connect. -/
structure Config where
  username : Option String
  password : Option String
  shared : Bool
  timeout : Duration
  continuous : Bool
  auth : AuthMode
  deriving DecidableEq, Repr

/-- `Config::default`: ten seconds, shared and continuous. -/
def Config.default : Config where
  username := none
  password := none
  shared := true
  timeout := 10000000000
  continuous := true
  auth := .auto

/-- The ciphers the client calls. -/
structure Crypto where
  des : Des
  md5 : Md5
  aes : Aes

/-- Ciphers that change nothing. -/
def Crypto.null : Crypto where
  des := { encryptBlock := fun _ block => block, length_encryptBlock := fun _ _ => rfl }
  md5 := { digest := fun _ => List.replicate 16 0, length_digest := fun _ => List.length_replicate }
  aes := { encryptBlock := fun _ block => block, length_encryptBlock := fun _ _ => rfl }

/-- What ServerInit told us. -/
structure ServerInit where
  width : UInt16
  height : UInt16
  name : String
  deriving DecidableEq, Repr

/-! ## `Conn`, writing -/

/-- `Conn::write`. -/
def Conn.write (bytes : List UInt8) : Task Unit := do
  let done ← op (.write bytes)
  Prog.ofExcept done

/-- The `u32`-prefixed reason a 3.8 server gives for hanging up. -/
def Conn.reason : Task String := Conn.string maxString

/-- Fill a buffer with cryptographically strong random bytes. -/
def fillRandom (n : Nat) : Task (List UInt8) := do
  let drawn ← op (.random n)
  match drawn with
  | .ok bytes => return bytes
  | .error e => Prog.ofExcept (protocolError s!"could not read the system RNG: {e}")

/-! ## Version -/

/-- Negotiate down: the reply to a server's minor version, and the dialect
the rest is spoken in. -/
def negotiate (minor : Nat) : List UInt8 × Nat :=
  if minor ≤ 6 then (version3_3, 3)
  else if minor = 7 then (version3_7, 7)
  else (version3_8, 8)

/-- Read the banner, answer it, and return the dialect. -/
def readVersion : Task Nat := do
  let banner ← fill 12
  match parseVersion banner with
  | none => Prog.fail (.err .notRfb)
  | some (major, minor) =>
      if major ≠ 3 ∨ minor < 3 then Prog.fail (.err (.unsupportedVersion major minor))
      else
        let (reply, minor) := negotiate minor
        Conn.write reply
        return minor

/-! ## Security -/

/-- Which of the offered types the client takes; with none of them, it
reports the offer. -/
def preferred (config : Config) (offered : List UInt8) : Outcome UInt8 :=
  let has (t : UInt8) : Bool := offered.contains t
  let canArd := config.username.isSome && config.password.isSome
  let refuse : Outcome UInt8 := .error (.err (.noSupportedSecurity offered))
  match config.auth with
  | .ard => if has securityArd then .ok securityArd else refuse
  | .vnc => if has securityVncAuth then .ok securityVncAuth else refuse
  | .auto =>
      if canArd && has securityArd then .ok securityArd
      else if config.password.isSome && has securityVncAuth then .ok securityVncAuth
      else if has securityNone then .ok securityNone
      else if has securityVncAuth then .ok securityVncAuth
      else refuse

/-- The 3.7+ security list: read it, pick one, write the choice. -/
def chooseSecurity (config : Config) : Task UInt8 := do
  let count ← Conn.u8
  if count = 0 then
    let reason ← Conn.reason
    Prog.fail (.err (.refused reason))
  else
    let offered ← Conn.bytes count.toNat
    let chosen ← Prog.ofExcept (preferred config offered)
    Conn.write [chosen]
    return chosen

/-- 3.3: the server decides and says so in a `u32`. Zero is failure. -/
def announcedSecurity : Task UInt8 := do
  let type ← Conn.u32
  if type = 0 then
    let reason ← Conn.reason
    Prog.fail (.err (.refused reason))
  else
    -- `ty as u8` keeps the low byte
    let type := type.toUInt8
    if type ≠ securityNone ∧ type ≠ securityVncAuth then
      Prog.fail (.err (.noSupportedSecurity [type]))
    else return type

/-- The security type of the session. -/
def readSecurity (config : Config) (minor : Nat) : Task UInt8 :=
  if 7 ≤ minor then chooseSecurity config else announcedSecurity

/-! ## Authentication -/

/-- `ard_authenticate`. -/
def ardAuthenticate (crypto : Crypto) (config : Config) : Task Unit := do
  match config.username, config.password with
  | none, _ => Prog.fail (.err .usernameRequired)
  | some _, none => Prog.fail (.err .passwordRequired)
  | some username, some password =>
      let generator ← Conn.u16
      let keyLen ← Conn.u16
      if ¬ (Ard.minKeyLen ≤ keyLen.toNat ∧ keyLen.toNat ≤ Ard.maxKeyLen) then
        Prog.ofExcept (protocolError
          s!"the server's Apple-auth key length ({keyLen}) is outside 64..=1024 bytes")
      else
        let prime ← Conn.bytes keyLen.toNat
        let serverPublic ← Conn.bytes keyLen.toNat
        let private' ← fillRandom (keyLen.toNat * 2)
        let filler ← fillRandom Ard.credentialLen
        let response ← Prog.ofExcept (Ard.clientResponse crypto.md5 crypto.aes generator.toUInt32
          prime serverPublic username password private' filler)
        match response with
        | .error e => Prog.ofExcept (protocolError s!"Apple-auth response: {e.debug}")
        | .ok payload => Conn.write payload

/-- The VNC-auth section: fail before the response, not after. -/
def vncAuthenticate (crypto : Crypto) (config : Config) : Task Unit :=
  match config.password with
  | none => Prog.fail (.err .passwordRequired)
  | some password => do
      let challenge ← fill 16
      Conn.write (vncAuthResponse crypto.des password challenge)

/-- Authenticate as the chosen type asks, and say whether a SecurityResult
is expected. -/
def authenticate (crypto : Crypto) (config : Config) (minor : Nat) (chosen : UInt8) :
    Task Bool :=
  if chosen = securityArd then do
    ardAuthenticate crypto config
    return true
  else if chosen = securityVncAuth then do
    vncAuthenticate crypto config
    return true
  else return !decide (minor < 7)

/-- SecurityResult, with 3.8's reason when it is not zero. -/
def readSecurityResult (minor : Nat) : Task Unit := do
  let result ← Conn.u32
  if result ≠ securityResultOk then
    if 8 ≤ minor then do
      let reason ← Conn.reason
      Prog.fail (.err (.authFailed reason))
    else Prog.fail (.err (.authFailed "the server rejected the credentials"))
  else pure ()

/-! ## Initialisation -/

/-- ClientInit, ServerInit, and the two messages that fix the session's
format and encodings. -/
def initialise (config : Config) : Task ServerInit := do
  Conn.write [if config.shared then 1 else 0]
  let width ← Conn.u16
  let height ← Conn.u16
  let _format ← fill 16
  let name ← Conn.string maxString
  Conn.write (setPixelFormat .rgbx32)
  Conn.write (setEncodings advertisedEncodings)
  return { width, height, name }

/-- What follows the security type. -/
def proceed (crypto : Crypto) (config : Config) (minor : Nat) (chosen : UInt8) :
    Task ServerInit := do
  let expected ← authenticate crypto config minor chosen
  if expected = true then
    readSecurityResult minor
    initialise config
  else initialise config

/-- `handshake`. -/
def handshake (crypto : Crypto) (config : Config) : Task ServerInit := do
  let minor ← readVersion
  let chosen ← readSecurity config minor
  proceed crypto config minor chosen

/-! ## The connection -/

/-- The far end of a connection: what it has sent once it has received so
much, how a read it does not serve ends, how many bytes it takes before the
connection breaks, and what the system RNG draws. -/
structure Peer where
  sends : List UInt8 → List UInt8
  ending : Ending
  takes : Option Nat
  draws : Nat → Except String (Nat → UInt8)

/-- The connection as the client sees it. -/
structure Wire where
  got : List UInt8
  sent : List UInt8
  drawn : Nat
  deriving DecidableEq, Repr

def Wire.new : Wire where
  got := []
  sent := []
  drawn := 0

/-- What arrives of the bytes written so far. -/
def Peer.takesOf (peer : Peer) (bytes : List UInt8) : List UInt8 :=
  match peer.takes with
  | none => bytes
  | some room => bytes.take room

/-- One operation on the connection. -/
def wire (peer : Peer) (timeout : Duration) : Prog.Handler SessionSig Wire
  | .fill n, w =>
      match fillFrom peer.ending timeout true n ((peer.sends w.sent).drop w.got.length) with
      | (.ok bytes, _) => (.ok bytes, { w with got := w.got ++ bytes })
      | (.error e, _) => (.error e, w)
  | .write bytes, w =>
      let sent := peer.takesOf (w.sent ++ bytes)
      (if sent = w.sent ++ bytes then .ok () else .error (.err (.io "broken pipe")),
        { w with sent })
  | .random n, w =>
      ((peer.draws w.drawn).map (fun f => (List.range n).map f), { w with drawn := w.drawn + 1 })
  | o, w => ((execInner o (.new 0 0 "")).1, w)

/-- The handshake against a peer. -/
def runHandshake (crypto : Crypto) (config : Config) (peer : Peer) :
    Outcome ServerInit × Wire :=
  (handshake crypto config).run (wire peer config.timeout) .new

/-! ## What the client settles on -/

/-- The three dialects. -/
theorem negotiate_cases {minor dialect : Nat} {reply : List UInt8}
    (h : negotiate minor = (reply, dialect)) :
    (minor ≤ 6 ∧ reply = version3_3 ∧ dialect = 3) ∨
      (minor = 7 ∧ reply = version3_7 ∧ dialect = 7) ∨
      (8 ≤ minor ∧ reply = version3_8 ∧ dialect = 8) := by
  unfold negotiate at h
  split at h
  · next hminor =>
      obtain ⟨hreply, hdialect⟩ := Prod.mk.inj h
      exact .inl ⟨hminor, hreply.symm, hdialect.symm⟩
  · split at h
    · next hminor =>
        obtain ⟨hreply, hdialect⟩ := Prod.mk.inj h
        exact .inr (.inl ⟨hminor, hreply.symm, hdialect.symm⟩)
    · next h6 h7 =>
        obtain ⟨hreply, hdialect⟩ := Prod.mk.inj h
        exact .inr (.inr ⟨by omega, hreply.symm, hdialect.symm⟩)

/-- The security types the client has a reply for. -/
def Supported (type : UInt8) : Prop :=
  type = securityNone ∨ type = securityVncAuth ∨ type = securityArd

/-- The preferred type is one of those offered, and one the client speaks. -/
theorem preferred_mem {config : Config} {offered : List UInt8} {type : UInt8}
    (h : preferred config offered = .ok type) : type ∈ offered ∧ Supported type := by
  have mem {t : UInt8} (ht : offered.contains t = true) : t ∈ offered := List.contains_iff_mem.mp ht
  unfold preferred at h
  cases hauth : config.auth with
  | ard =>
      rw [hauth] at h
      simp only at h
      split at h
      · next ht => cases h; exact ⟨mem ht, .inr (.inr rfl)⟩
      · cases h
  | vnc =>
      rw [hauth] at h
      simp only at h
      split at h
      · next ht => cases h; exact ⟨mem ht, .inr (.inl rfl)⟩
      · cases h
  | auto =>
      rw [hauth] at h
      simp only [Bool.and_eq_true] at h
      split at h
      · next ht => cases h; exact ⟨mem ht.2, .inr (.inr rfl)⟩
      · split at h
        · next ht => cases h; exact ⟨mem ht.2, .inr (.inl rfl)⟩
        · split at h
          · next ht => cases h; exact ⟨mem ht, .inl rfl⟩
          · split at h
            · next ht => cases h; exact ⟨mem ht, .inr (.inl rfl)⟩
            · cases h

end Bolide.Rfb
