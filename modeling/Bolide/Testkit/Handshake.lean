/-
Bolide.Testkit.Handshake — the fake server opens a session (`handshake`,
`fail_security` and `server_init` of `bolide-testkit/src/server.rs`, and what
`serve` does before its loop).

The server is a task at the other end of the client's connection. `verdict`
says what a login comes to, by the security of the server and the client's
configuration alone.

Translation notes. A task is over when it returns or fails, which is where
the server shuts its half of the connection down. A `Drop` or a `Shutdown`
that comes before the session has started stops the task where it stands.
-/
import Bolide.Rfb.Connected
import Bolide.Testkit.Ard
import Bolide.Testkit.Server

namespace Bolide.Testkit

open Lib Rfb

/-- The ciphers, of which a server also needs the inverse of AES. -/
structure Ciphers where
  des : Des
  md5 : Md5
  aes : Aes128

/-- What a client needs of them. -/
def Ciphers.crypto (c : Ciphers) : Crypto where
  des := c.des
  md5 := c.md5
  aes := c.aes.toAes

/-- How the fake authenticates. -/
inductive Security where
  | none
  | vncAuth (password : String)
  | ard (username password : String)
  | alwaysFail
  | unsupported
  deriving DecidableEq, Repr

/-- `FakeServerBuilder`. -/
structure FakeServerBuilder extends Builder where
  security : Security
  desktopName : String

/-! ## Constants -/

/-- `CHALLENGE`. -/
def challenge : List UInt8 :=
  [0x00, 0x11, 0x22, 0x33, 0x44, 0x55, 0x66, 0x77, 0x88, 0x99, 0xaa, 0xbb, 0xcc, 0xdd, 0xee, 0xff]

/-- `AUTH_FAILED`. -/
def authFailed : String := "authentication failed"

/-- What the server says to a type it did not offer, or does not implement. -/
def noneInCommon : String := "no security type in common"

def ardGenerator : UInt16 := 5

/-- `ARD_PRIME`: 64 bytes, the last one odd. -/
def ardPrime : List UInt8 := 0xC7 :: (List.replicate 62 0x3B ++ [0x8D])

def ardServerPrivate : List UInt8 := List.replicate 64 0x5A

/-! ## The server's end -/

/-- `fail_security`: a SecurityResult with its reason. -/
def failSecurity (reason : String) : Rfb.Task Unit := do
  let bytes := reason.toUTF8.toList
  Conn.write (be32 1 ++ be32 (UInt32.ofNat bytes.length) ++ bytes)
  Prog.fail (.err (.io reason))

/-- The one type a server offers. -/
def Security.offered : Security → List UInt8
  | .none => [securityNone]
  | .vncAuth _ => [securityVncAuth]
  | .alwaysFail => [securityVncAuth]
  | .ard _ _ => [securityArd]
  | .unsupported => [securityArd]

/-- The `Security::VncAuth` arm. -/
def checkVncAuth (c : Ciphers) (password : String) : Rfb.Task Unit := do
  Conn.write challenge
  let response ← fill 16
  if response = vncAuthResponse c.des password challenge then Conn.write (be32 securityResultOk)
  else failSecurity authFailed

/-- The `Security::AlwaysFail` arm. -/
def checkNothing : Rfb.Task Unit := do
  Conn.write challenge
  let _response ← fill 16
  failSecurity authFailed

/-- The `Security::Ard` arm. -/
def checkArd (c : Ciphers) (username password : String) : Rfb.Task Unit := do
  let serverPublic ← Prog.ofExcept (Ard.dhPublic ardGenerator.toUInt32 ardPrime ardServerPrivate)
  Conn.write (be16 ardGenerator ++ be16 (UInt16.ofNat ardPrime.length) ++ ardPrime ++ serverPublic)
  let block ← fill Ard.credentialLen
  let clientPublic ← fill ardPrime.length
  let shared ← Prog.ofExcept (Ard.dhShared clientPublic ardPrime ardServerPrivate)
  let login := Ard.unpackCredentials (Ard.aesEcbDecrypt c.aes (Ard.aesKey c.md5 shared) block)
  if login.1 = username ∧ login.2 = password then Conn.write (be32 securityResultOk)
  else failSecurity authFailed

/-- What the server does once a type is chosen. -/
def checkSecurity (c : Ciphers) : Security → Rfb.Task Unit
  | .none => Conn.write (be32 securityResultOk)
  | .unsupported => failSecurity noneInCommon
  | .vncAuth password => checkVncAuth c password
  | .alwaysFail => checkNothing
  | .ard username password => checkArd c username password

/-- `handshake`. -/
def serverHandshake (c : Ciphers) (security : Security) : Rfb.Task Unit := do
  Conn.write version3_8
  let _version ← fill 12
  let offered := security.offered
  Conn.write (UInt8.ofNat offered.length :: offered)
  let chosen ← Conn.u8
  if offered.contains chosen = true then checkSecurity c security
  else failSecurity noneInCommon

/-- `server_init`. -/
def serverInit (screen : Screen) (name : String) : List UInt8 :=
  let name := name.toUTF8.toList
  be16 screen.width ++ (be16 screen.height ++ (PixelFormat.rgbx32.encode ++
    (be32 (UInt32.ofNat name.length) ++ name)))

/-- The `setup` of `serve`. -/
def setup (c : Ciphers) (cfg : FakeServerBuilder) : Rfb.Task Unit := do
  serverHandshake c cfg.security
  let _sharedFlag ← fill 1
  Conn.write (serverInit cfg.screen cfg.desktopName)

/-! ## What a login comes to -/

end Bolide.Testkit
