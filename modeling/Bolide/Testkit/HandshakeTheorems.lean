/-
Bolide.Testkit.HandshakeTheorems — how a session with the fake server opens.

By `Lib.Duplex` one schedule stands for all, so the two programs are walked
through together: each lemma of the first part takes one operation of one end
off the front. The walk has the shape of the protocol. Versions and types
come first (`greeted`), then one section for each security type, and
ClientInit and ServerInit last (`opened`).
-/
import Bolide.Testkit.Handshake

namespace Bolide.Testkit

open Lib Rfb Prog

/-! ## One operation at a time -/

/-- A client and the fake server, somewhere in the opening. -/
abbrev Meeting := Duplex SessionSig Stop ServerInit Nat SessionSig Stop Unit Nat UInt8

/-- The operations come to an end of which `P` holds. -/
def Comes (draws : Nat → Except String (Nat → UInt8)) (m : Meeting) (P : Meeting → Prop) : Prop :=
  ∃ e, Duplex.Ends (connActs draws) (connActs draws) m e ∧ P e

section Walk

variable {draws : Nat → Except String (Nat → UInt8)} {P : Meeting → Prop} {drawn drawn' : Nat}
  {client : Rfb.Task ServerInit} {server : Rfb.Task Unit} {toLeft toRight bytes : List UInt8} {n : Nat}

theorem Comes.left {left : End SessionSig Stop ServerInit Nat} {right : End SessionSig Stop Unit Nat}
    {left' : End SessionSig Stop ServerInit Nat} {rest written : List UInt8}
    (hstep : advance (connActs draws) right.prog.over left toLeft = some (left', rest, written))
    (h : Comes draws ⟨left', right, rest, toRight ++ written⟩ P) :
    Comes draws ⟨left, right, toLeft, toRight⟩ P :=
  h.imp (fun _ h => ⟨⟨.head (.left hstep) h.1.runs, h.1.still⟩, h.2⟩)

theorem Comes.right {left : End SessionSig Stop ServerInit Nat} {right : End SessionSig Stop Unit Nat}
    {right' : End SessionSig Stop Unit Nat} {rest written : List UInt8}
    (hstep : advance (connActs draws) left.prog.over right toRight = some (right', rest, written))
    (h : Comes draws ⟨left, right', toLeft ++ written, rest⟩ P) :
    Comes draws ⟨left, right, toLeft, toRight⟩ P :=
  h.imp (fun _ h => ⟨⟨.head (.right hstep) h.1.runs, h.1.still⟩, h.2⟩)

/-- A read of what is in flight. -/
theorem advance_fill {β : Type} {f : List UInt8 → Rfb.Task β} {closed : Bool}
    (hn : bytes.length = n) (rest : List UInt8) :
    advance (connActs draws) closed ⟨fill n >>= f, drawn⟩ (bytes ++ rest) =
      some (⟨f bytes, drawn⟩, rest, []) := by
  subst hn
  simp only [fill, op, step_bind, ret_bind, advance, connActs]
  rw [if_pos (by simp), List.take_left, List.drop_left]
  rfl

/-- A read that the far end has left unanswered. -/
theorem advance_fill_eof {β : Type} {f : List UInt8 → Rfb.Task β} (hn : bytes.length < n) :
    advance (connActs draws) true ⟨fill n >>= f, drawn⟩ bytes =
      some (⟨.fail (.err (.io "early eof")), drawn⟩, bytes, []) := by
  simp only [fill, op, step_bind, ret_bind, advance, connActs]
  rw [if_neg (by omega)]
  rfl

theorem advance_write {β : Type} {f : Unit → Rfb.Task β} {closed : Bool} (arrived : List UInt8) :
    advance (connActs draws) closed ⟨Conn.write bytes >>= f, drawn⟩ arrived =
      some (⟨f (), drawn⟩, arrived, bytes) := rfl

theorem client_fill {f : List UInt8 → Rfb.Task ServerInit} (bytes rest : List UInt8)
    (harrived : toLeft = bytes ++ rest) (hn : bytes.length = n)
    (h : Comes draws ⟨⟨f bytes, drawn⟩, ⟨server, drawn'⟩, rest, toRight⟩ P) :
    Comes draws ⟨⟨fill n >>= f, drawn⟩, ⟨server, drawn'⟩, toLeft, toRight⟩ P := by
  subst harrived
  exact .left (advance_fill hn rest) (by rwa [List.append_nil])

theorem client_write {f : Unit → Rfb.Task ServerInit}
    (h : Comes draws ⟨⟨f (), drawn⟩, ⟨server, drawn'⟩, toLeft, toRight ++ bytes⟩ P) :
    Comes draws ⟨⟨Conn.write bytes >>= f, drawn⟩, ⟨server, drawn'⟩, toLeft, toRight⟩ P :=
  .left (advance_write toLeft) h

theorem server_fill {f : List UInt8 → Rfb.Task Unit} (bytes rest : List UInt8)
    (harrived : toRight = bytes ++ rest) (hn : bytes.length = n)
    (h : Comes draws ⟨⟨client, drawn⟩, ⟨f bytes, drawn'⟩, toLeft, rest⟩ P) :
    Comes draws ⟨⟨client, drawn⟩, ⟨fill n >>= f, drawn'⟩, toLeft, toRight⟩ P := by
  subst harrived
  exact .right (advance_fill hn rest) (by rwa [List.append_nil])

theorem server_write {f : Unit → Rfb.Task Unit}
    (h : Comes draws ⟨⟨client, drawn⟩, ⟨f (), drawn'⟩, toLeft ++ bytes, toRight⟩ P) :
    Comes draws ⟨⟨client, drawn⟩, ⟨Conn.write bytes >>= f, drawn'⟩, toLeft, toRight⟩ P :=
  .right (advance_write toRight) h

/-- The last operation of the server. -/
theorem server_last
    (h : Comes draws ⟨⟨client, drawn⟩, ⟨.ret (), drawn'⟩, toLeft ++ bytes, toRight⟩ P) :
    Comes draws ⟨⟨client, drawn⟩, ⟨Conn.write bytes, drawn'⟩, toLeft, toRight⟩ P := by
  have hstep : advance (connActs draws) client.over ⟨Conn.write bytes, drawn'⟩ toRight =
      some (⟨.ret (), drawn'⟩, toRight, bytes) := rfl
  exact .right hstep h

theorem client_u8 {f : UInt8 → Rfb.Task ServerInit} (b : UInt8) (rest : List UInt8)
    (harrived : toLeft = b :: rest)
    (h : Comes draws ⟨⟨f b, drawn⟩, ⟨server, drawn'⟩, rest, toRight⟩ P) :
    Comes draws ⟨⟨Conn.u8 >>= f, drawn⟩, ⟨server, drawn'⟩, toLeft, toRight⟩ P := by
  rw [Conn.u8, bind_assoc]
  exact client_fill [b] rest harrived rfl h

theorem client_u16 {f : UInt16 → Rfb.Task ServerInit} (v : UInt16) (rest : List UInt8)
    (harrived : toLeft = be16 v ++ rest)
    (h : Comes draws ⟨⟨f v, drawn⟩, ⟨server, drawn'⟩, rest, toRight⟩ P) :
    Comes draws ⟨⟨Conn.u16 >>= f, drawn⟩, ⟨server, drawn'⟩, toLeft, toRight⟩ P := by
  rw [Conn.u16, bind_assoc]
  refine client_fill (be16 v) rest harrived (length_be16 v) ?_
  rw [ofBe16_be16]
  exact h

theorem client_u32 {f : UInt32 → Rfb.Task ServerInit} (v : UInt32) (rest : List UInt8)
    (harrived : toLeft = be32 v ++ rest)
    (h : Comes draws ⟨⟨f v, drawn⟩, ⟨server, drawn'⟩, rest, toRight⟩ P) :
    Comes draws ⟨⟨Conn.u32 >>= f, drawn⟩, ⟨server, drawn'⟩, toLeft, toRight⟩ P := by
  rw [Conn.u32, bind_assoc]
  refine client_fill (be32 v) rest harrived (length_be32 v) ?_
  rw [ofBe32_be32]
  exact h

theorem client_string {cap : Nat} {f : String → Rfb.Task ServerInit} (text rest : List UInt8)
    (harrived : toLeft = be32 (UInt32.ofNat text.length) ++ (text ++ rest))
    (hcap : text.length ≤ cap) (hword : text.length < 2 ^ 32)
    (h : Comes draws ⟨⟨f (fromLatin1 text), drawn⟩, ⟨server, drawn'⟩, rest, toRight⟩ P) :
    Comes draws ⟨⟨Conn.string cap >>= f, drawn⟩, ⟨server, drawn'⟩, toLeft, toRight⟩ P := by
  have hlen : (UInt32.ofNat text.length).toNat = text.length := by
    rw [UInt32.toNat_ofNat']
    exact Nat.mod_eq_of_lt hword
  rw [Conn.string, bind_assoc]
  refine client_u32 (UInt32.ofNat text.length) (text ++ rest) harrived ?_
  rw [if_neg (by omega), bind_assoc]
  exact client_fill text rest rfl hlen.symm h

theorem server_u8 {f : UInt8 → Rfb.Task Unit} (b : UInt8) (rest : List UInt8)
    (harrived : toRight = b :: rest)
    (h : Comes draws ⟨⟨client, drawn⟩, ⟨f b, drawn'⟩, toLeft, rest⟩ P) :
    Comes draws ⟨⟨client, drawn⟩, ⟨Conn.u8 >>= f, drawn'⟩, toLeft, toRight⟩ P := by
  rw [Conn.u8, bind_assoc]
  exact server_fill [b] rest harrived rfl h

/-- A server that is left waiting fails. -/
theorem server_eof {stop : Stop} {f : List UInt8 → Rfb.Task Unit} (hn : toRight.length < n)
    (h : Comes draws ⟨⟨.fail stop, drawn⟩, ⟨.fail (.err (.io "early eof")), drawn'⟩, toLeft, toRight⟩ P) :
    Comes draws ⟨⟨.fail stop, drawn⟩, ⟨fill n >>= f, drawn'⟩, toLeft, toRight⟩ P :=
  .right (advance_fill_eof hn) (by rwa [List.append_nil])

/-- Both ends are over. -/
theorem comes_over {left : End SessionSig Stop ServerInit Nat} {right : End SessionSig Stop Unit Nat}
    (hleft : left.prog.over = true) (hright : right.prog.over = true)
    (h : P ⟨left, right, toLeft, toRight⟩) : Comes draws ⟨left, right, toLeft, toRight⟩ P :=
  ⟨_, ⟨.refl, Duplex.still_of_over hleft hright⟩, h⟩

end Walk

/-! ## Text that arrives as it was sent -/

section Opening

variable {c : Ciphers} {config : Config} {cfg : FakeServerBuilder}
  {draws : Nat → Except String (Nat → UInt8)} {P : Meeting → Prop} {drawn drawn' : Nat}

/-- A client and the fake server that have just connected. -/
def meeting (c : Ciphers) (config : Config) (cfg : FakeServerBuilder) : Meeting :=
  connection (handshake c.crypto config) ⟨setup c cfg, 0⟩

/-- What is left of `setup` once the client is let in. -/
def welcome (cfg : FakeServerBuilder) : Rfb.Task Unit := do
  let _sharedFlag ← fill 1
  Conn.write (serverInit cfg.screen cfg.desktopName)

theorem length_offered (security : Security) : security.offered.length = 1 := by
  cases security <;> rfl

/-- Versions, and the types on offer. -/
theorem greeted (h : Comes draws
    ⟨⟨ofExcept (preferred config cfg.security.offered) >>= fun chosen =>
        Conn.write [chosen] >>= fun _ => proceed c.crypto config 8 chosen, 0⟩,
      ⟨Conn.u8 >>= fun chosen =>
        (if cfg.security.offered.contains chosen = true then checkSecurity c cfg.security
          else failSecurity noneInCommon) >>= fun _ => welcome cfg, 0⟩, [], []⟩ P) :
    Comes draws (meeting c config cfg) P := by
  have hversion : parseVersion version3_8 = some (3, 8) := by decide
  have hnegotiate : negotiate 8 = (version3_8, 8) := rfl
  have hlength : version3_8.length = 12 := by decide
  have hcount : UInt8.ofNat cfg.security.offered.length ≠ 0 := by
    rw [length_offered]
    decide
  simp only [meeting, connection, setup, serverHandshake, handshake, readVersion, bind_assoc]
  refine server_write (client_fill version3_8 [] (by simp) hlength ?_)
  rw [hversion]
  simp only
  rw [if_neg (by decide), hnegotiate]
  simp only [bind_assoc, pure_eq, ret_bind]
  refine client_write (server_fill version3_8 [] (by simp) hlength (server_write ?_))
  rw [readSecurity, if_pos (by decide), chooseSecurity]
  simp only [bind_assoc]
  refine client_u8 (UInt8.ofNat cfg.security.offered.length) cfg.security.offered (by simp) ?_
  rw [if_neg hcount, Conn.bytes, bind_assoc]
  refine client_fill cfg.security.offered [] (by simp) (by rw [length_offered]; rfl) ?_
  simpa only [welcome, bind_assoc, pure_eq, ret_bind] using h

/-- What a client knows of the session it has opened. -/
def FakeServerBuilder.init (cfg : FakeServerBuilder) : ServerInit where
  width := cfg.screen.width
  height := cfg.screen.height
  name := fromLatin1 cfg.desktopName.toUTF8.toList

/-- The client is let in, and what it has written and the server has not read
are the two messages a session begins with. -/
structure LetIn (cfg : FakeServerBuilder) (e : Meeting) : Prop where
  client : e.left.prog = .ret cfg.init
  server : e.right.prog = .ret ()
  toClient : e.toLeft = []
  toServer : e.toRight = setPixelFormat .rgbx32 ++ setEncodings advertisedEncodings

/-- The client is told why it is not let in, and the server waits for it no
longer. -/
structure TurnedAway (err : Error) (e : Meeting) : Prop where
  client : e.left.prog = .fail (.err err)
  server : e.right.prog.over = true

/-- ClientInit and ServerInit, once the login is accepted. -/
theorem opened (hname : cfg.desktopName.utf8ByteSize ≤ maxString) :
    Comes draws ⟨⟨readSecurityResult 8 >>= fun _ => initialise config, drawn⟩,
      ⟨Conn.write (be32 securityResultOk) >>= fun _ => welcome cfg, drawn'⟩, [], []⟩ (LetIn cfg) := by
  have hlen : cfg.desktopName.toUTF8.toList.length ≤ maxString := by
    rwa [Text.length_toUTF8_toList]
  have hword : cfg.desktopName.toUTF8.toList.length < 2 ^ 32 := by
    rw [maxString] at hlen
    omega
  refine server_write ?_
  rw [readSecurityResult, bind_assoc]
  refine client_u32 securityResultOk [] (by simp) ?_
  rw [if_neg (by simp), pure_eq, ret_bind, initialise, welcome]
  refine client_write (server_fill [if config.shared then 1 else 0] [] (by simp) rfl ?_)
  refine server_last ?_
  rw [serverInit, List.nil_append]
  refine client_u16 cfg.screen.width _ rfl (client_u16 cfg.screen.height _ rfl ?_)
  refine client_fill PixelFormat.rgbx32.encode _ rfl rfl ?_
  refine client_string cfg.desktopName.toUTF8.toList [] (by simp) hlen hword ?_
  refine client_write (client_write ?_)
  exact comes_over rfl rfl ⟨rfl, rfl, rfl, by simp⟩

/-- A client that finds nothing it can take goes away, and the server is told
that nothing more comes. -/
theorem refused (hpreferred : preferred config cfg.security.offered =
      .error (.err (.noSupportedSecurity cfg.security.offered))) :
    Comes draws (meeting c config cfg) (TurnedAway (.noSupportedSecurity cfg.security.offered)) := by
  refine greeted ?_
  rw [hpreferred, ofExcept_error, fail_bind, Conn.u8, bind_assoc]
  exact server_eof (by decide) (comes_over rfl rfl ⟨rfl, rfl⟩)

/-- The client takes the one type there is. -/
theorem taken {chosen : UInt8} (hoffered : cfg.security.offered = [chosen])
    (hpreferred : preferred config [chosen] = .ok chosen)
    (h : Comes draws ⟨⟨proceed c.crypto config 8 chosen, 0⟩,
      ⟨checkSecurity c cfg.security >>= fun _ => welcome cfg, 0⟩, [], []⟩ P) :
    Comes draws (meeting c config cfg) P := by
  refine greeted ?_
  rw [hoffered, hpreferred, ofExcept_ok, ret_bind]
  refine client_write (server_u8 chosen [] rfl ?_)
  rwa [if_pos (by simp)]

/-- The exchange of VNC authentication, up to what the server says of it. -/
theorem answered {given : String} {judge : List UInt8 → Rfb.Task Unit}
    (hpassword : config.password = some given)
    (h : Comes draws ⟨⟨readSecurityResult 8 >>= fun _ => initialise config, 0⟩,
      ⟨judge (vncAuthResponse c.des given challenge) >>= fun _ => welcome cfg, 0⟩, [], []⟩ P) :
    Comes draws ⟨⟨proceed c.crypto config 8 securityVncAuth, 0⟩,
      ⟨(Conn.write challenge >>= fun _ => fill 16 >>= judge) >>= fun _ => welcome cfg, 0⟩, [], []⟩ P := by
  rw [proceed, authenticate, if_neg (by decide), if_pos rfl, vncAuthenticate, hpassword]
  simp only [bind_assoc, pure_eq, ret_bind, if_true]
  refine server_write (client_fill challenge [] rfl rfl (client_write ?_))
  exact server_fill (vncAuthResponse c.des given challenge) [] (List.append_nil _).symm
    (length_vncAuthResponse c.des given challenge) h

/-- A client without a password fails before it answers. -/
theorem unanswered {f : Unit → List UInt8 → Rfb.Task Unit} (hpassword : config.password = none) :
    Comes draws ⟨⟨proceed c.crypto config 8 securityVncAuth, 0⟩,
      ⟨(Conn.write challenge >>= fun done => fill 16 >>= f done) >>= fun _ => welcome cfg, 0⟩, [], []⟩
      (TurnedAway .passwordRequired) := by
  rw [proceed, authenticate, if_neg (by decide), if_pos rfl, vncAuthenticate, hpassword]
  simp only [bind_assoc, fail_bind]
  exact server_write (server_eof (by decide) (comes_over rfl rfl ⟨rfl, rfl⟩))

/-- Which of the two a verdict comes to. -/
def Settled (cfg : FakeServerBuilder) : Except Error Unit → Meeting → Prop
  | .ok (), e => LetIn cfg e
  | .error err, e => TurnedAway err e

end Opening

/-! ## Every server, every client -/

/-- A small desk that wants its user's login. -/
def FakeServerBuilder.desk : FakeServerBuilder where
  encoding := .raw
  screen := .solid 4 2 ⟨0, 0, 0, 255⟩
  zrleTiling := .auto
  security := .ard "admin" "secret"
  desktopName := "desk"

end Bolide.Testkit
