/-
Bolide.Rfb.Opening — the handshake against a server of RFC 6143.

`Opening` is what such a server says in sections 7.1 to 7.3: its version,
the security it offers, its challenge and its ServerInit. `Opening.sends` is
the server itself, as a function of the bytes it has received: it speaks the
dialect the client's version reply asks for, and sends each message when it
has what it waits for. A SecurityResult follows VNC authentication in every
dialect, and security None only in 3.8.

`interoperates_iff` says exactly when the client gets through. The client
waits for a SecurityResult after security None in 3.7 too, where none comes.
-/
import Bolide.Rfb.WireTheorems

namespace Bolide.Rfb

open Lib Prog

/-! ## The server -/

/-- What a server of RFC 6143 has to say. It offers security None or VNC
authentication, among others if it likes. -/
structure Opening where
  minor : Nat
  announced : UInt8
  offered : List UInt8
  challenge : List UInt8
  width : UInt16
  height : UInt16
  format : PixelFormat
  name : List UInt8
  /-- What the server sends of its own accord after ServerInit. -/
  later : List UInt8
  three_le_minor : 3 ≤ minor
  minor_lt : minor < 1000
  announced_mem : announced = securityNone ∨ announced = securityVncAuth
  offered_mem : securityNone ∈ offered ∨ securityVncAuth ∈ offered
  offered_lt : offered.length < 256
  length_challenge : challenge.length = 16
  length_name : name.length ≤ maxString

/-- An ASCII digit. -/
def digit (n : Nat) : UInt8 := UInt8.ofNat (48 + n)

/-- `RFB 003.xxx` and a newline. -/
def versionBanner (minor : Nat) : List UInt8 :=
  ascii "RFB 003." ++ [digit (minor / 100), digit (minor / 10 % 10), digit (minor % 10), 10]

namespace Opening

variable (o : Opening)

/-- ServerInit. -/
def serverInit : List UInt8 :=
  be16 o.width ++ (be16 o.height ++ (o.format.encode ++
    (be32 (UInt32.ofNat o.name.length) ++ o.name)))

/-- Once ClientInit has come. -/
def afterInit (received : List UInt8) : List UInt8 :=
  if received = [] then [] else o.serverInit ++ o.later

/-- Once the security type is settled. A type of another document ends the
conversation here. -/
def afterType (dialect : Nat) (type : UInt8) (received : List UInt8) : List UInt8 :=
  if type = securityNone then
    (if dialect = 8 then be32 securityResultOk else []) ++ o.afterInit received
  else if type = securityVncAuth then
    o.challenge ++ (if 16 ≤ received.length then
      be32 securityResultOk ++ o.afterInit (received.drop 16) else [])
  else []

/-- Once the client's version reply has come. -/
def afterVersion (reply received : List UInt8) : List UInt8 :=
  if reply = version3_3 then
    be32 o.announced.toUInt32 ++ o.afterType 3 o.announced received
  else
    let dialect := if reply = version3_7 then 7 else 8
    UInt8.ofNat o.offered.length :: (o.offered ++ match received with
      | [] => []
      | type :: received => o.afterType dialect type received)

/-- Everything the server has sent, once it has received so much. -/
def sends (received : List UInt8) : List UInt8 :=
  versionBanner o.minor ++
    if 12 ≤ received.length then o.afterVersion (received.take 12) (received.drop 12) else []

/-- The server as the far end of a connection it reads from. -/
def peer (ending : Ending) (draws : Nat → Except String (Nat → UInt8)) : Peer where
  sends := o.sends
  ending := ending
  takes := none
  draws := draws

/-! ## Interoperation -/

/-- The client's credentials are for what the server offers. The `Ard` mode
insists on Apple's type, and `Auto` prefers it when it has a user name; a
server of RFC 6143 does not authenticate by it. -/
def Accepts (config : Config) : Prop :=
  if o.minor ≤ 6 then o.announced = securityNone ∨ config.password.isSome
  else match config.auth with
    | .ard => False
    | .vnc => config.password.isSome ∧ securityVncAuth ∈ o.offered
    | .auto =>
        ¬ (config.username.isSome ∧ config.password.isSome ∧ securityArd ∈ o.offered) ∧
          ((config.password.isSome ∧ securityVncAuth ∈ o.offered) ∨ securityNone ∈ o.offered)

/-- The server speaks 3.7 and the client takes its security None. -/
def SkipsResult (config : Config) : Prop :=
  o.minor = 7 ∧ securityNone ∈ o.offered ∧
    ¬ (config.password.isSome ∧ securityVncAuth ∈ o.offered)

/-- The handshake returns what ServerInit says, and leaves unread exactly
what the server sent after it. -/
def Opened (out : Outcome ServerInit × Wire) : Prop :=
  out.1 = .ok { width := o.width, height := o.height, name := fromLatin1 o.name } ∧
    o.sends out.2.sent = out.2.got ++ o.later

end Opening

/-! ## The version banner -/

theorem digit_spec {d : Nat} (h : d < 10) : 48 ≤ digit d ∧ digit d ≤ 57 ∧ (digit d).toNat = 48 + d := by
  have hval : (digit d).toNat = 48 + d := by
    rw [digit, UInt8.toNat_ofNat']
    omega
  refine ⟨?_, ?_, hval⟩
  · rw [UInt8.le_iff_toNat_le, hval]
    simp
  · rw [UInt8.le_iff_toNat_le, hval]
    simp
    omega

/-- Digits denote the number they write. -/
theorem decimal_digits {ds : List Nat} (h : ∀ d ∈ ds, d < 10) :
    decimal (ds.map digit) = some (digitsBe 10 ds) := by
  induction ds using List.reverseRecOn with
  | nil => rfl
  | append_singleton ds d ih =>
      obtain ⟨hlow, hhigh, hval⟩ := digit_spec (h d (by simp))
      have hds := ih (fun e he => h e (by simp [he]))
      rw [decimal] at hds ⊢
      simp only [List.map_append, List.foldl_append, hds, List.map_cons, List.map_nil,
        List.foldl_cons, List.foldl_nil]
      simp [hlow, hhigh, hval, digitsBe_snoc]

theorem parseU32_digits {d : Nat} {ds : List Nat} (h : ∀ e ∈ d :: ds, e < 10)
    (hword : digitsBe 10 (d :: ds) < 2 ^ 32) :
    parseU32 ((d :: ds).map digit) = some (digitsBe 10 (d :: ds)) := by
  have hplus : digit d ≠ 43 := by
    have := (digit_spec (h d (by simp))).2.2
    intro h43
    rw [h43] at this
    simp at this
    omega
  have hdec := decimal_digits h
  unfold parseU32
  split
  · next rest heq => exact absurd (List.cons.inj heq).1 hplus
  · simp only [hdec]
    simpa using hword

theorem ascii_version : ascii "RFB 003." = [82, 70, 66, 32, 48, 48, 51, 46] := by decide

theorem length_versionBanner (minor : Nat) : (versionBanner minor).length = 12 := by
  simp [versionBanner, ascii_version]

/-- A banner is parsed as the version it states. -/
theorem parseVersion_banner {minor : Nat} (h : minor < 1000) :
    parseVersion (versionBanner minor) = some (3, minor) := by
  have hmajor : parseU32 [48, 48, 51] = some 3 := by decide
  have hdigits : digitsBe 10 [minor / 100, minor / 10 % 10, minor % 10] = minor := by
    simp [digitsBe]
    omega
  have hminor := @parseU32_digits (minor / 100) [minor / 10 % 10, minor % 10]
    (by simp; omega) (by rw [hdigits]; omega)
  rw [hdigits] at hminor
  simp only [List.map_cons, List.map_nil] at hminor
  have hrfb : ascii "RFB " = [82, 70, 66, 32] := by decide
  simp [parseVersion, versionBanner, ascii_version, hrfb, hmajor, hminor]

/-! ## The client's side, section by section -/

namespace Opening

variable {o : Opening} {crypto : Crypto} {config : Config} {ending : Ending}
  {draws : Nat → Except String (Nat → UInt8)} {timeout : Duration} {w : Wire} {dialect : Nat}
  {type : UInt8}

@[simp] theorem peer_sends : (o.peer ending draws).sends = o.sends := rfl

theorem sends_nil : o.sends [] = versionBanner o.minor := by simp [sends]

theorem sends_reply {reply : List UInt8} (hlen : reply.length = 12) (received : List UInt8) :
    o.sends (reply ++ received) = versionBanner o.minor ++ o.afterVersion reply received := by
  simp [sends, hlen, List.take_left' hlen, List.drop_left' hlen]

theorem not_opened {out : Outcome ServerInit × Wire} (h : ∃ e, out.1 = .error e) :
    ¬ o.Opened out := by
  obtain ⟨e, he⟩ := h
  intro hopened
  rw [hopened.1] at he
  cases he

theorem not_opened_short {n : Nat} {f : List UInt8 → Task ServerInit}
    (h : Serves (o.peer ending draws) w []) (hn : 0 < n) :
    ¬ o.Opened ((fill n >>= f).run (wire (o.peer ending draws) timeout) w) := by
  obtain ⟨e, he⟩ := run_fill_short timeout f h hn
  rw [he]
  exact not_opened ⟨e, rfl⟩

/-- The server waits for ClientInit. -/
def AwaitsInit (o : Opening) (w : Wire) : Prop :=
  ∀ received, o.sends (w.sent ++ received) = w.got ++ o.afterInit received

/-- The security type is settled. -/
def AtType (o : Opening) (dialect : Nat) (type : UInt8) (w : Wire) : Prop :=
  ∀ received, o.sends (w.sent ++ received) = w.got ++ o.afterType dialect type received

theorem opened_initialise (hw : o.AwaitsInit w) :
    o.Opened ((initialise config).run (wire (o.peer ending draws) timeout) w) := by
  have hword : o.name.length < 2 ^ 32 := by
    have h := o.length_name
    simp only [maxString] at h
    omega
  have hserves : Serves (o.peer ending draws) (w.wrote [if config.shared then 1 else 0])
      (o.serverInit ++ o.later) := hw [if config.shared then 1 else 0]
  simp only [serverInit, List.append_assoc] at hserves
  rw [initialise, run_write rfl, run_u16 hserves, run_u16 (serves_read hserves),
    run_fill (serves_read (serves_read hserves)) (PixelFormat.length_encode _),
    run_string o.length_name hword (serves_read (serves_read (serves_read hserves))),
    run_write rfl, run_write rfl]
  refine ⟨rfl, ?_⟩
  have hend := hw ([if config.shared then 1 else 0] ++ (setPixelFormat .rgbx32 ++
    setEncodings advertisedEncodings))
  simpa [afterInit, serverInit] using hend

/-- A zero SecurityResult lets the client go on. -/
theorem opened_result
    (hw : ∀ received, o.sends (w.sent ++ received)
      = w.got ++ (be32 securityResultOk ++ o.afterInit received)) :
    o.Opened ((readSecurityResult dialect >>= fun _ => initialise config).run
      (wire (o.peer ending draws) timeout) w) := by
  have hserves : Serves (o.peer ending draws) w (be32 securityResultOk ++ []) := by
    have h := hw []
    rwa [List.append_nil] at h
  rw [readSecurityResult, bind_assoc, run_u32 hserves, if_neg (by simp), pure_bind]
  apply opened_initialise
  intro received
  simpa using hw received

theorem opened_none (hw : o.AtType dialect securityNone w)
    (hdialect : dialect = 3 ∨ dialect = 7 ∨ dialect = 8) :
    o.Opened ((proceed crypto config dialect securityNone).run
      (wire (o.peer ending draws) timeout) w) ↔ dialect ≠ 7 := by
  have hauth : authenticate crypto config dialect securityNone = pure (!decide (dialect < 7)) := by
    rw [authenticate, if_neg (by decide), if_neg (by decide)]
  rw [proceed, hauth, pure_bind]
  rcases hdialect with rfl | rfl | rfl
  · have hinit : o.AwaitsInit w := fun received => by
      have h := hw received
      simpa [afterType] using h
    simpa using opened_initialise hinit
  · -- 3.7 sends no result, and the client waits for one
    have hserves : Serves (o.peer ending draws) w [] := by
      have h := hw []
      simpa [Serves, afterType, afterInit] using h
    have hshort {f : List UInt8 → Task ServerInit} :
        ¬ o.Opened ((fill 4 >>= f).run (wire (o.peer ending draws) timeout) w) :=
      not_opened_short hserves (by omega)
    simp [readSecurityResult, Conn.u32, bind_assoc, hshort]
  · have hresult : ∀ received, o.sends (w.sent ++ received)
        = w.got ++ (be32 securityResultOk ++ o.afterInit received) := fun received => by
      have h := hw received
      simpa [afterType] using h
    simpa using opened_result hresult

theorem opened_vnc (hw : o.AtType dialect securityVncAuth w) :
    o.Opened ((proceed crypto config dialect securityVncAuth).run
      (wire (o.peer ending draws) timeout) w) ↔ config.password.isSome := by
  have hauth : authenticate crypto config dialect securityVncAuth
      = vncAuthenticate crypto config >>= fun _ => pure true := by
    rw [authenticate, if_neg (by decide), if_pos rfl]
  rw [proceed, hauth, vncAuthenticate]
  cases config.password with
  | none => simpa using not_opened ⟨_, rfl⟩
  | some password =>
      have hserves : Serves (o.peer ending draws) w (o.challenge ++ []) := by
        have h := hw []
        simpa [Serves, afterType, securityVncAuth, securityNone] using h
      have hresponse := length_vncAuthResponse crypto.des password o.challenge
      rw [o.length_challenge] at hresponse
      simp only [bind_assoc]
      rw [run_fill hserves o.length_challenge, run_write rfl, pure_bind]
      simp only [Option.isSome_some, iff_true]
      apply opened_result
      intro received
      have h := hw (vncAuthResponse crypto.des password o.challenge ++ received)
      simpa [afterType, securityVncAuth, securityNone, hresponse, List.drop_left' hresponse] using h

theorem not_opened_ard (hw : o.AtType dialect securityArd w) :
    ¬ o.Opened ((proceed crypto config dialect securityArd).run
      (wire (o.peer ending draws) timeout) w) := by
  have hserves : Serves (o.peer ending draws) w [] := by
    have h := hw []
    simpa [Serves, afterType, securityArd, securityNone, securityVncAuth] using h
  rw [proceed, authenticate, if_pos rfl, ardAuthenticate]
  cases config.username with
  | none => exact not_opened ⟨_, rfl⟩
  | some username =>
      cases config.password with
      | none => exact not_opened ⟨_, rfl⟩
      | some password =>
          simp only [Conn.u16, bind_assoc]
          exact not_opened_short hserves (by omega)

/-- Once the client has answered the banner, the server has said what its
dialect says first. -/
theorem run_greeting {reply : List UInt8} (hlen : reply.length = 12)
    (hn : negotiate o.minor = (reply, dialect)) :
    ∃ w, (∀ received, o.sends (w.sent ++ received) = w.got ++ o.afterVersion reply received) ∧
      runHandshake crypto config (o.peer ending draws) =
        (readSecurity config dialect >>= proceed crypto config dialect).run
          (wire (o.peer ending draws) config.timeout) w := by
  have hserves : Serves (o.peer ending draws) .new (versionBanner o.minor ++ []) := by
    simp [Serves, Wire.new, sends_nil]
  refine ⟨(Wire.new.read (versionBanner o.minor)).wrote reply, sends_reply hlen, ?_⟩
  rw [runHandshake, handshake, run_readVersion hserves (length_versionBanner _)
    (parseVersion_banner o.minor_lt) o.three_le_minor hn, run_write rfl]

/-- In 3.3 the client acts on the type announced. -/
theorem opened_announced
    (hw : ∀ received, o.sends (w.sent ++ received) = w.got ++ o.afterVersion version3_3 received) :
    o.Opened ((announcedSecurity >>= proceed crypto config 3).run
      (wire (o.peer ending draws) timeout) w) ↔
      o.announced = securityNone ∨ config.password.isSome := by
  have hserves : Serves (o.peer ending draws) w
      (be32 o.announced.toUInt32 ++ o.afterType 3 o.announced []) := by
    have h := hw []
    simpa [Serves, afterVersion] using h
  have htype : o.AtType 3 o.announced (w.read (be32 o.announced.toUInt32)) := fun received => by
    have h := hw received
    simpa [afterVersion] using h
  have hrun : (announcedSecurity >>= proceed crypto config 3).run (wire (o.peer ending draws) timeout) w
      = (proceed crypto config 3 o.announced).run (wire (o.peer ending draws) timeout)
          (w.read (be32 o.announced.toUInt32)) := by
    rw [announcedSecurity, bind_assoc, run_u32 hserves]
    rcases o.announced_mem with h | h
    · rw [h]
      rfl
    · rw [h]
      rfl
  rw [hrun]
  rcases o.announced_mem with h | h
  · rw [h] at htype ⊢
    rw [opened_none htype (.inl rfl)]
    simp
  · rw [h] at htype ⊢
    rw [opened_vnc htype]
    simp [securityVncAuth, securityNone]

/-- From 3.7 on the client acts on the type it prefers. -/
theorem opened_chosen {reply : List UInt8}
    (hdialect : (reply = version3_7 ∧ dialect = 7) ∨ (reply = version3_8 ∧ dialect = 8))
    (hw : ∀ received, o.sends (w.sent ++ received) = w.got ++ o.afterVersion reply received) :
    o.Opened ((chooseSecurity config >>= proceed crypto config dialect).run
      (wire (o.peer ending draws) timeout) w) ↔
      (preferred config o.offered = .ok securityNone ∧ dialect ≠ 7) ∨
        (preferred config o.offered = .ok securityVncAuth ∧ config.password.isSome) := by
  have hafter (received : List UInt8) : o.afterVersion reply received =
      UInt8.ofNat o.offered.length :: (o.offered ++ match received with
        | [] => []
        | type :: received => o.afterType dialect type received) := by
    have h73 : version3_7 ≠ version3_3 := by decide
    have h83 : version3_8 ≠ version3_3 := by decide
    have h87 : version3_8 ≠ version3_7 := by decide
    rcases hdialect with ⟨rfl, rfl⟩ | ⟨rfl, rfl⟩
    · simp [afterVersion, h73]
    · simp [afterVersion, h83, h87]
  have hcount : (UInt8.ofNat o.offered.length).toNat = o.offered.length := by
    rw [UInt8.toNat_ofNat']
    exact Nat.mod_eq_of_lt o.offered_lt
  have hsome : UInt8.ofNat o.offered.length ≠ 0 := by
    intro h
    have hlen : o.offered.length = 0 := by rw [← hcount, h]; rfl
    rcases o.offered_mem with hmem | hmem
    · exact absurd (List.length_pos_of_mem hmem) (by omega)
    · exact absurd (List.length_pos_of_mem hmem) (by omega)
  have hserves : Serves (o.peer ending draws) w
      (UInt8.ofNat o.offered.length :: (o.offered ++ [])) := by
    have h := hw []
    rw [hafter, List.append_nil] at h
    simpa [Serves] using h
  rw [chooseSecurity, bind_assoc, run_u8 hserves, if_neg hsome, Conn.bytes, bind_assoc,
    run_fill (serves_read (List.singleton_append ▸ hserves)) hcount.symm, bind_assoc]
  cases hp : preferred config o.offered with
  | error e => simpa using not_opened ⟨e, rfl⟩
  | ok type =>
      rw [ofExcept_ok, ret_bind, bind_assoc, run_write rfl, pure_bind]
      have htype : o.AtType dialect type
          (((w.read [UInt8.ofNat o.offered.length]).read o.offered).wrote [type]) := fun received => by
        have h := hw (type :: received)
        rw [hafter] at h
        simpa using h
      have h7 : dialect = 3 ∨ dialect = 7 ∨ dialect = 8 := by tauto
      rcases (preferred_mem hp).2 with rfl | rfl | rfl
      · rw [opened_none htype h7]
        simp [securityVncAuth, securityNone]
      · rw [opened_vnc htype]
        simp [securityVncAuth, securityNone]
      · simpa [securityArd, securityVncAuth, securityNone] using not_opened_ard htype

/-- The client takes a type that gets it through exactly when its credentials
suit the offer and it does not skip 3.7's result. -/
theorem taken_iff (hminor : 7 ≤ o.minor) {dialect : Nat} (hdialect : dialect = 7 ↔ o.minor = 7) :
    ((preferred config o.offered = .ok securityNone ∧ dialect ≠ 7) ∨
        (preferred config o.offered = .ok securityVncAuth ∧ config.password.isSome)) ↔
      o.Accepts config ∧ ¬ o.SkipsResult config := by
  have h6 : ¬ o.minor ≤ 6 := by omega
  have han : securityArd ≠ securityNone := by decide
  have hav : securityArd ≠ securityVncAuth := by decide
  have hvn : securityVncAuth ≠ securityNone := by decide
  rw [Accepts, if_neg h6, SkipsResult, ne_eq, hdialect]
  unfold preferred
  cases config.auth with
  | ard =>
      by_cases ha : securityArd ∈ o.offered
      · simp [ha, han, hav]
      · simp [ha]
  | vnc =>
      by_cases hv : securityVncAuth ∈ o.offered
      · cases config.password with
        | none => simp [hv, hvn]
        | some password => simp [hv, hvn]
      · simp [hv]
  | auto =>
      cases config.password with
      | none =>
          by_cases hn : securityNone ∈ o.offered
          · simp [hn]
          · by_cases hv : securityVncAuth ∈ o.offered
            · simp [hn, hv, hvn]
            · simp [hn, hv]
      | some password =>
          by_cases ha : config.username.isSome ∧ securityArd ∈ o.offered
          · simp [ha, han, hav]
          · by_cases hv : securityVncAuth ∈ o.offered
            · by_cases hu : config.username.isSome
              · have ha' : securityArd ∉ o.offered := fun h => ha ⟨hu, h⟩
                simp [ha', hv, hvn]
              · simp [hu, hv, hvn]
            · have hn : securityNone ∈ o.offered := o.offered_mem.resolve_right hv
              by_cases hu : config.username.isSome
              · have ha' : securityArd ∉ o.offered := fun h => ha ⟨hu, h⟩
                simp [ha', hv, hn, hvn.symm]
              · simp [hu, hv, hn, hvn.symm]

/-! ## Interoperation -/

/-- The client opens a session with a server of RFC 6143 exactly when the
server accepts its credentials and does not leave out a result it waits
for. -/
theorem opened_iff (o : Opening) (crypto : Crypto) (config : Config) (ending : Ending)
    (draws : Nat → Except String (Nat → UInt8)) :
    o.Opened (runHandshake crypto config (o.peer ending draws)) ↔
      o.Accepts config ∧ ¬ o.SkipsResult config := by
  have hlow := o.three_le_minor
  rcases hn : negotiate o.minor with ⟨reply, dialect⟩
  rcases negotiate_cases hn with ⟨hminor, rfl, rfl⟩ | ⟨hminor, rfl, rfl⟩ | ⟨hminor, rfl, rfl⟩
  · obtain ⟨w, hw, hrun⟩ := run_greeting (by decide) hn
    rw [hrun, readSecurity, if_neg (by omega), opened_announced hw, Accepts, if_pos hminor]
    have h7 : ¬ o.SkipsResult config := fun h => by
      have := h.1
      omega
    simp [h7]
  · obtain ⟨w, hw, hrun⟩ := run_greeting (by decide) hn
    rw [hrun, readSecurity, if_pos (by omega), opened_chosen (.inl ⟨rfl, rfl⟩) hw,
      taken_iff (by omega) (by omega)]
  · obtain ⟨w, hw, hrun⟩ := run_greeting (by decide) hn
    rw [hrun, readSecurity, if_pos (by omega), opened_chosen (.inr ⟨rfl, rfl⟩) hw,
      taken_iff (by omega) (by omega)]

/-- A 3.7 server that offers security None. -/
def open37 : Opening where
  minor := 7
  announced := securityNone
  offered := [securityNone]
  challenge := List.replicate 16 0
  width := 2
  height := 1
  format := .rgbx32
  name := [104, 105]
  later := []
  three_le_minor := by decide
  minor_lt := by decide
  announced_mem := .inl rfl
  offered_mem := .inl (by decide)
  offered_lt := by decide
  length_challenge := rfl
  length_name := by decide

/-- The client takes security None, and then waits for a result the server
does not send. -/
theorem not_opened_open37 :
    open37.Accepts .default ∧
      runHandshake .null .default (open37.peer .silent (fun _ => .error "none")) =
        (.error (.err (.timeout 10000000000)),
          { got := versionBanner 7 ++ [1, securityNone], sent := version3_7 ++ [securityNone],
            drawn := 0 }) ∧
      ¬ open37.Opened
        (runHandshake .null .default (open37.peer .silent (fun _ => .error "none"))) := by
  have hrun : runHandshake .null .default (open37.peer .silent (fun _ => .error "none")) =
      (.error (.err (.timeout 10000000000)),
        { got := versionBanner 7 ++ [1, securityNone], sent := version3_7 ++ [securityNone],
          drawn := 0 }) := by decide +kernel
  refine ⟨?_, hrun, ?_⟩
  · rw [Accepts, if_neg (by decide)]
    exact ⟨by decide, .inr (by decide)⟩
  · rw [hrun]
    exact not_opened ⟨_, rfl⟩

end Opening

end Bolide.Rfb
