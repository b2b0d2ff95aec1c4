/-
Bolide.Rfb.HandshakeTheorems — what the client says to any server.

`Said` is the protocol the client may speak, as a relation: in which stage
it is, after reading so much and writing so much. Each constructor is one
exchange, with what must have been read, and what must be configured, before
the client writes its part. `Speaks` says that a connection is at some point
of it, the last message possibly cut short.

The handshake is checked against `Said` section by section, in the
discipline `hearing`, so the result holds in every state of every run: the
client has never written anything that what it had read by then does not
call for.
-/
import Bolide.Rfb.WireTheorems

namespace Bolide.Rfb

open Lib Prog

/-! ## The protocol -/

/-- How far the opening has come. -/
inductive Stage where
  | hello
  | greeted (dialect : Nat)
  | chosen (dialect : Nat) (type : UInt8)
  | proved (dialect : Nat) (type : UInt8)
  | admitted
  | begun
  | formatted
  | done

/-- The version reply to a banner is due in this dialect. -/
def Greets (banner : List UInt8) (dialect : Nat) (reply : List UInt8) : Prop :=
  ∃ minor, banner.length = 12 ∧ parseVersion banner = some (3, minor) ∧ 3 ≤ minor ∧
    negotiate minor = (reply, dialect)

/-- Whether a SecurityResult follows: only 3.3's security None has none. -/
def Expects (dialect : Nat) (type : UInt8) : Prop := ¬ (dialect < 7 ∧ type = securityNone)

/-- What the client has said in reply to what. -/
inductive Said (crypto : Crypto) (config : Config) : Stage → List UInt8 → List UInt8 → Prop
  | hello : Said crypto config .hello [] []
  | version {banner dialect reply} (hgreets : Greets banner dialect reply) :
      Said crypto config (.greeted dialect) banner reply
  | listed {dialect got sent count offered type}
      (h : Said crypto config (.greeted dialect) got sent) (hdialect : 7 ≤ dialect)
      (hcount : offered.length = count.toNat) (hmem : type ∈ offered) (htype : Supported type) :
      Said crypto config (.chosen dialect type) (got ++ [count] ++ offered) (sent ++ [type])
  | announced {dialect got sent type}
      (h : Said crypto config (.greeted dialect) got sent) (hdialect : dialect < 7)
      (htype : type = securityNone ∨ type = securityVncAuth) :
      Said crypto config (.chosen dialect type) (got ++ be32 type.toUInt32) sent
  | none {dialect got sent} (h : Said crypto config (.chosen dialect securityNone) got sent) :
      Said crypto config (.proved dialect securityNone) got sent
  | vnc {dialect got sent password challenge}
      (h : Said crypto config (.chosen dialect securityVncAuth) got sent)
      (hpassword : config.password = some password) (hchallenge : challenge.length = 16) :
      Said crypto config (.proved dialect securityVncAuth) (got ++ challenge)
        (sent ++ vncAuthResponse crypto.des password challenge)
  | ard {dialect got sent username password generator keyLen prime serverPublic private' filler out}
      (h : Said crypto config (.chosen dialect securityArd) got sent)
      (husername : config.username = some username) (hpassword : config.password = some password)
      (hprime : prime.length = keyLen.toNat) (hpublic : serverPublic.length = keyLen.toNat)
      (hresponse : Ard.clientResponse crypto.md5 crypto.aes generator.toUInt32 prime serverPublic
        username password private' filler = .ok (.ok out))
      (hlength : out.length = Ard.credentialLen + keyLen.toNat) :
      Said crypto config (.proved dialect securityArd)
        (got ++ be16 generator ++ be16 keyLen ++ prime ++ serverPublic) (sent ++ out)
  | result {dialect type got sent} (h : Said crypto config (.proved dialect type) got sent)
      (hexpects : Expects dialect type) :
      Said crypto config .admitted (got ++ be32 securityResultOk) sent
  | trusted {dialect type got sent} (h : Said crypto config (.proved dialect type) got sent)
      (hexpects : ¬ Expects dialect type) : Said crypto config .admitted got sent
  | init {got sent} (h : Said crypto config .admitted got sent) :
      Said crypto config .begun got (sent ++ [if config.shared then 1 else 0])
  | format {got sent format len name} (width height : UInt16)
      (h : Said crypto config .begun got sent) (hformat : format.length = 16)
      (hname : name.length = len.toNat) (hcap : len.toNat ≤ maxString) :
      Said crypto config .formatted
        (got ++ be16 width ++ be16 height ++ format ++ be32 len ++ name)
        (sent ++ setPixelFormat .rgbx32)
  | encodings {got sent} (h : Said crypto config .formatted got sent) :
      Said crypto config .done got (sent ++ setEncodings advertisedEncodings)

/-- The connection is at some point of the protocol: what was written is
called for by what was read of the stream, and the last message may be cut
short. -/
def Speaks (crypto : Crypto) (config : Config) (stream : List UInt8) (w : Wire) : Prop :=
  w.got <+: stream ∧
    ∃ stage got sent, got <+: w.got ∧ Said crypto config stage got sent ∧ w.sent <+: sent

/-- A 3.3 server has announced a type that is neither None nor VNC auth. -/
def Announces (stream : List UInt8) (type : UInt32) : Prop :=
  ∃ banner reply rest, stream = banner ++ (be32 type ++ rest) ∧ Greets banner 3 reply

/-- An announced type other than 1 and 2, once read, is refused. -/
def Refuses (stream : List UInt8) (r : Outcome ServerInit × Wire) : Prop :=
  ∀ type, Announces stream type → type ≠ 1 → type ≠ 2 → 16 ≤ r.2.got.length →
    (∃ e, r.1 = .error e) ∧
    (type ≠ 0 → ∃ offered, r.1 = .error (.err (.noSupportedSecurity offered)))

/-- The handshake is safe against a far end that sends `stream`: the client
is within the protocol in every state of the run, and refuses a type it does
not have. -/
structure HandshakeSafe (crypto : Crypto) (config : Config) (peer : Peer)
    (stream : List UInt8) : Prop where
  speaks : ∀ p w, Steps (wire (peer.playing stream) config.timeout) (handshake crypto config) .new
    p w → Speaks crypto config stream w
  refuses : Refuses stream (runHandshake crypto config (peer.playing stream))

/-- A 3.3 server announces a type of more than eight bits whose low byte is
None or VNC auth. -/
def Misread (stream : List UInt8) : Prop :=
  ∃ type, Announces stream type ∧ 256 ≤ type.toNat ∧
    (type.toUInt8 = securityNone ∨ type.toUInt8 = securityVncAuth)

/-! ## The client keeps to it -/

section Speech

variable {crypto : Crypto} {config : Config} {stream : List UInt8} {g : Heard}

/-- Write only what the protocol calls for. -/
abbrev speech (crypto : Crypto) (config : Config) (stream : List UInt8) :
    Discipline SessionSig Stop Heard :=
  hearing stream (fun g bytes => ∃ stage, Said crypto config stage g.got (g.sent ++ bytes))
    (fun _ => True)

theorem says_readVersion : Follows (speech crypto config stream) ⟨[], []⟩ readVersion
    (fun d g => Said crypto config (.greeted d) g.got g.sent) := by
  unfold readVersion
  refine hears_fill (fun _ _ => trivial) (fun banner hlen _ => ?_)
  cases hv : parseVersion banner with
  | none => exact trivial
  | some version =>
      obtain ⟨major, minor⟩ := version
      simp only
      split
      · exact trivial
      · next hversion =>
          rcases hn : negotiate minor with ⟨reply, dialect⟩
          obtain ⟨rfl, hminor⟩ : major = 3 ∧ 3 ≤ minor := by omega
          have hsaid : Said crypto config (.greeted dialect) banner reply :=
            .version ⟨minor, hlen, hv, hminor, hn⟩
          exact hears_write (fun _ _ => trivial) ⟨_, hsaid⟩ hsaid

theorem says_chooseSecurity {dialect : Nat} (hdialect : 7 ≤ dialect)
    (hsaid : Said crypto config (.greeted dialect) g.got g.sent) :
    Follows (speech crypto config stream) g (chooseSecurity config)
      (fun t g => Said crypto config (.chosen dialect t) g.got g.sent) := by
  unfold chooseSecurity
  refine hears_u8 (fun _ _ => trivial) (fun count _ => ?_)
  split
  · exact hears_string (fun _ _ => trivial) (fun _ _ _ _ _ => trivial)
  · refine hears_fill (fun _ _ => trivial) (fun offered hlen _ => ?_)
    cases hp : preferred config offered with
    | error e => exact trivial
    | ok type =>
        obtain ⟨hmem, htype⟩ := preferred_mem hp
        have hchosen := Said.listed hsaid hdialect hlen hmem htype
        exact hears_write (fun _ _ => trivial) ⟨_, hchosen⟩ hchosen

/-- A 3.3 dialect comes from a 3.3 banner. -/
theorem greeted_announces {dialect : Nat} {type : UInt32} (hdialect : dialect < 7)
    (hsaid : Said crypto config (.greeted dialect) g.got g.sent)
    (hread : g.got ++ be32 type <+: stream) : Announces stream type := by
  cases hsaid with
  | version hgreets =>
      obtain ⟨minor, hlen, hv, hminor, hn⟩ := hgreets
      obtain ⟨rest, rfl⟩ := hread
      have h3 : dialect = 3 := by
        rcases negotiate_cases hn with ⟨_, _, h⟩ | ⟨_, _, h⟩ | ⟨_, _, h⟩
        · exact h
        · omega
        · omega
      subst h3
      exact ⟨_, _, rest, List.append_assoc _ _ _, minor, hlen, hv, hminor, hn⟩

/-- A `u32` whose low byte is a type the client takes is that type, unless
the stream is misread. -/
theorem announced_type {type : UInt32} (hmis : ¬ Misread stream) (hann : Announces stream type)
    (htype : type.toUInt8 = securityNone ∨ type.toUInt8 = securityVncAuth) :
    type.toUInt8.toUInt32 = type := by
  have hsmall : type.toNat < 256 := by
    by_contra h
    exact hmis ⟨type, hann, by omega, htype⟩
  apply UInt32.toNat_inj.mp
  simp only [UInt8.toNat_toUInt32, UInt32.toNat_toUInt8]
  omega

theorem says_announcedSecurity {dialect : Nat} (hdialect : dialect < 7)
    (hmis : ¬ Misread stream) (hsaid : Said crypto config (.greeted dialect) g.got g.sent) :
    Follows (speech crypto config stream) g announcedSecurity
      (fun t g => Said crypto config (.chosen dialect t) g.got g.sent) := by
  unfold announcedSecurity
  refine hears_u32 (fun _ _ => trivial) (fun type hread => ?_)
  have hann := greeted_announces hdialect hsaid hread
  split
  · exact hears_string (fun _ _ => trivial) (fun _ _ _ _ _ => trivial)
  · simp only
    split
    · exact trivial
    · next hne =>
        have htype : type.toUInt8 = securityNone ∨ type.toUInt8 = securityVncAuth := by tauto
        have hchosen := Said.announced hsaid hdialect htype
        rw [announced_type hmis hann htype] at hchosen
        exact hchosen

theorem says_readSecurity {dialect : Nat} (hmis : ¬ Misread stream)
    (hsaid : Said crypto config (.greeted dialect) g.got g.sent) :
    Follows (speech crypto config stream) g (readSecurity config dialect)
      (fun t g => Said crypto config (.chosen dialect t) g.got g.sent) := by
  unfold readSecurity
  split
  · next hdialect => exact says_chooseSecurity hdialect hsaid
  · next hdialect => exact says_announcedSecurity (by omega) hmis hsaid

theorem supported_of_chosen {dialect : Nat} {type : UInt8} {got sent : List UInt8}
    (hsaid : Said crypto config (.chosen dialect type) got sent) : Supported type := by
  cases hsaid with
  | listed _ _ _ _ htype => exact htype
  | announced _ _ htype => exact htype.imp id .inl

theorem says_ardAuthenticate {dialect : Nat}
    (hsaid : Said crypto config (.chosen dialect securityArd) g.got g.sent) :
    Follows (speech crypto config stream) g (ardAuthenticate crypto config)
      (fun _ g => Said crypto config (.proved dialect securityArd) g.got g.sent) := by
  unfold ardAuthenticate
  cases hu : config.username with
  | none => exact trivial
  | some username =>
      cases hp : config.password with
      | none => exact trivial
      | some password =>
          refine hears_u16 (fun _ _ => trivial) (fun generator _ => ?_)
          refine hears_u16 (fun _ _ => trivial) (fun keyLen _ => ?_)
          split
          · exact trivial
          · refine hears_fill (fun _ _ => trivial) (fun prime hprime _ => ?_)
            refine hears_fill (fun _ _ => trivial) (fun serverPublic hpublic _ => ?_)
            refine hears_random (fun _ _ => trivial) (fun private' _ => ?_)
            refine hears_random (fun _ _ => trivial) (fun filler hfiller => ?_)
            cases hr : Ard.clientResponse crypto.md5 crypto.aes generator.toUInt32 prime serverPublic
                username password private' filler with
            | error e => exact trivial
            | ok response =>
                cases response with
                | error e => exact trivial
                | ok out =>
                    have hlen := Ard.length_clientResponse hfiller hr
                    rw [hprime] at hlen
                    have hproved := Said.ard hsaid hu hp hprime hpublic hr hlen
                    exact hears_write_last (fun _ _ => trivial) ⟨_, hproved⟩ hproved

theorem says_vncAuthenticate {dialect : Nat}
    (hsaid : Said crypto config (.chosen dialect securityVncAuth) g.got g.sent) :
    Follows (speech crypto config stream) g (vncAuthenticate crypto config)
      (fun _ g => Said crypto config (.proved dialect securityVncAuth) g.got g.sent) := by
  unfold vncAuthenticate
  cases hp : config.password with
  | none => exact trivial
  | some password =>
      refine hears_fill (fun _ _ => trivial) (fun challenge hlen _ => ?_)
      have hproved := Said.vnc hsaid hp hlen
      exact hears_write_last (fun _ _ => trivial) ⟨_, hproved⟩ hproved

/-- Authenticating proves what the chosen type asks for, and reads a
SecurityResult when one follows. -/
theorem says_authenticate {dialect : Nat} {type : UInt8}
    (hsaid : Said crypto config (.chosen dialect type) g.got g.sent) :
    Follows (speech crypto config stream) g (authenticate crypto config dialect type)
      (fun expected g => Said crypto config (.proved dialect type) g.got g.sent ∧
        (expected = true ↔ Expects dialect type)) := by
  have htype := supported_of_chosen hsaid
  unfold authenticate
  split
  · next ht =>
      subst ht
      exact follows_bind (says_ardAuthenticate hsaid)
        (fun _ _ hproved => ⟨hproved, by simp [Expects, securityArd, securityNone]⟩)
  · next hard =>
      split
      · next ht =>
          subst ht
          exact follows_bind (says_vncAuthenticate hsaid)
            (fun _ _ hproved => ⟨hproved, by simp [Expects, securityVncAuth, securityNone]⟩)
      · next hvnc =>
          obtain rfl : type = securityNone := by
            rcases htype with h | h | h
            · exact h
            · exact absurd h hvnc
            · exact absurd h hard
          exact ⟨.none hsaid, by simp [Expects]⟩

theorem says_readSecurityResult {dialect : Nat} {type : UInt8}
    (hsaid : Said crypto config (.proved dialect type) g.got g.sent)
    (hexpects : Expects dialect type) :
    Follows (speech crypto config stream) g (readSecurityResult dialect)
      (fun _ g => Said crypto config .admitted g.got g.sent) := by
  unfold readSecurityResult
  refine hears_u32 (fun _ _ => trivial) (fun result _ => ?_)
  split
  · split
    · exact hears_string (fun _ _ => trivial) (fun _ _ _ _ _ => trivial)
    · exact trivial
  · next hok =>
      rw [not_not.mp hok]
      exact Said.result hsaid hexpects

theorem says_initialise (hsaid : Said crypto config .admitted g.got g.sent) :
    Follows (speech crypto config stream) g (initialise config)
      (fun _ g => Said crypto config .done g.got g.sent) := by
  unfold initialise
  have hbegun := Said.init hsaid
  refine hears_write (fun _ _ => trivial) ⟨_, hbegun⟩ ?_
  refine hears_u16 (fun _ _ => trivial) (fun width _ => ?_)
  refine hears_u16 (fun _ _ => trivial) (fun height _ => ?_)
  refine hears_fill (fun _ _ => trivial) (fun format hformat _ => ?_)
  refine hears_string (fun _ _ => trivial) (fun len name hname hcap _ => ?_)
  have hformatted := Said.format width height hbegun hformat hname hcap
  refine hears_write (fun _ _ => trivial) ⟨_, hformatted⟩ ?_
  have hdone := Said.encodings hformatted
  exact hears_write (fun _ _ => trivial) ⟨_, hdone⟩ hdone

/-- The whole handshake. -/
theorem says_handshake (hmis : ¬ Misread stream) :
    Follows (speech crypto config stream) ⟨[], []⟩ (handshake crypto config)
      (fun _ g => Said crypto config .done g.got g.sent) := by
  unfold handshake
  refine follows_bind says_readVersion (fun dialect g hgreeted => ?_)
  refine follows_bind (says_readSecurity hmis hgreeted) (fun type g hchosen => ?_)
  unfold proceed
  refine follows_bind (says_authenticate hchosen) (fun expected g hproved => ?_)
  obtain ⟨hproved, hexpected⟩ := hproved
  split
  · next h =>
      exact follows_bind (says_readSecurityResult hproved (hexpected.mp h))
        (fun _ _ hadmitted => says_initialise hadmitted)
  · next h => exact says_initialise (.trusted hproved (fun he => h (hexpected.mpr he)))

end Speech

/-! ## Every state of every run -/

section Runs

variable {crypto : Crypto} {config : Config} {stream : List UInt8}

/-- The view of the run, and the point of the protocol it is at. -/
def AtPoint (crypto : Crypto) (config : Config) (peer : Peer) (stream : List UInt8) (g : Heard)
    (w : Wire) : Prop :=
  Agrees (peer.playing stream) stream g w ∧
    ∃ stage got, got <+: g.got ∧ Said crypto config stage got g.sent

/-- One operation keeps the client in the protocol. -/
theorem atPoint_next {peer : Peer} {timeout : Duration} {g : Heard} {o : Op} {w : Wire}
    (hw : AtPoint crypto config peer stream g w) (hmay : (speech crypto config stream).may g o) :
    AtPoint crypto config peer stream
      ((speech crypto config stream).next g o (wire (peer.playing stream) timeout o w).1)
      (wire (peer.playing stream) timeout o w).2 := by
  obtain ⟨hagrees, stage, got, hgot, hsaid⟩ := hw
  refine ⟨wire_agrees hagrees hmay, ?_⟩
  cases o with
  | fill n =>
      rcases hagrees.fill timeout n with ⟨bytes, _, _, h⟩ | ⟨e, _, h⟩
      · rw [h]
        exact ⟨stage, got, hgot.trans (List.prefix_append _ _), hsaid⟩
      · rw [h]
        exact ⟨stage, got, hgot, hsaid⟩
  | write bytes =>
      obtain ⟨stage', hsaid'⟩ := hmay
      exact ⟨stage', g.got, List.prefix_refl _, hsaid'⟩
  | random n => exact ⟨stage, got, hgot, hsaid⟩
  | _ => exact hmay.elim

theorem speaks_of_atPoint {peer : Peer} {g : Heard} {w : Wire}
    (hw : AtPoint crypto config peer stream g w) : Speaks crypto config stream w := by
  obtain ⟨hagrees, stage, got, hgot, hsaid⟩ := hw
  rw [Speaks, hagrees.got]
  refine ⟨hagrees.read, stage, got, g.sent, hgot, hsaid, ?_⟩
  rw [hagrees.sent]
  exact takesOf_initial _ _

theorem speaks_of_steps (hmis : ¬ Misread stream) {peer : Peer} {p : Task ServerInit} {w : Wire}
    (hs : Steps (wire (peer.playing stream) config.timeout) (handshake crypto config) .new p w) :
    Speaks crypto config stream w := by
  have h0 : AtPoint crypto config peer stream ⟨[], []⟩ .new :=
    ⟨⟨rfl, (List.prefix_nil.mp (takesOf_initial _ [])).symm, List.nil_prefix⟩, .hello, [],
      List.prefix_refl _, .hello⟩
  obtain ⟨g, _, hw⟩ := (says_handshake hmis).steps h0 hs
    (fun _ _ _ hw hmay => wire_answers hw.1 hmay) (fun _ _ _ hw hmay => atPoint_next hw hmay)
  exact speaks_of_atPoint hw

/-! ## The type a 3.3 server announces -/

/-- The run up to the announced type, on a connection that takes the reply. -/
theorem run_announced (crypto : Crypto) (config : Config) {peer : Peer} {type : UInt32}
    (hann : Announces stream type) (htakes : peer.takesOf version3_3 = version3_3) :
    ∃ w rest, Serves (peer.playing stream) w rest ∧ w.got.length = 16 ∧ w.got <+: stream ∧
      w.sent = version3_3 ∧
      runHandshake crypto config (peer.playing stream) =
        ((if type = 0 then do
            let reason ← Conn.reason
            Prog.fail (.err (.refused reason))
          else if type.toUInt8 ≠ securityNone ∧ type.toUInt8 ≠ securityVncAuth then
            Prog.fail (.err (.noSupportedSecurity [type.toUInt8]))
          else pure type.toUInt8 : Task UInt8) >>= proceed crypto config 3).run
          (wire (peer.playing stream) config.timeout) w := by
  obtain ⟨banner, reply, rest, rfl, minor, hlen, hversion, hminor, hn⟩ := hann
  obtain ⟨hreply, _⟩ : reply = version3_3 ∧ minor ≤ 6 := by
    rcases negotiate_cases hn with ⟨h, h', _⟩ | ⟨_, _, h⟩ | ⟨_, _, h⟩
    · exact ⟨h', h⟩
    · omega
    · omega
  subst hreply
  generalize hstream : banner ++ (be32 type ++ rest) = stream
  have hserves : Serves (peer.playing stream) .new (banner ++ (be32 type ++ rest)) := hstream.symm
  have hwrite : (peer.playing stream).takesOf ((Wire.new.read banner).sent ++ version3_3)
      = (Wire.new.read banner).sent ++ version3_3 := htakes
  have hserves' : Serves (peer.playing stream) ((Wire.new.read banner).wrote version3_3)
      (be32 type ++ rest) := hstream.symm
  refine ⟨((Wire.new.read banner).wrote version3_3).read (be32 type), rest, serves_read hserves',
    ?_, ?_, rfl, ?_⟩
  · simp [Wire.new, hlen]
  · rw [← hstream, ← List.append_assoc]
    exact List.prefix_append _ _
  · rw [runHandshake, handshake, run_readVersion hserves hlen hversion hminor hn,
      run_write hwrite, readSecurity, if_neg (by omega), announcedSecurity, bind_assoc,
      run_u32 hserves']

/-- On a connection that breaks in the reply, the type is never read. -/
theorem got_broken (crypto : Crypto) (config : Config) {peer : Peer} {type : UInt32}
    (hann : Announces stream type) (htakes : peer.takesOf version3_3 ≠ version3_3) :
    (runHandshake crypto config (peer.playing stream)).2.got.length = 12 := by
  obtain ⟨banner, reply, rest, rfl, minor, hlen, hversion, hminor, hn⟩ := hann
  obtain rfl : reply = version3_3 := by
    rcases negotiate_cases hn with ⟨_, h, _⟩ | ⟨_, _, h⟩ | ⟨_, _, h⟩
    · exact h
    · omega
    · omega
  generalize hstream : banner ++ (be32 type ++ rest) = stream
  have hserves : Serves (peer.playing stream) .new (banner ++ (be32 type ++ rest)) := hstream.symm
  have hwrite : (peer.playing stream).takesOf ((Wire.new.read banner).sent ++ version3_3)
      ≠ (Wire.new.read banner).sent ++ version3_3 := htakes
  rw [runHandshake, handshake, run_readVersion hserves hlen hversion hminor hn,
    run_write_broken hwrite]
  simp [Wire.new, hlen]

theorem refuses_of_not_misread (hmis : ¬ Misread stream) (peer : Peer) :
    Refuses stream (runHandshake crypto config (peer.playing stream)) := by
  intro type hann hnone hvnc hread
  by_cases htakes : peer.takesOf version3_3 = version3_3
  · obtain ⟨w, rest, _, _, _, _, hrun⟩ :=
      run_announced crypto config hann htakes
    rw [hrun]
    split
    · next hzero =>
        rw [bind_assoc]
        exact ⟨run_bind_fail _ _ _, fun h => absurd hzero h⟩
    · have hlow : type.toUInt8 ≠ securityNone ∧ type.toUInt8 ≠ securityVncAuth := by
        refine ⟨fun h => hnone ?_, fun h => hvnc ?_⟩
        · rw [← announced_type hmis hann (.inl h), h]
          rfl
        · rw [← announced_type hmis hann (.inr h), h]
          rfl
      rw [if_pos hlow]
      exact ⟨⟨_, rfl⟩, fun _ => ⟨_, rfl⟩⟩
  · have hgot := got_broken crypto config hann htakes
    omega

/-! ## What a misread type leads to -/

/-- Whatever it hears, a client past the security type does not refuse it. -/
abbrev anything (stream : List UInt8) : Discipline SessionSig Stop Heard :=
  hearing stream (fun _ _ => True) Stop.Plain

theorem plain_vncAuthenticate (g : Heard) :
    Follows (anything stream) g (vncAuthenticate crypto config) (fun _ _ => True) := by
  unfold vncAuthenticate
  cases config.password with
  | none => intro offered h; cases h
  | some password =>
      refine hears_fill (fun _ h => h) (fun challenge _ _ => ?_)
      exact hears_write_last (fun _ h => h) trivial trivial

theorem plain_readSecurityResult (dialect : Nat) (g : Heard) :
    Follows (anything stream) g (readSecurityResult dialect) (fun _ _ => True) := by
  unfold readSecurityResult
  refine hears_u32 (fun _ h => h) (fun result _ => ?_)
  split
  · split
    · refine hears_string (fun _ h => h) (fun _ _ _ _ _ => ?_)
      intro offered h
      cases h
    · intro offered h
      cases h
  · trivial

theorem plain_initialise (g : Heard) :
    Follows (anything stream) g (initialise config) (fun _ _ => True) := by
  unfold initialise
  refine hears_write (fun _ h => h) trivial ?_
  refine hears_u16 (fun _ h => h) (fun width _ => ?_)
  refine hears_u16 (fun _ h => h) (fun height _ => ?_)
  refine hears_fill (fun _ h => h) (fun format _ _ => ?_)
  refine hears_string (fun _ h => h) (fun len name _ _ _ => ?_)
  refine hears_write (fun _ h => h) trivial ?_
  exact hears_write (fun _ h => h) trivial trivial

theorem plain_proceed (crypto : Crypto) (config : Config) {type : UInt8}
    (htype : type = securityNone ∨ type = securityVncAuth) (dialect : Nat) (g : Heard) :
    Follows (anything stream) g (proceed crypto config dialect type) (fun _ _ => True) := by
  have hauth : Follows (anything stream) g (authenticate crypto config dialect type)
      (fun _ _ => True) := by
    unfold authenticate
    rcases htype with rfl | rfl
    · exact trivial
    · rw [if_neg (by decide), if_pos rfl]
      exact follows_bind (plain_vncAuthenticate g) (fun _ _ _ => trivial)
  unfold proceed
  refine follows_bind hauth (fun expected g _ => ?_)
  split
  · exact follows_bind (plain_readSecurityResult dialect g) (fun _ g _ => plain_initialise g)
  · exact plain_initialise g

/-- A misread type is acted on. -/
theorem not_refuses_of_misread (hmis : Misread stream) {peer : Peer}
    (htakes : peer.takesOf version3_3 = version3_3) :
    ¬ Refuses stream (runHandshake crypto config (peer.playing stream)) := by
  obtain ⟨type, hann, hwide, hlow⟩ := hmis
  obtain ⟨w, rest, _, hlen, hread, hsent, hrun⟩ :=
    run_announced crypto config hann htakes
  have small {t : UInt32} (ht : t.toNat < 256) : type ≠ t := by
    rintro rfl
    omega
  have hacts : ¬ (type.toUInt8 ≠ securityNone ∧ type.toUInt8 ≠ securityVncAuth) := by tauto
  rw [if_neg (small (by decide)), if_neg hacts, pure_bind] at hrun
  -- the run never refuses, and only reads more
  have h0 : Agrees (peer.playing stream) stream ⟨w.got, version3_3⟩ w ∧ 16 ≤ w.got.length :=
    ⟨⟨rfl, by rw [hsent]; exact htakes.symm, hread⟩, by omega⟩
  obtain ⟨g, hf, hend⟩ := (plain_proceed crypto config hlow 3 _).run
    (h := wire (peer.playing stream) config.timeout)
    (I := fun g w => Agrees (peer.playing stream) stream g w ∧ 16 ≤ w.got.length) h0
    (fun _ _ _ hw hmay => wire_answers hw.1 hmay)
    (fun _ _ _ hw hmay => ⟨wire_agrees hw.1 hmay, hw.2.trans (wire_got _ _ _ _).length_le⟩)
  rw [← hrun] at hf hend
  intro hrefuses
  obtain ⟨_, hrefused⟩ := hrefuses type hann (small (by decide)) (small (by decide)) hend.2
  obtain ⟨offered, hoff⟩ := hrefused (small (by decide))
  rw [hoff] at hf
  exact hf offered rfl

end Runs

/-! ## Safety -/

/-- The client is safe on a stream, in every run, exactly when the stream
does not make it misread a type. -/
theorem handshakeSafe_iff (crypto : Crypto) (config : Config) (stream : List UInt8) :
    (∀ peer, HandshakeSafe crypto config peer stream) ↔ ¬ Misread stream := by
  constructor
  · intro hsafe hmis
    have htakes : (Peer.mk (fun _ => stream) .closed none (fun _ => .error "")).takesOf version3_3
        = version3_3 := rfl
    exact not_refuses_of_misread hmis htakes (hsafe _).refuses
  · intro hmis peer
    exact ⟨fun p w hs => speaks_of_steps hmis hs, refuses_of_not_misread hmis peer⟩

/-- Announced type 257 is taken for security None: the client writes
ClientInit. -/
theorem not_handshakeSafe_257 :
    runHandshake .null .default
        (Peer.playing (version3_3 ++ be32 257) ⟨fun _ => [], .silent, none, fun _ => .error ""⟩) =
      (.error (.err (.timeout 10000000000)),
        { got := version3_3 ++ be32 257, sent := version3_3 ++ [1], drawn := 0 }) ∧
    ¬ HandshakeSafe .null .default ⟨fun _ => [], .silent, none, fun _ => .error ""⟩
      (version3_3 ++ be32 257) := by
  have hrun : runHandshake .null .default
      (Peer.playing (version3_3 ++ be32 257) ⟨fun _ => [], .silent, none, fun _ => .error ""⟩) =
      (.error (.err (.timeout 10000000000)),
        { got := version3_3 ++ be32 257, sent := version3_3 ++ [1], drawn := 0 }) := by
    decide +kernel
  refine ⟨hrun, fun hsafe => ?_⟩
  have hgreets : Greets version3_3 3 version3_3 := ⟨3, by decide, by decide, by decide, rfl⟩
  have hann : Announces (version3_3 ++ be32 257) 257 :=
    ⟨version3_3, version3_3, [], by rw [List.append_nil], hgreets⟩
  have hread : 16 ≤ (version3_3 ++ be32 257).length := by decide
  have hrefuses := hsafe.refuses 257 hann (by decide) (by decide)
  rw [hrun] at hrefuses
  obtain ⟨offered, h⟩ := (hrefuses hread).2 (by decide)
  cases h

end Bolide.Rfb
