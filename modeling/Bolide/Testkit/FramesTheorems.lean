/-
Bolide.Testkit.FramesTheorems — every frame is a whole screen.

Each input of a fake server writes one message at most, of one rect at most
(`message_of_serveInput`). A client draws a rect in one go, once it has the
last of its bytes, so what it holds at any moment, wherever in the server's
bytes it stands, is a screen that the server had after some of its inputs
(`frame_of_screen`), never half of one and half of another.
-/
import Bolide.Rfb.CutTheorems
import Bolide.Testkit.ServerTheorems

namespace Bolide.Testkit

open Lib Rfb

/-! ## One message for an input -/

section Messages

variable {c : Compress} {cfg : Builder} {srv : Server c}

/-- A message of one rect at most, as bytes. -/
def Single (m : Option Message) (bytes : List UInt8) : Prop :=
  bytes = m.toList.flatMap Message.encode ∧
    ∀ m' ∈ m, m'.Serial .rgbx32 ∧ m'.rects.length ≤ 1

theorem single_none : Single none [] := ⟨rfl, nofun⟩

theorem single_some {m : Message} (hserial : m.Serial .rgbx32) (hone : m.rects.length ≤ 1) :
    Single (some m) m.encode := by
  refine ⟨by simp, ?_⟩
  intro m' hm'
  cases hm'
  exact ⟨hserial, hone⟩

theorem single_rect {r : Rect} (hserial : r.Serial .rgbx32) :
    Single (some (.update 0 [r]))
      (updateHeader 1 ++ rectHeader r.x r.y r.w r.h r.body.encoding ++ r.body.payload) := by
  have hone : (Message.update 0 [r]).encode =
      updateHeader 1 ++ rectHeader r.x r.y r.w r.h r.body.encoding ++ r.body.payload := by
    simp only [List.flatMap_cons, List.flatMap_nil, List.append_nil, Message.encode, Rect.encode,
      updateHeader, rectHeader, List.append_assoc]
    rfl
  rw [← hone]
  exact single_some ⟨by simp, by simpa using hserial⟩ le_rfl

/-- An update is one rect. -/
theorem message_of_update (hf : srv.fmt = .rgbx32) (hfits : UpdateFits cfg srv)
    {out : List UInt8 × Server c} (h : framebufferUpdate cfg srv = .ok out) :
    ∃ r : Rect, Single (some (.update 0 [r])) out.1 := by
  rcases chooseEncoding_cases cfg.encoding srv.advertised with henc | henc
  · cases htiles : tiles srv.screen srv.zrle.tiling 0 0 srv.screen.width srv.screen.height srv.fmt with
    | error e => simp [framebufferUpdate, henc, ZrleWriter.rect, htiles] at h
    | ok plain =>
        rw [framebufferUpdate_zrle henc htiles] at h
        cases h
        have hcap := hfits henc plain htiles
        exact ⟨_, single_rect (r := ⟨0, 0, srv.screen.width, srv.screen.height, .zrle _⟩)
          (Nat.lt_of_le_of_lt hcap (by decide))⟩
  · rw [framebufferUpdate_raw henc] at h
    cases h
    rw [hf]
    exact ⟨_, single_rect (r := ⟨0, 0, srv.screen.width, srv.screen.height, .raw _⟩)
      (length_rawRect srv.screen 0 0 srv.screen.width srv.screen.height)⟩

/-- A copy inside a screen. -/
def Copies (size : UInt16 × UInt16) (r : Rect) : Prop :=
  ∃ srcX srcY, r.body = .copyRect srcX srcY ∧ r.Inside size ∧
    srcX.toNat + r.w.toNat ≤ size.1.toNat ∧ srcY.toNat + r.h.toNat ≤ size.2.toNat

/-- Each input writes one message at most, of one rect at most; and one that
does not paint can only copy. -/
theorem message_of_serveInput (hf : srv.fmt = .rgbx32) {input : Input} (hallowed : input.Allowed srv)
    (hfits : input.Fits cfg srv) {bytes : List UInt8} {srv' : Server c}
    (h : serveInput cfg srv input = .ok (some (bytes, srv'))) :
    ∃ m, Single m bytes ∧ (input.paints = false →
      ∀ m' ∈ m, ∀ r ∈ m'.rects, Copies (srv.screen.width, srv.screen.height) r) := by
  have hupdate (srv : Server c) (hf : srv.fmt = .rgbx32) (hfits : UpdateFits cfg srv)
      (h : some <$> framebufferUpdate cfg srv = .ok (some (bytes, srv'))) :
      ∃ r : Rect, Single (some (.update 0 [r])) bytes := by
    cases hout : framebufferUpdate cfg srv with
    | error e => simp [hout] at h
    | ok out =>
        simp only [hout, Except.map_ok, Except.ok.injEq, Option.some.injEq] at h
        have hone := message_of_update hf hfits hout
        rwa [h] at hone
  have hnothing : ∃ m, Single m [] ∧ (input.paints = false →
      ∀ m' ∈ m, ∀ r ∈ m'.rects, Copies (srv.screen.width, srv.screen.height) r) :=
    ⟨none, single_none, fun _ => nofun⟩
  have hquiet {m : Message} (hserial : m.Serial .rgbx32) (hrects : m.rects = []) :
      ∃ m', Single m' m.encode ∧ (input.paints = false →
        ∀ m ∈ m', ∀ r ∈ m.rects, Copies (srv.screen.width, srv.screen.height) r) := by
    refine ⟨some m, single_some hserial (by simp [hrects]), ?_⟩
    intro _ m' hm' r hr
    cases hm'
    simp [hrects] at hr
  cases input with
  | message event =>
      cases event with
      | updateRequest incremental x y w ht =>
          obtain ⟨r, hr⟩ := hupdate srv hf hfits h
          exact ⟨_, hr, fun hpaints => by cases hpaints⟩
      | _ =>
          cases h
          exact hnothing
  | directive d =>
      cases d with
      | setScreen screen =>
          obtain ⟨r, hr⟩ := hupdate { srv with screen } hf hfits h
          exact ⟨_, hr, fun hpaints => by cases hpaints⟩
      | cutText text =>
          cases h
          exact hquiet (m := .cutText (0, 0, 0) (toLatin1 text))
            (Nat.lt_of_le_of_lt hfits (by decide)) rfl
      | bell =>
          cases h
          exact hquiet (m := .bell) trivial rfl
      | resize w ht =>
          cases h
          have hrect := single_rect (r := ⟨0, 0, w, ht, .desktopSize⟩) trivial
          rw [RectBody.payload, List.append_nil] at hrect
          exact ⟨_, hrect, fun hpaints => by cases hpaints⟩
      | copyRect srcX srcY dstX dstY w ht =>
          obtain ⟨⟨hsx, hsy⟩, hdx, hdy⟩ := hallowed
          cases hblit : blit srv.screen srcX srcY dstX dstY w ht with
          | error e => simp [serveInput, applyOnline, hblit] at h
          | ok screen =>
              simp only [serveInput, applyOnline, hblit, ok_bind] at h
              cases h
              refine ⟨_, single_rect (r := ⟨dstX, dstY, w, ht, .copyRect srcX srcY⟩) trivial, ?_⟩
              intro _ m hm r hr
              cases hm
              obtain rfl := List.mem_singleton.mp hr
              exact ⟨srcX, srcY, rfl, ⟨hdx, hdy⟩, hsx, hsy⟩
      | drop => exact hallowed.elim
      | shutdown => exact hallowed.elim

end Messages

/-! ## What a message does to the client -/

section Client

variable {z : Decompress} {c : Compress} {plain : List UInt8 → Option (List UInt8)}
  {srv srv' : Server c} {synced : Prop} {fb : Framebuffer} {st : z.State}

/-- A copy of black is black. -/
theorem copies_black {w h : UInt16} {s : List UInt8} {r : Rect} (hr : Copies (w, h) r)
    (hk : KeepsUp z plain (w, h) s (.black w h) st) :
    r.decode .rgbx32 (.black w h, st) = .ok (.black w h, st) := by
  obtain ⟨x, y, rw', rh, body⟩ := r
  obtain ⟨srcX, srcY, hbody, hin, hsx, hsy⟩ := hr
  obtain rfl : body = .copyRect srcX srcY := hbody
  obtain ⟨out, hdec, -, hdrawn⟩ := decode_copyRect hk hin hsx hsy
  have hlen := (black_wellFormed w h).length
  have hblack : ∀ i < w.toNat, ∀ j < h.toNat,
      pixelAt (Framebuffer.black w h).rgba (Framebuffer.black w h).width.toNat i j = Rfb.black.bytes :=
    fun i hi j hj => pixelAt_black hi hj
  have hsame : out = (Framebuffer.black w h).rgba := by
    refine eq_of_pixelAt (hdrawn.1.trans hlen) hlen ?_
    intro i hi j hj
    rw [hdrawn.2 i hi j]
    split
    · simp only at hsx hsy
      exact (hblack _ (by omega) _ (by omega)).trans (hblack i hi j hj).symm
    · rfl
  rw [hdec, hsame]

theorem encode_ne_nil (m : Message) : m.encode ≠ [] := by
  cases m <;> simp [Message.encode]

/-- The reader goes through the bytes of a message as that message, whatever
messages they are taken for. -/
theorem apply_of_applyMessages {continuous : Bool} {m : Message} {ms : List Message}
    {d d' : Decoders z} {i i' : Inner} (hm : m.Serial d.format) (hms : ∀ m ∈ ms, m.Serial d.format)
    (hbytes : m.encode = ms.flatMap Message.encode)
    (happly : applyMessages continuous ms d i = .ok (d', i')) :
    m.apply continuous d i = .ok (d', i') := by
  have hall := readMessages_runs continuous ms d i hms
  rw [happly, ← hbytes] at hall
  obtain ⟨armed', hrun⟩ := hall .closed 0 false []
  have hone := readMessage_runs continuous m d i hm
  cases ms with
  | nil => exact absurd hbytes (encode_ne_nil m)
  | cons m₀ ms =>
      rw [List.length_cons, readMessages] at hrun
      cases hout : m.apply continuous d i with
      | error e =>
          rw [hout] at hone
          obtain ⟨w, hw⟩ := hone .closed 0 false []
          rw [Prog.run_bind_error hw] at hrun
          cases hrun
      | ok out =>
          obtain ⟨d₁, i₁⟩ := out
          rw [hout] at hone
          obtain ⟨armed₁, hw⟩ := hone .closed 0 false []
          rw [Prog.run_bind_ok hw] at hrun
          cases ms with
          | nil =>
              cases hrun
              rfl
          | cons m₁ ms =>
              have hend : ∃ e w', (Rfb.readMessage continuous d₁).run (exec .closed 0)
                  ⟨[], armed₁, i₁⟩ = (.error e, w') := readMessage_empty continuous d₁ rfl
              obtain ⟨e, w', hempty⟩ := hend
              rw [List.length_cons, readMessages, Prog.run_bind_error hempty] at hrun
              cases hrun

/-- A message that was served, and the framebuffers that its rects make. -/
theorem Served.frames {m : Message} {bytes : List UInt8}
    (h : Served z plain (bytes, srv') synced fb st) (hsingle : Single (some m) bytes) :
    ∃ s fb' st', InStep z plain srv' s synced fb' st' ∧
      m.rects.foldlM (Rect.decode .rgbx32) (fb, st) = .ok (fb', st') ∧
      (∀ frame, Rfb.Whole .rgbx32 m.rects (fb, st) frame → frame = fb ∨ frame = fb') ∧
      ∀ (continuous : Bool) (d : Decoders z) (i : Inner), d.format = .rgbx32 → d.zrle = st →
        i.state.fb = fb → ∃ d' i', m.apply continuous d i = .ok (d', i') ∧
          d'.format = .rgbx32 ∧ d'.zrle = st' ∧ i'.state.fb = fb' := by
  obtain ⟨ms, s, fb', st', hbytes, hserial, hstep, happly⟩ := h
  obtain ⟨hm, hone⟩ := hsingle.2 m rfl
  have hencode : m.encode = ms.flatMap Message.encode := by
    have hsame := hsingle.1.symm.trans hbytes
    simpa using hsame
  have hsteps : ∀ (continuous : Bool) (d : Decoders z) (i : Inner), d.format = .rgbx32 →
      d.zrle = st → i.state.fb = fb → ∃ d' i', m.apply continuous d i = .ok (d', i') ∧
        d'.format = .rgbx32 ∧ d'.zrle = st' ∧ i'.state.fb = fb' := by
    intro continuous d i hf hst hfb
    obtain ⟨d', i', hall, hnext⟩ := happly continuous d i hf hst hfb
    refine ⟨d', i', apply_of_applyMessages (by rwa [hf]) (by rwa [hf]) hencode hall, hnext⟩
  have hdec : m.rects.foldlM (Rect.decode .rgbx32) (fb, st) = .ok (fb', st') := by
    obtain ⟨d', i', hout, -, hst', hfb'⟩ := hsteps false ⟨st, .rgbx32⟩
      ((Inner.new 0 0 "").setFb fb) rfl rfl rfl
    obtain ⟨hdec, -⟩ := message_effect hout
    rw [hst', hfb'] at hdec
    exact hdec
  refine ⟨s, fb', st', hstep, hdec, ?_, hsteps⟩
  intro frame hframe
  obtain ⟨j, st'', hj⟩ := hframe
  cases j with
  | zero =>
      cases hj
      exact .inl rfl
  | succ j =>
      rw [List.take_of_length_le (by omega), hdec] at hj
      cases hj
      exact .inr rfl

/-- Nothing was served: the client is where it was. -/
theorem Served.still (h : Served z plain ([], srv') synced fb st) :
    ∃ s, InStep z plain srv' s synced fb st := by
  obtain ⟨ms, s, fb', st', hbytes, -, hstep, happly⟩ := h
  have hms : ms = [] := by
    cases ms with
    | nil => rfl
    | cons m ms =>
        rw [List.flatMap_cons] at hbytes
        exact absurd (List.append_eq_nil_iff.mp hbytes.symm).1 (encode_ne_nil m)
  subst hms
  obtain ⟨d', i', hall, -, hst, hfb⟩ := happly false ⟨st, .rgbx32⟩
    ((Inner.new 0 0 "").setFb fb) rfl rfl rfl
  cases hall
  subst hst hfb
  exact ⟨s, hstep⟩

end Client

/-! ## Frames -/

section Frames

variable {z : Decompress} {c : Compress} {plain : List UInt8 → Option (List UInt8)}
  {cfg : Builder} {srv srv' : Server c} {painted : Prop} {fb : Framebuffer} {st : z.State}

/-- The client is in step, and black until something paints. -/
structure Tracks (z : Decompress) (plain : List UInt8 → Option (List UInt8)) (srv : Server c)
    (painted : Prop) (fb : Framebuffer) (st : z.State) : Prop where
  inStep : ∃ s, InStep z plain srv s painted fb st
  black : ¬ painted → fb = .black srv.screen.width srv.screen.height

/-- A frame is the screen of a server, or black before anything has painted. -/
structure Shows (srv : Server c) (painted : Prop) (frame : Framebuffer) : Prop where
  width : frame.width = srv.screen.width
  height : frame.height = srv.screen.height
  screen : painted → ∀ x y, frame.pixel x y = .ok (srv.screen.pixel x y)
  black : ¬ painted → frame = .black srv.screen.width srv.screen.height

theorem Tracks.shows (h : Tracks z plain srv painted fb st) : Shows srv painted fb := by
  obtain ⟨s, hstep⟩ := h.inStep
  obtain ⟨hwidth, hheight⟩ : fb.width = srv.screen.width ∧ fb.height = srv.screen.height := by
    simpa using hstep.keeps.size
  exact ⟨hwidth, hheight, fun hp => pixel_eq_of_rgba hwidth hheight (hstep.same hp), h.black⟩

/-- One input: the message it writes, where that takes the client, and the
framebuffers that the client has on the way. -/
theorem Tracks.input (hz : Inflates z plain) (hc : Lossless c plain)
    (h : Tracks z plain srv painted fb st) {input : Input} (hallowed : input.Allowed srv)
    (hfits : input.Fits cfg srv) :
    ∃ bytes srv' m fb' st', serveInput cfg srv input = .ok (some (bytes, srv')) ∧ Single m bytes ∧
      Tracks z plain srv' (painted ∨ input.paints = true) fb' st' ∧
      (m = none → fb' = fb ∧ st' = st) ∧
      ∀ m' ∈ m, (∀ frame, Rfb.Whole .rgbx32 m'.rects (fb, st) frame → frame = fb ∨ frame = fb') ∧
        ∀ (continuous : Bool) (d : Decoders z) (i : Inner), d.format = .rgbx32 → d.zrle = st →
          i.state.fb = fb → ∃ d' i', m'.apply continuous d i = .ok (d', i') ∧
            d'.format = .rgbx32 ∧ d'.zrle = st' ∧ i'.state.fb = fb' := by
  obtain ⟨s, hstep⟩ := h.inStep
  obtain ⟨⟨bytes, srv'⟩, hserve, hserved⟩ := serveInput_spec hz hc hstep hallowed hfits
  obtain ⟨m, hsingle, hcopies⟩ := message_of_serveInput hstep.format hallowed hfits hserve
  -- black stays black: it can only be copied
  have hstays (rects : List Rect) {fb' : Framebuffer} {st' : z.State} {s' : List UInt8}
      (hnext : InStep z plain srv' s' (painted ∨ input.paints = true) fb' st')
      (hdec : rects.foldlM (Rect.decode .rgbx32) (fb, st) = .ok (fb', st'))
      (hone : rects.length ≤ 1)
      (hrects : input.paints = false →
        ∀ r ∈ rects, Copies (srv.screen.width, srv.screen.height) r) :
      ¬ (painted ∨ input.paints = true) → fb' = .black srv'.screen.width srv'.screen.height := by
    intro hnot
    obtain ⟨hunpainted, hquiet⟩ := not_or.mp hnot
    have hblack := h.black hunpainted
    obtain ⟨w, ht, hw⟩ : ∃ w ht, fb' = .black w ht := by
      rcases rects with _ | ⟨r, _ | ⟨r', rects⟩⟩
      · cases hdec
        exact ⟨_, _, hblack⟩
      · subst hblack
        have hcopy := hrects (Bool.not_eq_true _ ▸ hquiet) r List.mem_cons_self
        rw [List.foldlM_cons, copies_black hcopy hstep.keeps] at hdec
        cases hdec
        exact ⟨_, _, rfl⟩
      · simp at hone
    have hsize : (fb'.width, fb'.height) = (srv'.screen.width, srv'.screen.height) :=
      hnext.keeps.size
    subst hw
    cases hsize
    rfl
  cases m with
  | none =>
      obtain rfl : bytes = [] := hsingle.1
      obtain ⟨s', hnext⟩ := hserved.still
      refine ⟨_, srv', none, fb, st, hserve, hsingle, ⟨⟨s', hnext⟩, ?_⟩, fun _ => ⟨rfl, rfl⟩, nofun⟩
      exact hstays [] hnext rfl (Nat.zero_le _) (fun _ => nofun)
  | some m =>
      obtain ⟨s', fb', st', hnext, hdec, hframes, happly⟩ := hserved.frames hsingle
      refine ⟨_, srv', some m, fb', st', hserve, hsingle, ⟨⟨s', hnext⟩, ?_⟩, nofun, ?_⟩
      · exact hstays m.rects hnext hdec (hsingle.2 m rfl).2 (fun hquiet => hcopies hquiet m rfl)
      · intro m' hm'
        cases hm'
        exact ⟨hframes, happly⟩

theorem serve_cons {inputs : List Input} {input : Input} {bytes : List UInt8}
    (hinput : serveInput cfg srv input = .ok (some (bytes, srv'))) {rest : List UInt8 × Server c}
    (hrest : serve cfg inputs srv' = .ok rest) :
    serve cfg (input :: inputs) srv = .ok (bytes ++ rest.1, rest.2) := by
  rw [serve, hinput, ok_bind]
  dsimp only
  rw [hrest]
  rfl

/-- What a reader of a fake's bytes holds is the fake's screen after some of
its inputs. -/
def Framed (cfg : Builder) (srv : Server c) (inputs : List Input) (painted : Prop)
    (frame : Framebuffer) : Prop :=
  ∃ k ≤ inputs.length, ∃ out, serve cfg (inputs.take k) srv = .ok out ∧
    Shows out.2 (painted ∨ (inputs.take k).any Input.paints = true) frame

theorem framed_now {inputs : List Input} {frame : Framebuffer} (h : Shows srv painted frame) :
    Framed cfg srv inputs painted frame :=
  ⟨0, Nat.zero_le _, ([], srv), rfl, by simpa using h⟩

theorem Framed.cons {inputs : List Input} {input : Input} {bytes : List UInt8} {frame : Framebuffer}
    (hinput : serveInput cfg srv input = .ok (some (bytes, srv')))
    (h : Framed cfg srv' inputs (painted ∨ input.paints = true) frame) :
    Framed cfg srv (input :: inputs) painted frame := by
  obtain ⟨k, hk, out, hserve, hshows⟩ := h
  refine ⟨k + 1, Nat.succ_le_succ hk, (bytes ++ out.1, out.2), serve_cons hinput hserve, ?_⟩
  simpa [or_assoc] using hshows

/-- Wherever the bytes stop, the reader holds a screen. -/
theorem readerTask_framed (hz : Inflates z plain) (hc : Lossless c plain) {continuous : Bool}
    (ending : Ending) (timeout : Duration) {inputs : List Input} :
    ∀ {srv : Server c} {painted : Prop} {fb : Framebuffer} {st : z.State},
      Tracks z plain srv painted fb st →
      Each cfg (fun srv input => input.Allowed srv ∧ input.Fits cfg srv) inputs srv →
      ∀ {bytes : List UInt8} {last : Server c}, serve cfg inputs srv = .ok (bytes, last) →
      ∀ (n cut : Nat) (armed : Bool) (d : Decoders z) (i : Inner), d.format = .rgbx32 →
        d.zrle = st → i.state.fb = fb →
        Framed cfg srv inputs painted
          ((readerTask continuous n d).run (exec ending timeout)
            ⟨bytes.take cut, armed, i⟩).2.inner.state.fb := by
  induction inputs with
  | nil =>
      intro srv painted fb st htracks _ bytes last hserve n cut armed d i _ _ hfb
      cases hserve
      refine framed_now ?_
      rw [List.take_nil]
      cases n with
      | zero =>
          show Shows srv painted i.state.fb
          rw [hfb]
          exact htracks.shows
      | succ n =>
          obtain ⟨e, w, hrun, hw⟩ := readMessage_nothing continuous d ending timeout armed i
          rw [readerTask_error hrun, hw, hfb]
          exact htracks.shows
  | cons input inputs ih =>
      intro srv painted fb st htracks heach bytes last hserve n cut armed d i hformat hst hfb
      obtain ⟨⟨hallowed, hfits⟩, hrest⟩ := heach
      obtain ⟨first, srv', m, fb', st', hinput, hsingle, hnext, hnone, hsome⟩ :=
        htracks.input hz hc hallowed hfits
      obtain ⟨⟨more, last'⟩, hmore, hbytes⟩ : ∃ out, serve cfg inputs srv' = .ok out ∧
          bytes = first ++ out.1 := by
        cases hout : serve cfg inputs srv' with
        | error e =>
            rw [serve, hinput, ok_bind] at hserve
            simp [hout] at hserve
        | ok out =>
            rw [serve_cons hinput hout] at hserve
            cases hserve
            exact ⟨out, rfl, rfl⟩
      subst hbytes
      have hlater := ih hnext (hrest _ hinput) hmore
      cases m with
      | none =>
          obtain ⟨hfb', hst'⟩ := hnone rfl
          obtain rfl : first = [] := hsingle.1
          refine .cons hinput ?_
          exact hlater n cut armed d i hformat (hst.trans hst'.symm) (hfb.trans hfb'.symm)
      | some m =>
          obtain ⟨hframes, happly⟩ := hsome m rfl
          obtain ⟨hserial, -⟩ := hsingle.2 m rfl
          obtain rfl : first = m.encode := by simpa using hsingle.1
          obtain ⟨d', i', hout, hformat', hst', hfb'⟩ := happly continuous d i hformat hst hfb
          rw [← hformat] at hserial
          cases n with
          | zero =>
              refine framed_now ?_
              show Shows srv painted i.state.fb
              rw [hfb]
              exact htracks.shows
          | succ n =>
              by_cases hcut : cut < m.encode.length
              · obtain ⟨e, w, hrun, hwhole, -⟩ :=
                  cut_readMessage hserial hout cut hcut ending timeout armed
                rw [List.take_append_of_le_length (by omega), readerTask_error hrun]
                rw [hformat, hfb, hst] at hwhole
                rcases hframes _ hwhole with hframe | hframe
                · rw [hframe]
                  exact framed_now htracks.shows
                · rw [hframe]
                  exact .cons hinput (framed_now hnext.shows)
              · obtain ⟨cut', rfl⟩ : ∃ cut', cut = m.encode.length + cut' :=
                  ⟨cut - m.encode.length, by omega⟩
                have hruns := readMessage_runs continuous m d i hserial
                rw [hout] at hruns
                obtain ⟨armed', hrun⟩ := hruns ending timeout armed (more.take cut')
                rw [List.take_length_add_append, readerTask_ok hrun]
                exact .cons hinput (hlater n cut' armed' d' i' hformat' hst' hfb')

/-- **Every frame is a whole screen.** Over any inputs within the client's
limits, wherever the fake's bytes stop and whenever its reader does, what the
client holds is the size of the screen that the fake had after some of the
inputs, and shows it if one of them sent all of it; until then it is black. -/
theorem frame_of_screen (hz : Inflates z plain) (hc : Lossless c plain)
    (halpha : cfg.screen.FullAlpha) {inputs : List Input}
    (hinputs : Each cfg (fun srv input => input.Allowed srv ∧ input.Fits cfg srv) inputs
      (Server.new c cfg))
    (continuous : Bool) (name : String) (ending : Ending) (timeout : Duration) (armed : Bool) :
    ∃ bytes last, serve cfg inputs (Server.new c cfg) = .ok (bytes, last) ∧ ∀ n cut,
      Framed cfg (Server.new c cfg) inputs False
        ((readerTask continuous n (Decoders.new z)).run (exec ending timeout)
          ⟨bytes.take cut, armed,
            .new cfg.screen.width cfg.screen.height name⟩).2.inner.state.fb := by
  have hstep : InStep z plain (Server.new c cfg) [] False
      (.black cfg.screen.width cfg.screen.height) z.new :=
    ⟨rfl, halpha, keepsUp_new hz _ _, ⟨[], .new⟩, False.elim⟩
  obtain ⟨⟨bytes, last⟩, hserve, -⟩ := serve_spec hz hc hstep hinputs
  refine ⟨bytes, last, hserve, ?_⟩
  intro n cut
  exact readerTask_framed hz hc ending timeout ⟨⟨[], hstep⟩, fun _ => rfl⟩ hinputs hserve n cut armed
    (Decoders.new z) _ rfl rfl rfl

end Frames

/-- A screen, a resize and an update, cut anywhere. -/
theorem frame_of_screen_raw :
    let cfg : Builder := ⟨.raw, .solid 1 1 ⟨255, 0, 0, 255⟩, .auto⟩
    let inputs : List Input := [.directive (.setScreen (.solid 1 1 ⟨0, 255, 0, 255⟩)),
      .directive (.resize 2 1), .message (.updateRequest true 0 0 2 1)]
    ∃ bytes last, serve cfg inputs (Server.new storing cfg) = .ok (bytes, last) ∧ ∀ n cut,
      Framed cfg (Server.new storing cfg) inputs False
        ((readerTask true n (Decoders.new stored)).run (exec .closed 0)
          ⟨bytes.take cut, false, .new 1 1 "d"⟩).2.inner.state.fb := by
  intro cfg inputs
  have hne : ¬ encRaw = encZrle := by decide
  have hraw : ∀ srv : Server storing, UpdateFits cfg srv := fun srv h => absurd h hne
  have hinputs : Each cfg (fun srv input => input.Allowed srv ∧ input.Fits cfg srv) inputs
      (Server.new storing cfg) :=
    ⟨⟨⟨by decide, rfl, rfl⟩, hraw _⟩, fun _ _ => ⟨⟨trivial, trivial⟩, fun _ _ =>
      ⟨⟨trivial, hraw _⟩, fun _ _ => trivial⟩⟩⟩
  exact frame_of_screen inflates_stored lossless_storing (by decide) hinputs true "d" .closed 0 false

end Bolide.Testkit
