/-
Bolide.Rfb.MessageTheorems — what messages leave behind, and when they are
accepted.

`applyRects_effect` and `applyMessages_effect` say what a sequence that was
applied did to the shared state: the events, the clipboard, the painted flag
and the decoders' work. `applyMessages_wellFormed` says that a sequence of
well-formed messages is applied. With the simulation of
`Bolide.Rfb.ClientTheorems` they give `readMessages_keepsPlace`.
-/
import Bolide.Rfb.ClientTheorems

namespace Bolide.Rfb

open Lib

variable {z : Decompress}

/-! ## The shared state after a rect -/

section AfterRect

variable (i : Inner) (r : Rect) (fb : Framebuffer)

@[simp] theorem afterRect_fb : (i.afterRect r fb).state.fb = fb := by
  unfold Inner.afterRect
  split <;> rfl

@[simp] theorem afterRect_events : (i.afterRect r fb).events
    = i.events ++ if r.body.carriesPixels then [] else [.resized r.w r.h] := by
  unfold Inner.afterRect
  split
  · exact (List.append_nil _).symm
  · rfl

@[simp] theorem afterRect_painted :
    (i.afterRect r fb).state.painted = (i.state.painted && r.body.carriesPixels) := by
  unfold Inner.afterRect
  split
  · next h => rw [h, Bool.and_true]; rfl
  · next h => rw [Bool.not_eq_true _ |>.mp h, Bool.and_false]

@[simp] theorem afterRect_cutText :
    (i.afterRect r fb).state.lastCutText = i.state.lastCutText := by
  unfold Inner.afterRect
  split <;> rfl

@[simp] theorem afterRect_generation : (i.afterRect r fb).generation = i.generation := by
  unfold Inner.afterRect
  split <;> rfl

end AfterRect

/-! ## Rects that were applied -/

/-- What the rects of an update did to the loop and the shared state. -/
structure RectsEffect (rects : List Rect) (p : Progress z) (i : Inner) (p' : Progress z)
    (i' : Inner) : Prop where
  format : p'.decoders.format = p.decoders.format
  decoded : rects.foldlM (Rect.decode p.decoders.format) (i.state.fb, p.decoders.zrle)
    = .ok (i'.state.fb, p'.decoders.zrle)
  paintedAny : p'.paintedAny = (p.paintedAny || rects.any fun r => r.body.carriesPixels)
  events : i'.events = i.events ++
    (rects.filter fun r => !r.body.carriesPixels).map fun r => .resized r.w r.h
  painted : i'.state.painted = (i.state.painted && rects.all fun r => r.body.carriesPixels)
  cutText : i'.state.lastCutText = i.state.lastCutText
  generation : i'.generation = i.generation

/-- What a rect that was applied did. -/
theorem apply_ok {r : Rect} {p p' : Progress z} {i i' : Inner} (h : r.apply p i = .ok (p', i')) :
    ∃ fb zrle, r.decode p.decoders.format (i.state.fb, p.decoders.zrle) = .ok (fb, zrle) ∧
      p' = { decoders := { p.decoders with zrle }
             paintedAny := p.paintedAny || r.body.carriesPixels
             resized := p.resized || !r.body.carriesPixels } ∧
      i' = i.afterRect r fb := by
  rw [Rect.apply] at h
  cases hdec : r.decode p.decoders.format (i.state.fb, p.decoders.zrle) with
  | error e => rw [hdec] at h; cases h
  | ok s => rw [hdec] at h; cases h; exact ⟨s.1, s.2, rfl, rfl, rfl⟩

theorem applyRects_effect : ∀ {rects : List Rect} {p p' : Progress z} {i i' : Inner},
    applyRects rects p i = .ok (p', i') → RectsEffect rects p i p' i'
  | [], p, p', i, i', h => by
      cases h
      exact ⟨rfl, rfl, by simp, by simp, by simp, rfl, rfl⟩
  | r :: rects, p, p', i, i', h => by
      rw [applyRects] at h
      cases hr : r.apply p i with
      | error e => rw [hr] at h; cases h
      | ok s =>
          rw [hr, ok_bind] at h
          obtain ⟨fb, zrle, hdec, hp, hi⟩ := apply_ok hr
          have hrest := applyRects_effect h
          rw [hp, hi] at hrest
          obtain ⟨hformat, hdecoded, hany, hevents, hpainted, hcut, hgen⟩ := hrest
          simp only [afterRect_fb, afterRect_events, afterRect_painted, afterRect_cutText,
            afterRect_generation] at hdecoded hevents hpainted hcut hgen
          refine ⟨hformat, ?_, ?_, ?_, ?_, hcut, hgen⟩
          · rw [List.foldlM_cons, hdec, ok_bind, hdecoded]
          · rw [hany, List.any_cons, Bool.or_assoc]
          · rw [hevents, List.append_assoc]
            cases hc : r.body.carriesPixels <;> simp [hc]
          · rw [hpainted, List.all_cons, Bool.and_assoc]

/-! ## Messages that were applied -/

/-- What messages did to the decoders and the shared state. -/
structure MessagesEffect (ms : List Message) (d : Decoders z) (i : Inner) (d' : Decoders z)
    (i' : Inner) : Prop where
  format : d'.format = d.format
  decoded : (ms.flatMap Message.rects).foldlM (Rect.decode d.format) (i.state.fb, d.zrle)
    = .ok (i'.state.fb, d'.zrle)
  events : i'.events = i.events ++ eventsFrom i.generation ms
  painted : i'.state.painted = ms.foldl Message.paintedAfter i.state.painted
  cutText : i'.state.lastCutText = ms.foldl Message.cutTextAfter i.state.lastCutText
  generation : i'.generation = ms.foldl Message.generationAfter i.generation

section Announced

variable (i : Inner) (update : Nat) (painted wanted : Bool)

@[simp] theorem asked_state : (i.asked wanted).state = i.state := by
  unfold Inner.asked
  split <;> rfl

@[simp] theorem asked_events : (i.asked wanted).events = i.events := by
  unfold Inner.asked
  split <;> rfl

@[simp] theorem asked_generation : (i.asked wanted).generation = i.generation := by
  unfold Inner.asked
  split <;> rfl

@[simp] theorem announced_fb : (i.announced update painted).state.fb = i.state.fb := by
  unfold Inner.announced
  split <;> rfl

@[simp] theorem announced_painted :
    (i.announced update painted).state.painted = (i.state.painted || painted) := by
  cases painted
  · exact (Bool.or_false _).symm
  · exact (Bool.or_true _).symm

@[simp] theorem announced_cutText :
    (i.announced update painted).state.lastCutText = i.state.lastCutText := by
  unfold Inner.announced
  split <;> rfl

@[simp] theorem announced_events : (i.announced update painted).events
    = i.events ++ if painted then [.painted (i.generation + 1)] else [] := by
  unfold Inner.announced
  split
  · rfl
  · exact (List.append_nil _).symm

@[simp] theorem announced_generation : (i.announced update painted).generation
    = if painted then i.generation + 1 else i.generation := by
  unfold Inner.announced
  split <;> rfl

end Announced

/-- What an update that was applied did. -/
theorem update_ok {continuous : Bool} {pad : UInt8} {rects : List Rect} {d d' : Decoders z}
    {i i' : Inner} (h : (Message.update pad rects).apply continuous d i = .ok (d', i')) :
    ∃ p j, RectsEffect rects ⟨d, false, false⟩ { i with updatesBegun := i.updatesBegun + 1 } p j ∧
      d' = p.decoders ∧
      i' = (({ j with outstanding := 0 } : Inner).asked (p.resized || continuous)).announced
        (i.updatesBegun + 1) p.paintedAny := by
  simp only [Message.apply] at h
  cases hrects : applyRects rects { decoders := d, paintedAny := false, resized := false }
      { i with updatesBegun := i.updatesBegun + 1 } with
  | error e => rw [hrects] at h; cases h
  | ok r =>
      rw [hrects] at h
      cases h
      exact ⟨r.1, r.2, applyRects_effect hrects, rfl, rfl⟩

/-- A message without rects leaves the painted flag alone. -/
theorem paintedAfter_quiet {m : Message} (h : m.rects = []) (painted : Bool) :
    painted = m.paintedAfter painted := by
  rw [Message.paintedAfter, h, List.all_nil, List.any_nil, Bool.and_true, Bool.or_false]

/-- What one message that was applied did. -/
theorem message_effect {continuous : Bool} {m : Message} {d d' : Decoders z} {i i' : Inner}
    (h : m.apply continuous d i = .ok (d', i')) :
    m.rects.foldlM (Rect.decode d.format) (i.state.fb, d.zrle) = .ok (i'.state.fb, d'.zrle) ∧
      i'.events = i.events ++ m.events i.generation ∧
      i'.state.painted = m.paintedAfter i.state.painted ∧
      i'.state.lastCutText = m.cutTextAfter i.state.lastCutText ∧
      i'.generation = m.generationAfter i.generation := by
  cases m with
  | update pad rects =>
      obtain ⟨p, j, hrects, rfl, rfl⟩ := update_ok h
      have hany := hrects.paintedAny
      rw [Bool.false_or] at hany
      refine ⟨?_, ?_, ?_, ?_, ?_⟩
      · simpa [Message.rects] using hrects.decoded
      · simp only [announced_events, asked_events, asked_generation, Message.events, hrects.events,
          hrects.generation, hany, List.append_assoc]
      · simp only [announced_painted, asked_state, hrects.painted, hany, Message.paintedAfter,
          Message.rects]
      · simpa [Message.cutTextAfter] using hrects.cutText
      · simp only [announced_generation, asked_generation, hrects.generation, hany,
          Message.generationAfter, Message.rects]
        rfl
  | colourMap pad first entries =>
      cases h
      exact ⟨rfl, (List.append_nil _).symm, paintedAfter_quiet rfl _, rfl, rfl⟩
  | bell =>
      cases h
      exact ⟨rfl, rfl, paintedAfter_quiet rfl _, rfl, rfl⟩
  | cutText pad text =>
      simp only [Message.apply] at h
      split at h
      · cases h
      · cases h
        exact ⟨rfl, rfl, paintedAfter_quiet rfl _, rfl, rfl⟩

/-- **What a sequence of messages that was applied did.** -/
theorem applyMessages_effect {continuous : Bool} : ∀ {ms : List Message} {d d' : Decoders z}
    {i i' : Inner}, applyMessages continuous ms d i = .ok (d', i') → MessagesEffect ms d i d' i'
  | [], d, d', i, i', h => by
      cases h
      exact ⟨rfl, rfl, (List.append_nil _).symm, rfl, rfl, rfl⟩
  | m :: ms, d, d', i, i', h => by
      rw [applyMessages] at h
      cases hm : m.apply continuous d i with
      | error e => rw [hm] at h; cases h
      | ok s =>
          obtain ⟨d₁, i₁⟩ := s
          rw [hm, ok_bind] at h
          obtain ⟨hdec, hevents, hpainted, hcut, hgen⟩ := message_effect hm
          have hformat := apply_format hm
          have hrest := applyMessages_effect h
          refine ⟨hrest.format.trans hformat, ?_, ?_, ?_, ?_, ?_⟩
          · rw [List.flatMap_cons, List.foldlM_append, hdec, ok_bind, ← hformat]
            exact hrest.decoded
          · rw [hrest.events, hevents, hgen, List.append_assoc, eventsFrom]
          · rw [hrest.painted, hpainted, List.foldl_cons]
          · rw [hrest.cutText, hcut, List.foldl_cons]
          · rw [hrest.generation, hgen, List.foldl_cons]

/-- An update of one rect that decodes is applied. -/
theorem apply_single {continuous : Bool} {pad : UInt8} {r : Rect} {d : Decoders z} {i : Inner}
    {fb : Framebuffer} {st : z.State}
    (hdec : r.decode d.format (i.state.fb, d.zrle) = .ok (fb, st)) :
    ∃ d' i', applyMessages continuous [.update pad [r]] d i = .ok (d', i') ∧
      d'.format = d.format ∧ d'.zrle = st ∧ i'.state.fb = fb := by
  simp only [applyMessages, Message.apply, applyRects, Rect.apply, hdec]
  refine ⟨_, _, rfl, rfl, rfl, ?_⟩
  rw [announced_fb, asked_state]
  exact afterRect_fb _ r fb

/-! ## Messages that are accepted -/

section Accepted

variable {plain : List UInt8 → Option (List UInt8)}

/-- The client has kept up with the server: its framebuffer is as large as
the server's screen, and its inflater has taken all of the stream `s`. -/
structure KeepsUp (z : Decompress) (plain : List UInt8 → Option (List UInt8))
    (size : UInt16 × UInt16) (s : List UInt8) (fb : Framebuffer) (st : z.State) : Prop where
  wellFormed : fb.WellFormed
  size : (fb.width, fb.height) = size
  stream : ∃ given, plain s = some given ∧ UpTo z plain st s given

theorem keepsUp_new (hz : Inflates z plain) (width height : UInt16) :
    KeepsUp z plain (width, height) [] (.black width height) z.new :=
  ⟨black_wellFormed width height, rfl, [], hz.start, upTo_new⟩

/-- A drawing keeps up when it stays safe and the stream does not move. -/
theorem KeepsUp.drawn {size : UInt16 × UInt16} {s : List UInt8} {fb fb' : Framebuffer}
    {st : z.State} (h : KeepsUp z plain size s fb st) (hsafe : fb.Safe (.ok fb')) :
    KeepsUp z plain size s fb' st :=
  ⟨hsafe.1, by rw [hsafe.2.1, hsafe.2.2]; exact h.size, h.stream⟩

/-- A slice of the stream that holds a rect's tiles decodes to its pixels. -/
theorem decodeRect_spec (hz : Inflates z plain) {s payload given tiles px : List UInt8}
    {w h : UInt16} {st : z.State} (hs : UpTo z plain st s given)
    (htotal : plain (s ++ payload) = some (given ++ tiles))
    (hden : Denotes RgbCPixel w.toNat h.toNat tiles px) :
    ∃ st', decodeRect z st payload .rgbx32 w h = .ok (px, st') ∧
      UpTo z plain st' (s ++ payload) (given ++ tiles) := by
  obtain ⟨out, st', hslice, hout, hs'⟩ := inflateSlice_spec hz hs htotal
  obtain rfl : tiles = out := List.append_cancel_left hout
  have htiles : decodeTiles tiles .rgbx32 w h = .ok px :=
    ((decodeTiles_accepts tiles w h).1 px).mpr ⟨tiles, [], (List.append_nil tiles).symm, hden⟩
  exact ⟨st', by simp only [decodeRect, hslice, ok_bind, htiles]; rfl, hs'⟩

section Decode

variable {size : UInt16 × UInt16} {s : List UInt8} {fb : Framebuffer} {st : z.State}
  {x y w h : UInt16}

/-- A raw rect that fits is drawn. -/
theorem decode_raw (hk : KeepsUp z plain size s fb st) {data : List UInt8}
    (hin : (⟨x, y, w, h, .raw data⟩ : Rect).Inside size)
    (hlen : data.length = w.toNat * h.toNat * 4) :
    ∃ out, (⟨x, y, w, h, .raw data⟩ : Rect).decode .rgbx32 (fb, st)
        = .ok ({ fb with rgba := out }, st) ∧
      KeepsUp z plain size s { fb with rgba := out } st ∧
      Drawn fb.width.toNat fb.rgba out x.toNat y.toNat w.toNat h.toNat
        (fun i j => (rawPixel .rgbx32 data (j * w.toNat + i)).bytes) := by
  obtain rfl := hk.size
  have hlen' : w.toNat * h.toNat * PixelFormat.rgbx32.bytesPerPixel ≤ data.length :=
    le_of_eq hlen.symm
  obtain ⟨out, hblit, hdrawn⟩ := blitRaw_spec hk.wellFormed.length hin.1 hin.2 hlen'
  have hsafe := blitRaw_safe hk.wellFormed x y w h .rgbx32 data
  rw [hblit] at hsafe
  exact ⟨out, by simp only [Rect.decode, hblit]; rfl, hk.drawn hsafe, hdrawn⟩

/-- A copy inside the screen is drawn. -/
theorem decode_copyRect (hk : KeepsUp z plain size s fb st) {srcX srcY : UInt16}
    (hin : (⟨x, y, w, h, .copyRect srcX srcY⟩ : Rect).Inside size)
    (hsx : srcX.toNat + w.toNat ≤ size.1.toNat) (hsy : srcY.toNat + h.toNat ≤ size.2.toNat) :
    ∃ out, (⟨x, y, w, h, .copyRect srcX srcY⟩ : Rect).decode .rgbx32 (fb, st)
        = .ok ({ fb with rgba := out }, st) ∧
      KeepsUp z plain size s { fb with rgba := out } st ∧
      Drawn fb.width.toNat fb.rgba out x.toNat y.toNat w.toNat h.toNat
        (fun i j => pixelAt fb.rgba fb.width.toNat (srcX.toNat + i) (srcY.toNat + j)) := by
  obtain rfl := hk.size
  obtain ⟨out, hcopy, hdrawn⟩ := copyRect_spec hk.wellFormed.length hin.1 hin.2 hsx hsy
  have hsafe := copyRect_safe hk.wellFormed x y w h srcX srcY
  rw [hcopy] at hsafe
  exact ⟨out, by simp only [Rect.decode, hcopy]; rfl, hk.drawn hsafe, hdrawn⟩

/-- A slice of the stream that holds a rect's tiles is drawn. -/
theorem decode_zrle (hz : Inflates z plain) (hk : KeepsUp z plain size s fb st)
    {payload given tiles px : List UInt8}
    (hin : (⟨x, y, w, h, .zrle payload⟩ : Rect).Inside size)
    (hcap : payload.length ≤ maxZrlePayload) (hgiven : plain s = some given)
    (htotal : plain (s ++ payload) = some (given ++ tiles))
    (hden : Denotes RgbCPixel w.toNat h.toNat tiles px) :
    ∃ out st', (⟨x, y, w, h, .zrle payload⟩ : Rect).decode .rgbx32 (fb, st)
        = .ok ({ fb with rgba := out }, st') ∧
      KeepsUp z plain size (s ++ payload) { fb with rgba := out } st' ∧
      Drawn fb.width.toNat fb.rgba out x.toNat y.toNat w.toNat h.toNat
        (fun i j => pixelAt px w.toNat i j) := by
  obtain ⟨given', hgiven', hup⟩ := hk.stream
  obtain rfl : given = given' := Option.some.inj (hgiven.symm.trans hgiven')
  obtain rfl := hk.size
  obtain ⟨st', hdec, hup'⟩ := decodeRect_spec hz hup htotal hden
  obtain ⟨hlen, halpha⟩ := decodeRect_ok hdec
  obtain ⟨out, hblit, hdrawn⟩ := blitRgba_spec hk.wellFormed.length hin.1 hin.2 (le_of_eq hlen.symm)
  have hnext : KeepsUp z plain (fb.width, fb.height) (s ++ payload) fb st' :=
    ⟨hk.wellFormed, rfl, _, htotal, hup'⟩
  have hsafe := blitRgba_safe hk.wellFormed x y w h halpha
  rw [hblit] at hsafe
  refine ⟨out, st', ?_, hnext.drawn hsafe, hdrawn⟩
  simp only [Rect.decode, if_neg (Nat.not_lt.mpr hcap), hdec, ok_bind, hblit]
  rfl

/-- A resize starts over with a black screen. -/
theorem KeepsUp.resized (hk : KeepsUp z plain size s fb st) (w h : UInt16) :
    KeepsUp z plain (w, h) s (.black w h) st :=
  ⟨black_wellFormed w h, rfl, hk.stream⟩

end Decode

/-- **A well-formed rect is decoded**, and the client has kept up. -/
theorem decode_wellFormed (hz : Inflates z plain) {size : UInt16 × UInt16} {s s' : List UInt8}
    {r : Rect} {fb : Framebuffer} {st : z.State} (hk : KeepsUp z plain size s fb st)
    (hr : r.WellFormed plain maxZrlePayload size s s') :
    ∃ fb' st', r.decode .rgbx32 (fb, st) = .ok (fb', st') ∧
      KeepsUp z plain (r.sizeAfter size) s' fb' st' := by
  obtain ⟨x, y, w, h, body⟩ := r
  cases body with
  | raw data =>
      obtain ⟨hin, hlen, rfl⟩ := hr
      obtain ⟨out, hdec, hnext, -⟩ := decode_raw hk hin hlen
      exact ⟨_, _, hdec, hnext⟩
  | copyRect srcX srcY =>
      obtain ⟨hin, hsx, hsy, rfl⟩ := hr
      obtain ⟨out, hdec, hnext, -⟩ := decode_copyRect hk hin hsx hsy
      exact ⟨_, _, hdec, hnext⟩
  | zrle payload =>
      obtain ⟨hin, hcap, rfl, given, tiles, px, hgiven, htotal, hden⟩ := hr
      obtain ⟨out, st', hdec, hnext, -⟩ := decode_zrle hz hk hin hcap hgiven htotal hden
      exact ⟨_, _, hdec, hnext⟩
  | desktopSize =>
      obtain rfl : s' = s := hr
      exact ⟨_, _, rfl, hk.resized w h⟩

theorem applyRects_wellFormed (hz : Inflates z plain) {size size' : UInt16 × UInt16}
    {s s' : List UInt8} {rects : List Rect}
    (hrects : RectsWellFormed plain maxZrlePayload size s rects size' s') :
    ∀ {p : Progress z} {i : Inner}, p.decoders.format = .rgbx32 →
    KeepsUp z plain size s i.state.fb p.decoders.zrle →
    ∃ p' i', applyRects rects p i = .ok (p', i') ∧
      KeepsUp z plain size' s' i'.state.fb p'.decoders.zrle := by
  induction hrects with
  | nil => exact fun _ h => ⟨_, _, rfl, h⟩
  | @cons size s r s₁ rs size' s' hr _ ih =>
      intro p i hf h
      obtain ⟨fb, st, hdec, hnext⟩ := decode_wellFormed hz h hr
      have happly : r.apply p i = .ok ({ decoders := { p.decoders with zrle := st }
                                         paintedAny := p.paintedAny || r.body.carriesPixels
                                         resized := p.resized || !r.body.carriesPixels },
          i.afterRect r fb) := by
        rw [Rect.apply, hf, hdec]
        rfl
      rw [applyRects, happly, ok_bind]
      exact ih hf (by rw [afterRect_fb]; exact hnext)

/-- **Well-formed messages are applied**, and the client keeps up. -/
theorem applyMessages_wellFormed (hz : Inflates z plain) (continuous : Bool)
    {size : UInt16 × UInt16} {s : List UInt8} {ms : List Message}
    (hms : MessagesWellFormed plain maxZrlePayload size s ms) :
    ∀ {d : Decoders z} {i : Inner}, d.format = .rgbx32 →
    KeepsUp z plain size s i.state.fb d.zrle →
    ∃ d' i', applyMessages continuous ms d i = .ok (d', i') := by
  induction hms with
  | nil => exact fun _ _ => ⟨_, _, rfl⟩
  | @update size s pad rects size' s' ms hlen hrects _ ih =>
      intro d i hf h
      obtain ⟨p, j, hp, hnext⟩ := applyRects_wellFormed hz hrects
        (p := ⟨d, false, false⟩) (i := { i with updatesBegun := i.updatesBegun + 1 }) hf h
      have hformat := applyRects_format hp
      have happly : (Message.update pad rects).apply continuous d i = .ok (p.decoders,
          (({ j with outstanding := 0 } : Inner).asked (p.resized || continuous)).announced
            (i.updatesBegun + 1) p.paintedAny) := by
        rw [Message.apply, hp]
        rfl
      rw [applyMessages, happly, ok_bind]
      exact ih (hformat.trans hf) (by rw [announced_fb, asked_state]; exact hnext)
  | colourMap hlen _ ih => exact fun hf h => ih hf h
  | bell _ ih => exact fun hf h => ih hf h
  | @cutText size s pad text ms hlen _ ih =>
      intro d i hf h
      rw [applyMessages, Message.apply, if_neg (Nat.not_lt.mpr hlen), ok_bind]
      exact ih hf h

/-- Well-formed messages can be serialised. -/
theorem serial_of_wellFormed {cap : Nat} (hcap : cap < 2 ^ 32) {size : UInt16 × UInt16}
    {s : List UInt8} {ms : List Message} (hms : MessagesWellFormed plain cap size s ms) :
    ∀ m ∈ ms, m.Serial .rgbx32 := by
  have hrects : ∀ {size size' : UInt16 × UInt16} {s s' : List UInt8} {rects : List Rect},
      RectsWellFormed plain cap size s rects size' s' → ∀ r ∈ rects, r.Serial .rgbx32 := by
    intro size size' s s' rects h
    induction h with
    | nil => simp
    | @cons size s r s₁ rs size' s' hr _ ih =>
        refine List.forall_mem_cons.mpr ⟨?_, ih⟩
        obtain ⟨x, y, w, h, body⟩ := r
        cases body with
        | raw data => exact hr.2.1
        | zrle payload => exact Nat.lt_of_le_of_lt hr.2.1 hcap
        | _ => trivial
  induction hms with
  | nil => simp
  | update hlen hrs _ ih => exact List.forall_mem_cons.mpr ⟨⟨hlen, hrects hrs⟩, ih⟩
  | colourMap hlen _ ih => exact List.forall_mem_cons.mpr ⟨hlen, ih⟩
  | bell _ ih => exact List.forall_mem_cons.mpr ⟨trivial, ih⟩
  | cutText hlen _ ih =>
      refine List.forall_mem_cons.mpr ⟨Nat.lt_of_le_of_lt hlen (by decide), ih⟩

end Accepted

/-! ## The read loop keeps its place -/

/-- On the serialisation of `ms`, from a fresh connection: after any number
of messages the loop has read exactly their bytes, sent their events, kept
the last clipboard, and run each rect's decoder once, in order. -/
def KeepsPlace (z : Decompress) (width height : UInt16) (ms : List Message) : Prop :=
  ∀ (continuous : Bool) (name : String) (ending : Ending) (timeout : Duration) (armed : Bool)
    (k : Nat), k ≤ ms.length →
    ∃ d i armed', (readMessages continuous k (Decoders.new z)).run (exec ending timeout)
        ⟨ms.flatMap Message.encode, armed, .new width height name⟩
      = (.ok d, ⟨(ms.drop k).flatMap Message.encode, armed', i⟩) ∧
    i.events = eventsFrom 0 (ms.take k) ∧
    i.state.lastCutText = (ms.take k).foldl Message.cutTextAfter none ∧
    ((ms.take k).flatMap Message.rects).foldlM (Rect.decode .rgbx32) (.black width height, z.new)
      = .ok (i.state.fb, d.zrle)

theorem applyMessages_append (continuous : Bool) : ∀ (ms ns : List Message) (d : Decoders z)
    (i : Inner), applyMessages continuous (ms ++ ns) d i
      = applyMessages continuous ms d i >>= fun s => applyMessages continuous ns s.1 s.2
  | [], _, _, _ => rfl
  | m :: ms, ns, d, i => by
      rw [List.cons_append, applyMessages, applyMessages]
      cases hm : m.apply continuous d i with
      | error e => rfl
      | ok s =>
          rw [ok_bind, ok_bind]
          exact applyMessages_append continuous ms ns s.1 s.2

/-- Messages that are all applied are applied up to any one of them. -/
theorem applyMessages_take {continuous : Bool} {ms : List Message} {d d' : Decoders z}
    {i i' : Inner} (k : Nat) (h : applyMessages continuous ms d i = .ok (d', i')) :
    ∃ d₁ i₁, applyMessages continuous (ms.take k) d i = .ok (d₁, i₁) := by
  rw [← List.take_append_drop k ms, applyMessages_append] at h
  cases htake : applyMessages continuous (ms.take k) d i with
  | error e => rw [htake] at h; cases h
  | ok s => exact ⟨s.1, s.2, rfl⟩

/-- The loop over the first `k` of messages that are all applied: it stops
after their bytes, with what they leave behind. -/
theorem readMessages_take {continuous : Bool} {ms : List Message} {d d' : Decoders z}
    {i i' : Inner} (hserial : ∀ m ∈ ms, m.Serial d.format)
    (happly : applyMessages continuous ms d i = .ok (d', i')) (ending : Ending)
    (timeout : Duration) (armed : Bool) (rest : List UInt8) {k : Nat} (hk : k ≤ ms.length) :
    ∃ d₁ i₁ armed', (readMessages continuous k d).run (exec ending timeout)
        ⟨ms.flatMap Message.encode ++ rest, armed, i⟩
      = (.ok d₁, ⟨(ms.drop k).flatMap Message.encode ++ rest, armed', i₁⟩) ∧
    MessagesEffect (ms.take k) d i d₁ i₁ := by
  obtain ⟨d₁, i₁, htake⟩ := applyMessages_take k happly
  have hruns := readMessages_runs continuous (ms.take k) d i
    fun m hm => hserial m (List.mem_of_mem_take hm)
  rw [htake, List.length_take_of_le hk] at hruns
  obtain ⟨armed', hrun⟩ := hruns ending timeout armed ((ms.drop k).flatMap Message.encode ++ rest)
  rw [← List.append_assoc, ← List.flatMap_append, List.take_append_drop] at hrun
  exact ⟨d₁, i₁, armed', hrun, applyMessages_effect htake⟩

/-- **The read loop never loses its place** on well-formed messages. -/
theorem readMessages_keepsPlace {plain : List UInt8 → Option (List UInt8)} (hz : Inflates z plain)
    {width height : UInt16} {ms : List Message}
    (hms : MessagesWellFormed plain maxZrlePayload (width, height) [] ms) :
    KeepsPlace z width height ms := by
  intro continuous name ending timeout armed k hk
  obtain ⟨d', i', hall⟩ := applyMessages_wellFormed hz continuous hms (d := Decoders.new z)
    (i := .new width height name) rfl (keepsUp_new hz width height)
  have hserial : ∀ m ∈ ms, m.Serial (Decoders.new z).format :=
    serial_of_wellFormed (by decide) hms
  obtain ⟨d, i, armed', hrun, heffect⟩ :=
    readMessages_take hserial hall ending timeout armed [] hk
  rw [List.append_nil, List.append_nil] at hrun
  exact ⟨d, i, armed', hrun, heffect.events, heffect.cutText, heffect.decoded⟩

/-- One solid tile of one pixel. -/
theorem denotes_pixel (r g b : UInt8) : Denotes RgbCPixel 1 1 [1, r, g, b] [r, g, b, 255] := by
  have htile : Tile RgbCPixel 1 1 [1, r, g, b] [⟨r, g, b, 255⟩] := .solid ⟨r, g, b, rfl, rfl⟩
  let t : Box × List Rgba := (⟨0, 0, 1, 1⟩, [⟨r, g, b, 255⟩])
  have hmany : Many (fun bs (t : Box × List Rgba) => Tile RgbCPixel t.1.w t.1.h bs t.2)
      ([1, r, g, b] ++ []) [t] := .cons htile .nil
  refine ⟨rfl, [t], rfl, hmany, fun t' ht i hi j hj => ?_⟩
  obtain rfl := List.mem_singleton.mp ht
  obtain rfl : i = 0 := Nat.lt_one_iff.mp hi
  obtain rfl : j = 0 := Nat.lt_one_iff.mp hj
  rfl

/-- The place is kept over every kind of message and rect. -/
theorem readMessages_keepsPlace_mixed : KeepsPlace stored 1 1
    [.update 0 [⟨0, 0, 1, 1, .raw [255, 0, 0, 0]⟩, ⟨0, 0, 2, 1, .desktopSize⟩,
      ⟨1, 0, 1, 1, .zrle (zlibHeader ++ storedBlock [1, 9, 8, 7])⟩,
      ⟨0, 0, 1, 1, .copyRect 1 0⟩],
     .colourMap 0 0 [(1, 2, 3)], .bell, .cutText (0, 0, 0) [104, 233]] := by
  exact readMessages_keepsPlace inflates_stored (.update (by decide)
    (.cons ⟨by decide, rfl, rfl⟩ (.cons rfl
      (.cons ⟨by decide, by decide, rfl, [], _, _, rfl, rfl, denotes_pixel 9 8 7⟩
        (.cons ⟨by decide, by decide, by decide, rfl⟩ .nil))))
    (.colourMap (by decide) (.bell (.cutText (by decide) .nil))))

/-! ## A payload past the cap -/

/-- One tile, and then `n` flushes of nothing. -/
def flushed (n : Nat) : List UInt8 :=
  zlibHeader ++ ([1, 9, 8, 7] :: List.replicate n []).flatMap storedBlock

theorem length_flushed (n : Nat) : (flushed n).length = 11 + 5 * n := by
  have hempty : (storedBlock []).length = 5 := rfl
  have htile : (storedBlock [1, 9, 8, 7]).length = 9 := rfl
  have hheader : zlibHeader.length = 2 := rfl
  rw [flushed, List.length_append, List.flatMap_cons, List.length_append, List.flatMap_replicate,
    List.length_flatten, List.map_replicate, List.sum_replicate, hempty, htile, hheader,
    smul_eq_mul]
  omega

theorem storedPlain_flushed (n : Nat) : storedPlain (flushed n) = [1, 9, 8, 7] := by
  have hshort : ∀ b ∈ ([1, 9, 8, 7] : List UInt8) :: List.replicate n [], b.length < 65536 := by
    refine List.forall_mem_cons.mpr ⟨by decide, fun b hb => ?_⟩
    rw [List.eq_of_mem_replicate hb]
    decide
  have hblocks := storedFrom_blocks [] hshort
  rw [List.append_nil, storedFrom, List.append_nil, List.flatten_cons, List.flatten_replicate_nil,
    List.append_nil] at hblocks
  exact hblocks

/-- The format puts no bound on a ZRLE payload, and the client does: a server
that flushes often loses it. -/
theorem not_keepsPlace_flushed : ¬ ∀ (z : Decompress) (plain : List UInt8 → Option (List UInt8)),
    Inflates z plain → ∀ (width height : UInt16) (ms : List Message),
    MessagesWellFormed plain (2 ^ 32 - 1) (width, height) [] ms → KeepsPlace z width height ms := by
  intro hall
  obtain ⟨n, hn⟩ : ∃ n, n = 13421773 := ⟨_, rfl⟩
  have hlen := length_flushed n
  have hlarge : (flushed n).length > maxZrlePayload := by
    rw [hlen, maxZrlePayload]
    omega
  have hplain := storedPlain_flushed n
  generalize flushed n = payload at hlen hlarge hplain
  have hkeeps := hall stored _ inflates_stored 1 1 [.update 0 [⟨0, 0, 1, 1, .zrle payload⟩]]
    (.update (by simp) (.cons ⟨⟨le_rfl, le_rfl⟩, by omega, rfl, [], _, _, rfl,
      congrArg some hplain, denotes_pixel 9 8 7⟩ .nil) .nil)
  obtain ⟨d, i, armed, hrun, -⟩ := hkeeps false "" .closed 0 false 1 (by simp)
  have hruns := readMessages_runs false [.update 0 [⟨0, 0, 1, 1, .zrle payload⟩]]
    (Decoders.new stored) (.new 1 1 "") (by
      intro m hm
      obtain rfl := List.mem_singleton.mp hm
      refine ⟨by simp, fun r hr => ?_⟩
      obtain rfl := List.mem_singleton.mp hr
      show payload.length < 2 ^ 32
      omega)
  simp only [applyMessages, Message.apply, applyRects, Rect.apply, Rect.decode, if_pos hlarge] at hruns
  obtain ⟨w, hw⟩ := hruns .closed 0 false []
  rw [List.append_nil] at hw
  have := hrun.symm.trans hw
  cases this

end Bolide.Rfb
