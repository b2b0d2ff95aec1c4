/-
Bolide.Testkit.ReadMessageTheorems — every message the client builds is read
back by the fake server.

`Reads bytes events` says that the read loop takes exactly `bytes` off the
front of any stream and records `events`. Each builder has its lemma, and
`Reads.append` joins them, so a stream of messages is read as the events of
each in turn.
-/
import Bolide.Testkit.ReadMessage

namespace Bolide.Testkit

open Lib Rfb

/-! ## Reading what is there -/

theorem Reader.bind_ok {α β : Type} {p : Reader α} {f : α → Reader β} {input mid : List UInt8}
    {a : α} (h : p input = .ok (a, mid)) : (p >>= f) input = f a mid := by
  simp only [bind, StateT.bind, Except.bind, h]

theorem readExact_append {n : Nat} {bytes : List UInt8} (h : bytes.length = n)
    (rest : List UInt8) : readExact n (bytes ++ rest) = .ok (bytes, rest) := by
  subst h
  rw [readExact, if_pos (by simp), List.take_left, List.drop_left]

theorem readMessage_cons (kind : UInt8) (rest : List UInt8) :
    readMessage (kind :: rest) = readBody kind rest :=
  Reader.bind_ok (readExact_append (show [kind].length = 1 from rfl) rest)

/-- Read a body of a fixed length. -/
theorem readExact_bind {n : Nat} {bytes : List UInt8} (h : bytes.length = n) (rest : List UInt8)
    {α : Type} (f : List UInt8 → Reader α) :
    (readExact n >>= f) (bytes ++ rest) = f bytes rest :=
  Reader.bind_ok (readExact_append h rest)

/-! ## Each message -/

theorem readMessage_setPixelFormat (f : PixelFormat) (rest : List UInt8) :
    readMessage (setPixelFormat f ++ rest) = .ok (.setPixelFormat f, rest) := by
  have hlen : ([0, 0, 0] ++ f.encode).length = 19 := by simp
  show readMessage (ClientMsg.setPixelFormat :: ([0, 0, 0] ++ f.encode ++ rest)) = _
  rw [readMessage_cons, readBody, if_pos rfl, readExact_bind hlen]
  show Except.ok (ClientEvent.setPixelFormat (.decode f.encode), rest) = _
  rw [PixelFormat.decode_encode]

/-- The encodings are four bytes each. -/
theorem map_chunksExact4 (encodings : List Int32) :
    (chunksExact4 (encodings.flatMap beI32)).map ofBeI32 = encodings := by
  induction encodings with
  | nil => rfl
  | cons e es ih =>
      obtain ⟨a, b, c, d, hbytes, hvalue⟩ := beI32_eq e
      rw [List.flatMap_cons, hbytes]
      show ofBeI32 [a, b, c, d] :: (chunksExact4 (es.flatMap beI32)).map ofBeI32 = _
      rw [ih, hvalue]

theorem length_flatMap_beI32 (encodings : List Int32) :
    (encodings.flatMap beI32).length = encodings.length * 4 := by
  induction encodings with
  | nil => rfl
  | cons e es ih =>
      rw [List.flatMap_cons, List.length_append, ih, length_beI32, List.length_cons]
      omega

theorem readMessage_setEncodings {encodings : List Int32} (h : encodings.length ≤ 65535)
    (rest : List UInt8) :
    readMessage (setEncodings encodings ++ rest) = .ok (.setEncodings encodings, rest) := by
  have hlen : ([0] ++ be16 (UInt16.ofNat encodings.length)).length = 3 := by simp
  have hcount : (UInt16.ofNat encodings.length).toNat = encodings.length := by
    rw [UInt16.toNat_ofNat']
    omega
  have hcons : setEncodings encodings ++ rest = ClientMsg.setEncodings ::
      ([0] ++ be16 (UInt16.ofNat encodings.length) ++ (encodings.flatMap beI32 ++ rest)) := by
    simp [setEncodings]
  rw [hcons, readMessage_cons, readBody, if_neg (by decide), if_pos rfl, readExact_bind hlen]
  show (readExact ((ofBe16 (be16 (UInt16.ofNat encodings.length))).toNat * 4) >>= _) _ = _
  rw [ofBe16_be16, hcount, readExact_bind (length_flatMap_beI32 encodings)]
  show Except.ok (ClientEvent.setEncodings _, rest) = _
  rw [map_chunksExact4]

/-- A flag is one byte. -/
theorem flag_ne_zero : ∀ b : Bool, decide ((if b = true then (1 : UInt8) else 0) ≠ 0) = b := by
  decide

theorem readMessage_framebufferUpdateRequest (incremental : Bool) (x y w h : UInt16)
    (rest : List UInt8) :
    readMessage (framebufferUpdateRequest incremental x y w h ++ rest)
      = .ok (.updateRequest incremental x y w h, rest) := by
  obtain ⟨x₀, x₁, hx, hx'⟩ := be16_eq x
  obtain ⟨y₀, y₁, hy, hy'⟩ := be16_eq y
  obtain ⟨w₀, w₁, hw, hw'⟩ := be16_eq w
  obtain ⟨h₀, h₁, hh, hh'⟩ := be16_eq h
  rw [framebufferUpdateRequest, hx, hy, hw, hh]
  show readMessage (ClientMsg.framebufferUpdateRequest ::
    ([if incremental then 1 else 0, x₀, x₁, y₀, y₁, w₀, w₁, h₀, h₁] ++ rest)) = _
  rw [readMessage_cons, readBody, if_neg (by decide), if_neg (by decide), if_pos rfl,
    readExact_bind (n := 9) rfl]
  show Except.ok (ClientEvent.updateRequest _ (ofBe16 [x₀, x₁]) (ofBe16 [y₀, y₁])
    (ofBe16 [w₀, w₁]) (ofBe16 [h₀, h₁]), rest) = _
  rw [List.getD_cons_zero, flag_ne_zero, hx', hy', hw', hh']

theorem readMessage_keyEvent (keysym : UInt32) (down : Bool) (rest : List UInt8) :
    readMessage (keyEvent keysym down ++ rest) = .ok (.key keysym down, rest) := by
  have hlen : ([if down then 1 else 0, 0, 0] ++ be32 keysym).length = 7 := by simp
  show readMessage (ClientMsg.keyEvent :: ([if down then 1 else 0, 0, 0] ++ be32 keysym ++ rest)) = _
  rw [readMessage_cons, readBody, if_neg (by decide), if_neg (by decide), if_neg (by decide),
    if_pos rfl, readExact_bind hlen]
  show Except.ok (ClientEvent.key (ofBe32 (be32 keysym)) _, rest) = _
  rw [ofBe32_be32, List.cons_append, List.getD_cons_zero, flag_ne_zero]

theorem readMessage_pointerEvent (x y : UInt16) (buttons : UInt8) (rest : List UInt8) :
    readMessage (pointerEvent x y buttons ++ rest) = .ok (.pointer x y buttons, rest) := by
  obtain ⟨x₀, x₁, hx, hx'⟩ := be16_eq x
  obtain ⟨y₀, y₁, hy, hy'⟩ := be16_eq y
  rw [pointerEvent, hx, hy]
  show readMessage (ClientMsg.pointerEvent :: ([buttons, x₀, x₁, y₀, y₁] ++ rest)) = _
  rw [readMessage_cons, readBody, if_neg (by decide), if_neg (by decide), if_neg (by decide),
    if_neg (by decide), if_pos rfl, readExact_bind (n := 5) rfl]
  show Except.ok (ClientEvent.pointer (ofBe16 [x₀, x₁]) (ofBe16 [y₀, y₁]) buttons, rest) = _
  rw [hx', hy']

/-- What a text becomes: no CR, and nothing past U+00FF. -/
def lowered (text : String) : String :=
  String.ofList ((text.toList.filter (fun c => c ≠ '\r')).map
    (fun c => if c.toNat ≤ 0xFF then c else '?'))

/-- A text that is lowered and lifted is the text with the losses RFB imposes. -/
theorem fromLatin1_toLatin1 (text : String) : fromLatin1 (toLatin1 text) = lowered text := by
  rw [fromLatin1, toLatin1, lowered, List.map_map]
  congr 1
  refine List.map_congr_left (fun c _ => ?_)
  simp only [Function.comp]
  split
  · next hlt =>
      have hval : (UInt8.ofNat c.toNat).toNat = c.toNat := by
        rw [UInt8.toNat_ofNat']
        omega
      rw [hval, if_pos (by omega), Char.ofNat_toNat]
  · next hge =>
      rw [if_neg (by omega)]
      rfl

theorem readMessage_clientCutText {text : String} (h : (toLatin1 text).length < 2 ^ 32)
    (rest : List UInt8) :
    readMessage (clientCutText text ++ rest) = .ok (.cutText (lowered text), rest) := by
  have hlen : ([0, 0, 0] ++ be32 (UInt32.ofNat (toLatin1 text).length)).length = 7 := by simp
  have hcount : (UInt32.ofNat (toLatin1 text).length).toNat = (toLatin1 text).length := by
    rw [UInt32.toNat_ofNat']
    omega
  have hcons : clientCutText text ++ rest = ClientMsg.clientCutText ::
      ([0, 0, 0] ++ be32 (UInt32.ofNat (toLatin1 text).length) ++ (toLatin1 text ++ rest)) := by
    simp [clientCutText]
  rw [hcons, readMessage_cons, readBody, if_neg (by decide), if_neg (by decide),
    if_neg (by decide), if_neg (by decide), if_neg (by decide), if_pos rfl, readExact_bind hlen]
  show (readExact (ofBe32 (be32 (UInt32.ofNat (toLatin1 text).length))).toNat >>= _) _ = _
  rw [ofBe32_be32, hcount, readExact_bind rfl]
  show Except.ok (ClientEvent.cutText (fromLatin1 (toLatin1 text)), rest) = _
  rw [fromLatin1_toLatin1]

/-! ## Streams -/

/-- The read loop takes exactly `bytes` off any stream, and records `events`. -/
def Reads (bytes : List UInt8) (events : List ClientEvent) : Prop :=
  ∀ rest, readLoop (bytes ++ rest) = (events ++ (readLoop rest).1, (readLoop rest).2)

theorem Reads.nil : Reads [] [] := fun _ => rfl

theorem Reads.append {bytes more : List UInt8} {events others : List ClientEvent}
    (h : Reads bytes events) (hmore : Reads more others) :
    Reads (bytes ++ more) (events ++ others) := by
  intro rest
  rw [List.append_assoc, h, hmore, List.append_assoc]

theorem Reads.flatMap {α : Type} {as : List α} {bytes : α → List UInt8}
    {events : α → List ClientEvent} (h : ∀ a ∈ as, Reads (bytes a) (events a)) :
    Reads (as.flatMap bytes) (as.flatMap events) := by
  induction as with
  | nil => exact .nil
  | cons a as ih =>
      rw [List.flatMap_cons, List.flatMap_cons]
      exact (h a List.mem_cons_self).append (ih (fun a ha => h a (List.mem_cons_of_mem _ ha)))

/-- A message that is read whatever follows it. -/
theorem reads_of_readMessage {bytes : List UInt8} {event : ClientEvent}
    (h : ∀ rest, readMessage (bytes ++ rest) = .ok (event, rest)) : Reads bytes [event] := by
  intro rest
  rw [readLoop]
  split
  · next e heq =>
      rw [h] at heq
      cases heq
  · next event' rest' heq =>
      rw [h] at heq
      cases heq
      rfl

theorem readLoop_nil : readLoop [] = ([], []) := by
  rw [readLoop]
  rfl

/-- A stream that is read to its end. -/
theorem Reads.readLoop {bytes : List UInt8} {events : List ClientEvent} (h : Reads bytes events) :
    readLoop bytes = (events, []) := by
  have hall := h []
  rwa [List.append_nil, readLoop_nil, List.append_nil] at hall

/-- A burst of keys is read key by key. -/
theorem reads_keys (events : List (UInt32 × Bool)) :
    Reads (events.flatMap (fun e => keyEvent e.1 e.2)) (events.map (fun e => .key e.1 e.2)) := by
  rw [List.map_eq_flatMap]
  exact .flatMap (fun e _ => reads_of_readMessage (readMessage_keyEvent e.1 e.2))

end Bolide.Testkit
