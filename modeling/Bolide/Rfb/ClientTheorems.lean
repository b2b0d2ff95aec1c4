/-
Bolide.Rfb.ClientTheorems — the byte loop does what the messages say.

`Runs p bytes i out` says that a task, given those bytes first, ends as
`out` says, having read exactly them, whatever bytes follow and whichever
way the stream will end. It composes along `>>=`, so every piece of the read
loop gets one lemma, and `readMessages_runs` is the simulation: on the
serialisation of any messages, the loop is `applyMessages`.
-/
import Bolide.Rfb.Message
import Bolide.Rfb.ClientInvariants

namespace Bolide.Rfb

open Lib

/-! ## Reading exactly these bytes -/

/-- On `bytes` and then anything, the task ends as `out` says; when it
returns, it has read `bytes` and no more. -/
def Runs {α : Type} (p : Task α) (bytes : List UInt8) (i : Inner) :
    Outcome (α × Inner) → Prop
  | .ok (a, i') => ∀ ending timeout armed rest, ∃ armed',
      p.run (exec ending timeout) ⟨bytes ++ rest, armed, i⟩ = (.ok a, ⟨rest, armed', i'⟩)
  | .error e => ∀ ending timeout armed rest, ∃ w,
      p.run (exec ending timeout) ⟨bytes ++ rest, armed, i⟩ = (.error e, w)

theorem runs_bind {α β : Type} {p : Task α} {f : α → Task β} {xs ys : List UInt8}
    {i : Inner} {out : Outcome (α × Inner)} {g : α × Inner → Outcome (β × Inner)}
    (hp : Runs p xs i out) (hf : ∀ a i', out = .ok (a, i') → Runs (f a) ys i' (g (a, i'))) :
    Runs (p >>= f) (xs ++ ys) i (out >>= g) := by
  cases out with
  | error e =>
      intro ending timeout armed rest
      obtain ⟨w, hw⟩ := hp ending timeout armed (ys ++ rest)
      rw [← List.append_assoc] at hw
      exact ⟨w, Prog.run_bind_error hw⟩
  | ok r =>
      obtain ⟨a, i'⟩ := r
      have hnext := hf a i' rfl
      rw [ok_bind]
      cases hg : g (a, i') with
      | error e =>
          rw [hg] at hnext
          intro ending timeout armed rest
          obtain ⟨armed', hrun⟩ := hp ending timeout armed (ys ++ rest)
          rw [← List.append_assoc] at hrun
          obtain ⟨w, hw⟩ := hnext ending timeout armed' rest
          exact ⟨w, (Prog.run_bind_ok hrun).trans hw⟩
      | ok r =>
          rw [hg] at hnext
          intro ending timeout armed rest
          obtain ⟨armed', hrun⟩ := hp ending timeout armed (ys ++ rest)
          rw [← List.append_assoc] at hrun
          obtain ⟨armed'', hrun'⟩ := hnext ending timeout armed' rest
          exact ⟨armed'', (Prog.run_bind_ok hrun).trans hrun'⟩

/-- The same, when what follows reads nothing. -/
theorem runs_bind_last {α β : Type} {p : Task α} {f : α → Task β} {xs : List UInt8}
    {i : Inner} {out : Outcome (α × Inner)} {g : α × Inner → Outcome (β × Inner)}
    (hp : Runs p xs i out) (hf : ∀ a i', out = .ok (a, i') → Runs (f a) [] i' (g (a, i'))) :
    Runs (p >>= f) xs i (out >>= g) := by
  have h := runs_bind hp hf
  rwa [List.append_nil] at h

theorem runs_pure {α : Type} (a : α) (i : Inner) : Runs (pure a) [] i (.ok (a, i)) :=
  fun _ _ armed _ => ⟨armed, rfl⟩

/-- A step that reads nothing and goes on. -/
theorem runs_then {α β : Type} {p : Task α} {f : α → Task β} {ys : List UInt8} {i i' : Inner}
    {a : α} {out : Outcome (β × Inner)} (hp : Runs p [] i (.ok (a, i')))
    (hf : Runs (f a) ys i' out) : Runs (p >>= f) ys i out := by
  have h := runs_bind (g := fun _ => out) hp fun b j hb => by cases hb; exact hf
  rwa [ok_bind, List.nil_append] at h

/-- A read and what is done with it. -/
theorem runs_read {α β : Type} {p : Task α} {f : α → Task β} {xs ys : List UInt8} {i : Inner}
    {a : α} {out : Outcome (β × Inner)} (hp : Runs p xs i (.ok (a, i)))
    (hf : Runs (f a) ys i out) : Runs (p >>= f) (xs ++ ys) i out := by
  have h := runs_bind (g := fun _ => out) hp fun b j hb => by cases hb; exact hf
  rwa [ok_bind] at h

/-- The last read, and what is done with it. -/
theorem runs_read_last {α β : Type} {p : Task α} {f : α → Task β} {xs : List UInt8} {i : Inner}
    {a : α} {out : Outcome (β × Inner)} (hp : Runs p xs i (.ok (a, i)))
    (hf : Runs (f a) [] i out) : Runs (p >>= f) xs i out := by
  have h := runs_read hp hf
  rwa [List.append_nil] at h

/-- The last step only rearranges the value. -/
theorem runs_last {α β : Type} {p : Task α} {f : α → β} {xs : List UInt8} {i i' : Inner}
    {a : α} (hp : Runs p xs i (.ok (a, i'))) :
    Runs (p >>= fun a => pure (f a)) xs i (.ok (f a, i')) :=
  runs_bind_last (g := fun r => .ok (f r.1, r.2)) hp fun b j _ => runs_pure (f b) j

/-! ## Operations -/

theorem runs_op {o : Op} (i : Inner) (h : ∀ ending timeout armed input,
    ∃ armed', exec ending timeout o ⟨input, armed, i⟩
      = ((execInner o i).1, ⟨input, armed', (execInner o i).2⟩)) :
    Runs (op o) [] i (.ok ((execInner o i).1, (execInner o i).2)) := by
  intro ending timeout armed rest
  obtain ⟨armed', ho⟩ := h ending timeout armed rest
  refine ⟨armed', ?_⟩
  rw [List.nil_append, op, Prog.run_step, ho]
  rfl

theorem runs_fill {n : Nat} {bytes : List UInt8} (i : Inner) (h : bytes.length = n) :
    Runs (fill n) bytes i (.ok (bytes, i)) := by
  intro ending timeout armed rest
  refine ⟨armed, ?_⟩
  have hgot : exec ending timeout (.fill n) ⟨bytes ++ rest, armed, i⟩
      = (.ok bytes, ⟨rest, armed, i⟩) := by
    simp only [exec, fillFrom, List.length_append, h, Nat.le_add_right, ↓reduceIte]
    rw [← h, List.take_left, List.drop_left]
  show Prog.run _ (Prog.ofExcept _) _ = _
  rw [hgot]
  rfl

theorem runs_draw (f : Framebuffer → Outcome Framebuffer) (i : Inner) :
    Runs (draw f) [] i (f i.state.fb >>= fun fb => .ok ((), i.setFb fb)) := by
  cases hf : f i.state.fb with
  | ok fb =>
      intro ending timeout armed rest
      refine ⟨armed, ?_⟩
      have hdone : exec ending timeout (.draw f) ⟨rest, armed, i⟩
          = (.ok (), ⟨rest, armed, i.setFb fb⟩) := by
        simp only [exec, execInner, hf]
      show Prog.run _ (Prog.ofExcept _) _ = _
      rw [List.nil_append, hdone]
      rfl
  | error e =>
      intro ending timeout armed rest
      refine ⟨⟨rest, armed, i⟩, ?_⟩
      have hdone : exec ending timeout (.draw f) ⟨rest, armed, i⟩
          = (.error e, ⟨rest, armed, i⟩) := by
        simp only [exec, execInner, hf]
      show Prog.run _ (Prog.ofExcept _) _ = _
      rw [List.nil_append, hdone]
      rfl

/-! ## Numbers and strings -/

theorem runs_u8 (b : UInt8) (i : Inner) : Runs Conn.u8 [b] i (.ok (b, i)) := by
  have hfill : Runs (fill 1) [b] i (.ok ([b], i)) := runs_fill i rfl
  exact runs_read_last hfill (runs_pure b i)

theorem runs_u16 (x : UInt16) (i : Inner) : Runs Conn.u16 (be16 x) i (.ok (x, i)) := by
  have h := runs_last (f := ofBe16) (runs_fill i (length_be16 x))
  rwa [ofBe16_be16] at h

theorem runs_u32 (x : UInt32) (i : Inner) : Runs Conn.u32 (be32 x) i (.ok (x, i)) := by
  have h := runs_last (f := ofBe32) (runs_fill i (length_be32 x))
  rwa [ofBe32_be32] at h

theorem runs_i32 (x : Int32) (i : Inner) : Runs Conn.i32 (beI32 x) i (.ok (x, i)) := by
  have h := runs_last (f := UInt32.toInt32) (runs_u32 x.toUInt32 i)
  rwa [Int32.toInt32_toUInt32] at h

/-- Skipping takes exactly as many bytes, a sink at a time. -/
theorem runs_skip : ∀ {n : Nat} {bytes : List UInt8} (i : Inner), bytes.length = n →
    Runs (Conn.skip n) bytes i (.ok ((), i)) := by
  intro n
  induction n using Nat.strong_induction_on with
  | _ n ih =>
      intro bytes i h
      rw [Conn.skip]
      by_cases hn : 0 < n
      · rw [if_pos hn]
        have htake : (bytes.take (min n 1024)).length = min n 1024 := by
          rw [List.length_take]
          omega
        have hdrop : (bytes.drop (min n 1024)).length = n - min n 1024 := by
          rw [List.length_drop, h]
        have hsplit := runs_read (f := fun _ => Conn.skip (n - min n 1024))
          (runs_fill i htake) (ih (n - min n 1024) (by omega) i hdrop)
        rwa [List.take_append_drop] at hsplit
      · rw [if_neg hn]
        obtain rfl : bytes = [] := List.length_eq_zero_iff.mp (by omega)
        exact runs_pure () i

theorem toNat_ofNat_lt {n : Nat} (h : n < 2 ^ 32) : (UInt32.ofNat n).toNat = n := by
  rw [UInt32.toNat_ofNat']
  omega

/-- A length-prefixed string: its text, or a refusal past the cap. -/
theorem runs_string (cap : Nat) {text : List UInt8} (i : Inner) (h : text.length < 2 ^ 32) :
    Runs (Conn.string cap) (be32 (UInt32.ofNat text.length) ++ text) i
      (if text.length > cap then
        protocolError
          s!"a string of {UInt32.ofNat text.length} bytes is past the {cap}-byte limit"
      else .ok (fromLatin1 text, i)) := by
  refine runs_read (runs_u32 _ i) ?_
  rw [toNat_ofNat_lt h]
  split
  · exact fun _ _ _ _ => ⟨_, rfl⟩
  · exact runs_last (f := fromLatin1) (runs_fill i rfl)

/-! ## Rects -/

section

variable {z : Decompress}

/-- A rect that was drawn. -/
theorem runs_draw_last (f : Framebuffer → Outcome Framebuffer) (p : Progress z) (i : Inner) :
    Runs (draw f >>= fun _ => pure p) [] i
      (f i.state.fb >>= fun fb => .ok (p, i.setFb fb)) := by
  have h := runs_bind_last (g := fun r => .ok (p, r.2)) (runs_draw f i)
    (f := fun _ => pure p) fun a j _ => runs_pure p j
  cases hf : f i.state.fb <;> rw [hf] at h <;> exact h

variable (p : Progress z) (x y w h : UInt16) (i : Inner)

/-- What a rect that only draws does to the loop and the shared state. -/
theorem apply_eq_of_decode {r : Rect} {d : Outcome Framebuffer} (hr : r.body.carriesPixels = true)
    (hdec : r.decode p.decoders.format (i.state.fb, p.decoders.zrle)
      = d >>= fun fb => .ok (fb, p.decoders.zrle)) :
    r.apply p i = d >>= fun fb => .ok ({ p with paintedAny := true }, i.setFb fb) := by
  rw [Rect.apply, hdec]
  cases d with
  | error e => rfl
  | ok fb => simp [Inner.afterRect, hr]

theorem readRaw_runs {data : List UInt8}
    (hlen : data.length = w.toNat * h.toNat * p.decoders.format.bytesPerPixel) :
    Runs (readRaw p x y w h) data i ((⟨x, y, w, h, .raw data⟩ : Rect).apply p i) := by
  rw [apply_eq_of_decode p i rfl rfl]
  exact runs_read_last (runs_fill i hlen) (runs_draw_last _ _ i)

theorem readCopyRect_runs (srcX srcY : UInt16) :
    Runs (readCopyRect p x y w h) (be16 srcX ++ be16 srcY) i
      ((⟨x, y, w, h, .copyRect srcX srcY⟩ : Rect).apply p i) := by
  rw [apply_eq_of_decode p i rfl rfl]
  exact runs_read (runs_u16 srcX i) (runs_read_last (runs_u16 srcY i) (runs_draw_last _ _ i))

theorem readZrle_runs {payload : List UInt8} (hlen : payload.length < 2 ^ 32) :
    Runs (readZrle p x y w h) (be32 (UInt32.ofNat payload.length) ++ payload) i
      ((⟨x, y, w, h, .zrle payload⟩ : Rect).apply p i) := by
  refine runs_read (runs_u32 _ i) ?_
  rw [toNat_ofNat_lt hlen]
  by_cases hcap : payload.length > maxZrlePayload
  · simp only [Rect.apply, Rect.decode, if_pos hcap]
    exact fun _ _ _ _ => ⟨_, rfl⟩
  · simp only [Rect.apply, Rect.decode, if_neg hcap]
    refine runs_read_last (runs_fill i rfl) ?_
    cases decodeRect z p.decoders.zrle payload p.decoders.format w h with
    | error e => exact fun _ _ _ _ => ⟨_, rfl⟩
    | ok decoded =>
        have hdraw := runs_draw_last (fun fb => blitRgba fb x y w h decoded.1)
          { p with decoders := { p.decoders with zrle := decoded.2 }, paintedAny := true } i
        simp only [ok_bind]
        rw [Prog.ofExcept_ok, Prog.ret_bind]
        cases hblit : blitRgba i.state.fb x y w h decoded.1 with
        | error e => simp only [hblit] at hdraw; exact hdraw
        | ok fb =>
            simp only [hblit] at hdraw
            simpa [Inner.afterRect, RectBody.carriesPixels] using hdraw

theorem readDesktopSize_runs :
    Runs (readDesktopSize p w h) [] i ((⟨x, y, w, h, .desktopSize⟩ : Rect).apply p i) := by
  have happly : (⟨x, y, w, h, .desktopSize⟩ : Rect).apply p i
      = .ok ({ p with resized := true }, i.afterRect ⟨x, y, w, h, .desktopSize⟩ (.black w h)) := by
    simp [Rect.apply, Rect.decode, RectBody.carriesPixels]
  rw [happly]
  refine runs_then (runs_op i fun _ _ armed _ => ⟨armed, rfl⟩) ?_
  refine runs_then (runs_op _ fun _ _ armed _ => ⟨armed, rfl⟩) ?_
  refine runs_then (runs_op _ fun _ _ armed _ => ⟨armed, rfl⟩) ?_
  exact runs_pure _ _

/-- **One rect**: its header, its payload and its decoder. -/
theorem readRect_runs (r : Rect) (p : Progress z) (i : Inner)
    (hserial : r.Serial p.decoders.format) : Runs (readRect p) r.encode i (r.apply p i) := by
  obtain ⟨x, y, w, h, body⟩ := r
  simp only [Rect.encode, List.append_assoc]
  refine runs_read (runs_u16 x i) (runs_read (runs_u16 y i) (runs_read (runs_u16 w i)
    (runs_read (runs_u16 h i) (runs_read (runs_i32 body.encoding i) ?_))))
  -- the arms are told apart by their encoding numbers
  cases body with
  | raw data => exact readRaw_runs p x y w h i hserial
  | copyRect srcX srcY => exact readCopyRect_runs p x y w h i srcX srcY
  | zrle payload => exact readZrle_runs p x y w h i hserial
  | desktopSize => exact readDesktopSize_runs p x y w h i

/-- A rect leaves the pixel format as it was. -/
theorem rect_apply_format {r : Rect} {p p' : Progress z} {i i' : Inner}
    (h : r.apply p i = .ok (p', i')) : p'.decoders.format = p.decoders.format := by
  rw [Rect.apply] at h
  cases hdec : r.decode p.decoders.format (i.state.fb, p.decoders.zrle) with
  | error e => rw [hdec] at h; cases h
  | ok s => rw [hdec] at h; cases h; rfl

theorem applyRects_format : ∀ {rects : List Rect} {p p' : Progress z} {i i' : Inner},
    applyRects rects p i = .ok (p', i') → p'.decoders.format = p.decoders.format
  | [], p, p', i, i', h => by cases h; rfl
  | r :: rects, p, p', i, i', h => by
      rw [applyRects] at h
      cases hr : r.apply p i with
      | error e => rw [hr] at h; cases h
      | ok s =>
          rw [hr, ok_bind] at h
          rw [applyRects_format h, rect_apply_format hr]

/-- The rects of an update, in order. -/
theorem readRects_runs : ∀ (rects : List Rect) (p : Progress z) (i : Inner),
    (∀ r ∈ rects, r.Serial p.decoders.format) →
    Runs (readRects rects.length p) (rects.flatMap Rect.encode) i (applyRects rects p i)
  | [], p, i, _ => runs_pure p i
  | r :: rects, p, i, hserial => by
      rw [List.length_cons, List.flatMap_cons, readRects, applyRects]
      refine runs_bind (readRect_runs r p i (hserial r (by simp))) fun p' i' hp => ?_
      refine readRects_runs rects p' i' fun q hq => ?_
      rw [rect_apply_format hp]
      exact hserial q (by simp [hq])

end

/-! ## After the last rect -/

/-- An operation with no business on the connection. -/
theorem runs_inner {o : Op} (i : Inner)
    (h : ∀ ending timeout w, exec ending timeout o w
      = ((execInner o w.inner).1, { w with inner := (execInner o w.inner).2 })) :
    Runs (op o) [] i (.ok ((execInner o i).1, (execInner o i).2)) :=
  runs_op i fun ending timeout armed input => ⟨armed, h ending timeout ⟨input, armed, i⟩⟩

theorem send_request_runs (incremental : Bool) (i : Inner) : ∃ sent,
    Runs (send (.request incremental)) [] i (.ok (sent,
      if i.connected then
        { i with
          outstanding := i.outstanding + 1
          commands :=
            if i.commandsOpen then i.commands ++ [.request incremental] else i.commands }
      else i)) := by
  obtain ⟨state, events, commands, commandsOpen, shutdown, name, connected, generation, begun, last,
    outstanding, full⟩ := i
  cases connected with
  | false => exact ⟨.error .closed, runs_then (runs_inner _ fun _ _ _ => rfl) (runs_pure _ _)⟩
  | true =>
      -- the count goes up before the queue is tried
      cases commandsOpen with
      | false =>
          exact ⟨.error .closed, runs_then (runs_inner _ fun _ _ _ => rfl)
            (runs_then (runs_inner _ fun _ _ _ => rfl)
              (runs_then (runs_inner _ fun _ _ _ => rfl) (runs_pure _ _)))⟩
      | true =>
          exact ⟨.ok (), runs_then (runs_inner _ fun _ _ _ => rfl)
            (runs_then (runs_inner _ fun _ _ _ => rfl)
              (runs_then (runs_inner _ fun _ _ _ => rfl) (runs_pure _ _)))⟩

theorem askAgain_runs (wanted : Bool) (i : Inner) :
    Runs (askAgain wanted) [] i (.ok ((), i.asked wanted)) := by
  cases wanted with
  | false => exact runs_pure () i
  | true =>
      obtain ⟨sent, hsend⟩ := send_request_runs true i
      rw [askAgain, if_pos rfl]
      refine runs_then hsend ?_
      simp only [Inner.asked, Bool.true_and]
      exact runs_pure () _

theorem announcePainted_runs (update : Nat) (paintedAny : Bool) (i : Inner) :
    Runs (announcePainted update paintedAny) [] i (.ok ((), i.announced update paintedAny)) := by
  cases paintedAny with
  | false => exact runs_pure () i
  | true =>
      rw [announcePainted, if_pos rfl]
      refine runs_then (runs_inner i fun _ _ _ => rfl) ?_
      refine runs_then (runs_inner _ fun _ _ _ => rfl) ?_
      refine runs_then (runs_inner _ fun _ _ _ => rfl) ?_
      exact runs_inner _ fun _ _ _ => rfl

section

variable {z : Decompress}

theorem finishUpdate_runs (continuous : Bool) (update : Nat) (p : Progress z) (i : Inner) :
    Runs (finishUpdate continuous update p) [] i (.ok (p.decoders,
      (({ i with outstanding := 0 } : Inner).asked (p.resized || continuous)).announced update
        p.paintedAny)) := by
  refine runs_then (runs_inner i fun _ _ _ => rfl) ?_
  refine runs_then (askAgain_runs _ _) (runs_then (announcePainted_runs _ _ _) ?_)
  exact runs_pure _ _

/-! ## Messages -/

theorem toNat_ofNat16_lt {n : Nat} (h : n < 2 ^ 16) : (UInt16.ofNat n).toNat = n := by
  rw [UInt16.toNat_ofNat']
  omega

theorem readFramebufferUpdate_runs (continuous : Bool) (pad : UInt8) (rects : List Rect)
    (d : Decoders z) (i : Inner) (hlen : rects.length < 2 ^ 16)
    (hserial : ∀ r ∈ rects, r.Serial d.format) :
    Runs (readFramebufferUpdate continuous d)
      ([pad] ++ be16 (UInt16.ofNat rects.length) ++ rects.flatMap Rect.encode) i
      ((Message.update pad rects).apply continuous d i) := by
  rw [List.append_assoc]
  refine runs_then (runs_inner i fun _ _ _ => rfl) (runs_read (runs_u8 pad _)
    (runs_read (runs_u16 _ _) ?_))
  rw [toNat_ofNat16_lt hlen, ← List.append_nil (rects.flatMap Rect.encode)]
  exact runs_bind (readRects_runs rects _ _ hserial) fun p i' _ =>
    finishUpdate_runs continuous (i.updatesBegun + 1) p i'

theorem readColourMap_runs (pad : UInt8) (first : UInt16)
    (entries : List (UInt16 × UInt16 × UInt16)) (i : Inner) (hlen : entries.length < 2 ^ 16) :
    Runs readColourMap ([pad] ++ be16 first ++ be16 (UInt16.ofNat entries.length) ++
      entries.flatMap (fun e => be16 e.1 ++ be16 e.2.1 ++ be16 e.2.2)) i (.ok ((), i)) := by
  rw [List.append_assoc, List.append_assoc]
  refine runs_read (runs_u8 pad i) (runs_read (runs_u16 first i) (runs_read (runs_u16 _ i) ?_))
  refine runs_skip i ?_
  have hentry : ∀ l ∈ entries.map (fun e => be16 e.1 ++ be16 e.2.1 ++ be16 e.2.2),
      l.length = 6 := by
    intro l hl
    obtain ⟨e, -, rfl⟩ := List.mem_map.mp hl
    simp
  rw [toNat_ofNat16_lt hlen, List.flatMap_def, length_flatten_of_forall hentry, List.length_map,
    Nat.mul_comm]

/-- **One message.** -/
theorem readMessage_runs (continuous : Bool) (m : Message) (d : Decoders z) (i : Inner)
    (hserial : m.Serial d.format) :
    Runs (readMessage continuous d) m.encode i (m.apply continuous d i) := by
  have hstart : ∀ (b : UInt8) (ys : List UInt8) (out : Outcome (Decoders z × Inner)),
      Runs (handleMessage continuous d b) ys i out →
      Runs (readMessage continuous d) (b :: ys) i out := by
    intro b ys out h
    refine runs_then (runs_op i fun _ _ _ _ => ⟨false, rfl⟩) (runs_read (runs_u8 b i) ?_)
    exact runs_then (runs_op i fun _ _ _ _ => ⟨true, rfl⟩) h
  cases m with
  | update pad rects =>
      exact hstart _ _ _ (readFramebufferUpdate_runs continuous pad rects d i hserial.1 hserial.2)
  | colourMap pad first entries =>
      exact hstart _ _ _ (runs_last (readColourMap_runs pad first entries i hserial))
  | bell =>
      exact hstart _ _ _ (runs_then (runs_inner i fun _ _ _ => rfl) (runs_pure d _))
  | cutText pad text =>
      refine hstart _ ([pad.1, pad.2.1, pad.2.2] ++ (be32 (UInt32.ofNat text.length) ++ text)) _ ?_
      have hstring := runs_string maxCutText i hserial
      show Runs (readCutText >>= fun _ => pure d) _ _ _
      simp only [Message.apply, readCutText, bind_assoc]
      refine runs_read (runs_skip i rfl) ?_
      by_cases hcap : text.length > maxCutText
      · simp only [if_pos hcap] at hstring ⊢
        exact runs_bind_last (g := fun r => .ok (d, r.2)) hstring fun a j ha => by cases ha
      · simp only [if_neg hcap] at hstring ⊢
        refine runs_read_last hstring (runs_then (runs_inner i fun _ _ _ => rfl) ?_)
        exact runs_then (runs_inner _ fun _ _ _ => rfl) (runs_pure d _)

/-- A message leaves the pixel format as it was. -/
theorem apply_format {continuous : Bool} {m : Message} {d d' : Decoders z} {i i' : Inner}
    (h : m.apply continuous d i = .ok (d', i')) : d'.format = d.format := by
  cases m with
  | update pad rects =>
      simp only [Message.apply] at h
      cases hrects : applyRects rects { decoders := d, paintedAny := false, resized := false }
          { i with updatesBegun := i.updatesBegun + 1 } with
      | error e => rw [hrects] at h; cases h
      | ok r =>
          rw [hrects] at h
          cases h
          exact applyRects_format hrects
  | colourMap pad first entries => cases h; rfl
  | bell => cases h; rfl
  | cutText pad text =>
      simp only [Message.apply] at h
      split at h
      · cases h
      · cases h; rfl

/-- **The read loop is `applyMessages`**: given the serialisation of any
messages it ends as they say, having read exactly their bytes. -/
theorem readMessages_runs (continuous : Bool) : ∀ (ms : List Message) (d : Decoders z) (i : Inner),
    (∀ m ∈ ms, m.Serial d.format) →
    Runs (readMessages continuous ms.length d) (ms.flatMap Message.encode) i
      (applyMessages continuous ms d i)
  | [], d, i, _ => runs_pure d i
  | m :: ms, d, i, hserial => by
      rw [List.length_cons, List.flatMap_cons, readMessages, applyMessages]
      refine runs_bind (readMessage_runs continuous m d i (hserial m (by simp))) fun d' i' hd => ?_
      refine readMessages_runs continuous ms d' i' fun q hq => ?_
      rw [apply_format hd]
      exact hserial q (by simp [hq])

/-! ## Where the loop stands -/

theorem readMessages_add (continuous : Bool) (n m : Nat) : ∀ (d : Decoders z),
    readMessages continuous (n + m) d
      = readMessages continuous n d >>= fun d => readMessages continuous m d := by
  induction n with
  | zero => intro d; rw [Nat.zero_add]; rfl
  | succ n ih =>
      intro d
      rw [Nat.succ_add, readMessages, readMessages, bind_assoc]
      exact congrArg _ (funext ih)

/-- With nothing left to read there is no next message. -/
theorem readMessage_empty (continuous : Bool) (d : Decoders z) {ending : Ending}
    {timeout : Duration} {w : World} (hw : w.input = []) :
    ∃ e w', (readMessage continuous d).run (exec ending timeout) w = (.error e, w') := by
  obtain ⟨input, armed, i⟩ := w
  obtain rfl : input = [] := hw
  cases ending <;> exact ⟨_, _, rfl⟩

/-- The loop is at the end of the stream after one number of messages only. -/
theorem readMessages_unique {continuous : Bool} {n n' : Nat} {d d₁ d₂ : Decoders z}
    {ending : Ending} {timeout : Duration} {w w₁ w₂ : World}
    (h₁ : (readMessages continuous n d).run (exec ending timeout) w = (.ok d₁, w₁))
    (h₂ : (readMessages continuous n' d).run (exec ending timeout) w = (.ok d₂, w₂))
    (hw₁ : w₁.input = []) (hw₂ : w₂.input = []) : n = n' := by
  have hnext : ∀ {n k : Nat} {d₁ d₂ : Decoders z} {w₁ w₂ : World},
      (readMessages continuous n d).run (exec ending timeout) w = (.ok d₁, w₁) → w₁.input = [] →
      (readMessages continuous (n + (k + 1)) d).run (exec ending timeout) w ≠ (.ok d₂, w₂) := by
    intro n k d₁ d₂ w₁ w₂ h hw hmore
    obtain ⟨e, w', hempty⟩ : ∃ e w', (readMessage continuous d₁).run (exec ending timeout) w₁
        = (.error e, w') := readMessage_empty continuous d₁ hw
    rw [readMessages_add, Prog.run_bind_ok h, readMessages, Prog.run_bind_error hempty] at hmore
    cases hmore
  rcases Nat.lt_trichotomy n n' with h | h | h
  · obtain ⟨k, rfl⟩ := Nat.exists_eq_add_of_lt h
    exact absurd h₂ (hnext (n := n) (k := k) h₁ hw₁)
  · exact h
  · obtain ⟨k, rfl⟩ := Nat.exists_eq_add_of_lt h
    exact absurd h₁ (hnext (n := n') (k := k) h₂ hw₂)

end

end Bolide.Rfb
