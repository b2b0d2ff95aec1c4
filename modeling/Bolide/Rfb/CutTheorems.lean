/-
Bolide.Rfb.CutTheorems — where the server's bytes stop.

`Cut p bytes i P` says that a task given only some of `bytes` fails, and that
the shared state satisfies `P` then. It composes along `>>=` beside `Runs`: a
read that got all its bytes goes on, and one that did not leaves everything
as it was. A rect draws after its last byte, so wherever the bytes stop the
framebuffer is what a whole number of rects made (`readerTask_cut`).
-/
import Bolide.Rfb.MessageTheorems

namespace Bolide.Rfb

open Lib

/-! ## Reading too few bytes -/

/-- On some of `bytes`, and not all, the task fails in a state with `P`. -/
def Cut {α : Type} (p : Task α) (bytes : List UInt8) (i : Inner) (P : State → Prop) : Prop :=
  ∀ k < bytes.length, ∀ ending timeout armed, ∃ e w,
    p.run (exec ending timeout) ⟨bytes.take k, armed, i⟩ = (.error e, w) ∧ P w.inner.state

section Rules

variable {α β : Type} {p : Task α} {f : α → Task β} {xs ys : List UInt8} {i i' : Inner} {a : α}
  {P : State → Prop}

theorem cut_nil : Cut p [] i P := by
  intro k hk
  simp at hk

theorem cut_fill {n : Nat} {bytes : List UInt8} (h : bytes.length = n) (hP : P i.state) :
    Cut (fill n) bytes i P := by
  intro k hk ending timeout armed
  have hlen : ¬ n ≤ (bytes.take k).length := by
    rw [List.length_take]
    omega
  obtain ⟨e, he⟩ : ∃ e, fillFrom ending timeout armed n (bytes.take k) = (.error e, []) := by
    cases ending <;> cases armed <;> exact ⟨_, if_neg hlen⟩
  have hexec : exec ending timeout (.fill n) ⟨bytes.take k, armed, i⟩ = (.error e, ⟨[], armed, i⟩) := by
    simp only [exec, he]
  refine ⟨e, ⟨[], armed, i⟩, ?_, hP⟩
  show Prog.run _ (Prog.ofExcept _) _ = _
  rw [hexec]
  rfl

/-- What is done after the last read does not matter. -/
theorem cut_last (hp : Cut p xs i P) : Cut (p >>= f) xs i P := by
  intro k hk ending timeout armed
  obtain ⟨e, w, hrun, hw⟩ := hp k hk ending timeout armed
  exact ⟨e, w, Prog.run_bind_error hrun, hw⟩

/-- A read, and what is done with it. -/
theorem cut_bind (hp : Cut p xs i P) (hruns : Runs p xs i (.ok (a, i'))) (hf : Cut (f a) ys i' P) :
    Cut (p >>= f) (xs ++ ys) i P := by
  intro k hk ending timeout armed
  by_cases h : k < xs.length
  · obtain ⟨e, w, hrun, hw⟩ := hp k h ending timeout armed
    rw [List.take_append_of_le_length (by omega)]
    exact ⟨e, w, Prog.run_bind_error hrun, hw⟩
  · obtain ⟨k', rfl⟩ : ∃ k', k = xs.length + k' := ⟨k - xs.length, by omega⟩
    rw [List.length_append] at hk
    obtain ⟨armed', hrun⟩ := hruns ending timeout armed (ys.take k')
    obtain ⟨e, w, hrun', hw⟩ := hf k' (by omega) ending timeout armed'
    rw [List.take_length_add_append]
    exact ⟨e, w, (Prog.run_bind_ok hrun).trans hrun', hw⟩

/-- A step that reads nothing and goes on. -/
theorem cut_then (hruns : Runs p [] i (.ok (a, i'))) (hf : Cut (f a) ys i' P) :
    Cut (p >>= f) ys i P := cut_bind cut_nil hruns hf

theorem Cut.mono {Q : State → Prop} (h : Cut p xs i P) (hPQ : ∀ s, P s → Q s) : Cut p xs i Q := by
  intro k hk ending timeout armed
  obtain ⟨e, w, hrun, hw⟩ := h k hk ending timeout armed
  exact ⟨e, w, hrun, hPQ _ hw⟩

end Rules

/-! ## Numbers and strings -/

section Reads

variable {P : State → Prop} (i : Inner) (hP : P i.state)

include hP

theorem cut_u8 (b : UInt8) : Cut Conn.u8 [b] i P := cut_last (cut_fill rfl hP)

theorem cut_u16 (x : UInt16) : Cut Conn.u16 (be16 x) i P := cut_last (cut_fill (length_be16 x) hP)

theorem cut_u32 (x : UInt32) : Cut Conn.u32 (be32 x) i P := cut_last (cut_fill (length_be32 x) hP)

theorem cut_i32 (x : Int32) : Cut Conn.i32 (beI32 x) i P := cut_last (cut_u32 i hP x.toUInt32)

theorem cut_skip {n : Nat} {bytes : List UInt8} (h : bytes.length = n) :
    Cut (Conn.skip n) bytes i P := by
  induction n using Nat.strong_induction_on generalizing bytes with
  | _ n ih =>
      rw [Conn.skip]
      by_cases hn : 0 < n
      · rw [if_pos hn]
        have htake : (bytes.take (min n 1024)).length = min n 1024 := by
          rw [List.length_take]
          omega
        have hdrop : (bytes.drop (min n 1024)).length = n - min n 1024 := by
          rw [List.length_drop, h]
        have hsplit := cut_bind (f := fun _ => Conn.skip (n - min n 1024)) (cut_fill htake hP)
          (runs_fill i htake) (ih (n - min n 1024) (by omega) hdrop)
        rwa [List.take_append_drop] at hsplit
      · obtain rfl : bytes = [] := List.length_eq_zero_iff.mp (by omega)
        exact cut_nil

theorem cut_string {cap : Nat} {text : List UInt8} (h : text.length < 2 ^ 32)
    (hcap : text.length ≤ cap) :
    Cut (Conn.string cap) (be32 (UInt32.ofNat text.length) ++ text) i P := by
  refine cut_bind (cut_u32 i hP _) (runs_u32 _ i) ?_
  rw [toNat_ofNat_lt h, if_neg (Nat.not_lt.mpr hcap)]
  exact cut_last (cut_fill rfl hP)

end Reads

/-! ## Rects -/

section Rects

variable {z : Decompress} {P : State → Prop}

/-- A rect that was not read in full has drawn nothing. -/
theorem cut_readRect {r : Rect} {p : Progress z} {i : Inner} (hserial : r.Serial p.decoders.format)
    {out : Progress z × Inner} (happly : r.apply p i = .ok out) (hP : P i.state) :
    Cut (readRect p) r.encode i P := by
  obtain ⟨x, y, w, h, body⟩ := r
  simp only [Rect.encode, List.append_assoc]
  refine cut_bind (cut_u16 i hP x) (runs_u16 x i) ?_
  refine cut_bind (cut_u16 i hP y) (runs_u16 y i) ?_
  refine cut_bind (cut_u16 i hP w) (runs_u16 w i) ?_
  refine cut_bind (cut_u16 i hP h) (runs_u16 h i) ?_
  refine cut_bind (cut_i32 i hP body.encoding) (runs_i32 body.encoding i) ?_
  cases body with
  | raw data => exact cut_last (cut_fill hserial hP)
  | copyRect srcX srcY =>
      exact cut_bind (cut_u16 i hP srcX) (runs_u16 srcX i) (cut_last (cut_u16 i hP srcY))
  | zrle payload =>
      refine cut_bind (cut_u32 i hP _) (runs_u32 _ i) ?_
      have hcap : ¬ payload.length > maxZrlePayload := by
        intro hcap
        simp [Rect.apply, Rect.decode, if_pos hcap, protocolError] at happly
      rw [toNat_ofNat_lt hserial, if_neg hcap]
      exact cut_last (cut_fill rfl hP)
  | desktopSize => exact cut_nil

/-- A framebuffer that a whole number of rects made of `start`. -/
def Whole (fmt : PixelFormat) (rects : List Rect) (start : Framebuffer × z.State)
    (fb : Framebuffer) : Prop :=
  ∃ j st, (rects.take j).foldlM (Rect.decode fmt) start = .ok (fb, st)

theorem whole_start (fmt : PixelFormat) (rects : List Rect) (start : Framebuffer × z.State) :
    Whole fmt rects start start.1 := ⟨0, start.2, rfl⟩

theorem Whole.cons {fmt : PixelFormat} {r : Rect} {rects : List Rect}
    {start next : Framebuffer × z.State} {fb : Framebuffer} (hr : r.decode fmt start = .ok next)
    (h : Whole fmt rects next fb) : Whole fmt (r :: rects) start fb := by
  obtain ⟨j, st, hj⟩ := h
  refine ⟨j + 1, st, ?_⟩
  rw [List.take_succ_cons, List.foldlM_cons, hr, ok_bind, hj]

/-- Rects that were not all read have drawn whole rects. -/
theorem cut_readRects {rects : List Rect} {p : Progress z} {i : Inner} {out : Progress z × Inner}
    (hserial : ∀ r ∈ rects, r.Serial p.decoders.format) (happly : applyRects rects p i = .ok out) :
    Cut (readRects rects.length p) (rects.flatMap Rect.encode) i (fun s =>
      Whole p.decoders.format rects (i.state.fb, p.decoders.zrle) s.fb ∧
        s.lastCutText = i.state.lastCutText) := by
  induction rects generalizing p i with
  | nil => exact cut_nil
  | cons r rects ih =>
      have hr := hserial r List.mem_cons_self
      rw [applyRects] at happly
      obtain ⟨⟨p₁, i₁⟩, hfirst, hrest⟩ := ok_of_bind happly
      obtain ⟨fb, zrle, hdec, hp, hi⟩ := apply_ok hfirst
      have hserial' : ∀ q ∈ rects, q.Serial p₁.decoders.format := by
        intro q hq
        rw [rect_apply_format hfirst]
        exact hserial q (List.mem_cons_of_mem _ hq)
      have hruns := readRect_runs r p i hr
      rw [hfirst] at hruns
      rw [List.length_cons, List.flatMap_cons, readRects]
      refine cut_bind (cut_readRect hr hfirst ⟨whole_start _ _ _, rfl⟩) hruns ?_
      refine (ih hserial' hrest).mono ?_
      intro s hs
      simp only [hp, hi, afterRect_fb, afterRect_cutText] at hs
      exact ⟨hs.1.cons hdec, hs.2⟩

end Rects

/-! ## Messages -/

section Messages

variable {z : Decompress}

theorem cut_readColourMap (pad : UInt8) (first : UInt16) (entries : List (UInt16 × UInt16 × UInt16))
    {i : Inner} {P : State → Prop} (hlen : entries.length < 2 ^ 16) (hP : P i.state) :
    Cut readColourMap ([pad] ++ be16 first ++ be16 (UInt16.ofNat entries.length) ++
      entries.flatMap (fun e => be16 e.1 ++ be16 e.2.1 ++ be16 e.2.2)) i P := by
  rw [List.append_assoc, List.append_assoc]
  refine cut_bind (cut_u8 i hP pad) (runs_u8 pad i) ?_
  refine cut_bind (cut_u16 i hP first) (runs_u16 first i) ?_
  refine cut_bind (cut_u16 i hP _) (runs_u16 _ i) ?_
  refine cut_skip i hP ?_
  rw [toNat_ofNat16_lt hlen, List.length_flatMap]
  simp

theorem cut_readCutText (pad : UInt8 × UInt8 × UInt8) {text : List UInt8} {i : Inner}
    {P : State → Prop} (h : text.length < 2 ^ 32) (hcap : text.length ≤ maxCutText) (hP : P i.state) :
    Cut readCutText ([pad.1, pad.2.1, pad.2.2] ++ (be32 (UInt32.ofNat text.length) ++ text)) i P :=
  cut_bind (cut_skip i hP rfl) (runs_skip i rfl) (cut_last (cut_string i hP h hcap))

theorem cut_readFramebufferUpdate {continuous : Bool} (pad : UInt8) {rects : List Rect}
    {d : Decoders z} {i : Inner} {out : Decoders z × Inner} (hlen : rects.length < 2 ^ 16)
    (hserial : ∀ r ∈ rects, r.Serial d.format)
    (happly : (Message.update pad rects).apply continuous d i = .ok out) :
    Cut (readFramebufferUpdate continuous d)
      ([pad] ++ be16 (UInt16.ofNat rects.length) ++ rects.flatMap Rect.encode) i (fun s =>
        Whole d.format rects (i.state.fb, d.zrle) s.fb ∧ s.lastCutText = i.state.lastCutText) := by
  have hnothing : Whole d.format rects (i.state.fb, d.zrle) i.state.fb ∧
      i.state.lastCutText = i.state.lastCutText := ⟨whole_start _ _ _, rfl⟩
  simp only [Message.apply] at happly
  obtain ⟨⟨p, i₁⟩, hrects, -⟩ := ok_of_bind happly
  rw [List.append_assoc]
  refine cut_then (runs_inner i fun _ _ _ => rfl) ?_
  refine cut_bind (cut_u8 _ hnothing pad) (runs_u8 pad _) ?_
  refine cut_bind (cut_u16 _ hnothing _) (runs_u16 _ _) ?_
  rw [toNat_ofNat16_lt hlen]
  exact cut_last (cut_readRects hserial hrects)

/-- A message that was not read in full has drawn whole rects. -/
theorem cut_readMessage {continuous : Bool} {m : Message} {d : Decoders z} {i : Inner}
    {out : Decoders z × Inner} (hserial : m.Serial d.format)
    (happly : m.apply continuous d i = .ok out) :
    Cut (readMessage continuous d) m.encode i (fun s =>
      Whole d.format m.rects (i.state.fb, d.zrle) s.fb ∧ s.lastCutText = i.state.lastCutText) := by
  have hstart : ∀ (b : UInt8) (ys : List UInt8) (P : State → Prop), P i.state →
      Cut (handleMessage continuous d b) ys i P → Cut (readMessage continuous d) (b :: ys) i P := by
    intro b ys P hP h
    refine cut_then (runs_op i fun _ _ _ _ => ⟨false, rfl⟩) ?_
    refine cut_bind (cut_u8 i hP b) (runs_u8 b i) ?_
    exact cut_then (runs_op i fun _ _ _ _ => ⟨true, rfl⟩) h
  have hnothing : Whole d.format m.rects (i.state.fb, d.zrle) i.state.fb ∧
      i.state.lastCutText = i.state.lastCutText := ⟨whole_start _ _ _, rfl⟩
  cases m with
  | update pad rects =>
      exact hstart _ _ _ hnothing (cut_readFramebufferUpdate pad hserial.1 hserial.2 happly)
  | colourMap pad first entries =>
      exact hstart _ _ _ hnothing (cut_last (cut_readColourMap pad first entries hserial hnothing))
  | bell => exact hstart _ _ _ hnothing cut_nil
  | cutText pad text =>
      have hcap : text.length ≤ maxCutText := by
        by_contra hcap
        simp [Message.apply, protocolError, Nat.not_le.mp hcap] at happly
      exact hstart _ _ _ hnothing (cut_last (cut_readCutText pad hserial hcap hnothing))

/-! ## The reader -/

theorem markDead_state (reason : Option Error) {ending : Ending} {timeout : Duration} (w : World) :
    ((markDead reason).run (exec ending timeout) w).2.inner.state = w.inner.state := by
  obtain ⟨input, armed, state, events, commands, commandsOpen, shutdown, name, connected,
    generation, begun, last, outstanding, full⟩ := w
  cases connected <;> rfl

/-- What a reader of up to `n` messages shows after `cut` of the bytes of
`ms`: the messages it has all bytes of are through, and some rects of the
next one. -/
def Stands (fmt : PixelFormat) (n cut : Nat) (ms : List Message) (start : Framebuffer × z.State)
    (text : Option String) (s : State) : Prop :=
  ∃ k ≤ ms.length, ∃ j st,
    (n ≤ k ∨ k = ms.length ∨ cut < ((ms.take (k + 1)).flatMap Message.encode).length) ∧
      ((ms.take k).flatMap Message.rects ++
          (((ms.drop k).take 1).flatMap Message.rects).take j).foldlM (Rect.decode fmt) start
        = .ok (s.fb, st) ∧
      s.lastCutText = (ms.take k).foldl Message.cutTextAfter text

theorem Whole.stands {fmt : PixelFormat} {n cut : Nat} {m : Message} {ms : List Message}
    {start : Framebuffer × z.State} {s : State} (h : Whole fmt m.rects start s.fb)
    (hcut : cut < m.encode.length) : Stands fmt n cut (m :: ms) start s.lastCutText s := by
  obtain ⟨j, st, hj⟩ := h
  exact ⟨0, Nat.zero_le _, j, st, .inr (.inr (by simpa using hcut)), by simpa using hj, rfl⟩

theorem Stands.cons {fmt : PixelFormat} {n cut : Nat} {m : Message} {ms : List Message}
    {start next : Framebuffer × z.State} {text : Option String} {s : State}
    (hm : m.rects.foldlM (Rect.decode fmt) start = .ok next)
    (h : Stands fmt n cut ms next (m.cutTextAfter text) s) :
    Stands fmt (n + 1) (m.encode.length + cut) (m :: ms) start text s := by
  obtain ⟨k, hk, j, st, hmax, hdec, htext⟩ := h
  refine ⟨k + 1, Nat.succ_le_succ hk, j, st, ?_, ?_, htext⟩
  · simpa using hmax
  · rw [List.take_succ_cons, List.drop_succ_cons, List.flatMap_cons, List.append_assoc,
      List.foldlM_append, hm, ok_bind, hdec]

/-- With no bytes at all nothing is read. -/
theorem readMessage_nothing (continuous : Bool) (d : Decoders z) (ending : Ending)
    (timeout : Duration) (armed : Bool) (i : Inner) :
    ∃ e w, (readMessage continuous d).run (exec ending timeout) ⟨[], armed, i⟩ = (.error e, w) ∧
      w.inner.state = i.state := by
  have hcut : Cut (readMessage continuous d) [0] i (fun s => s = i.state) :=
    cut_then (runs_op i fun _ _ _ _ => ⟨false, rfl⟩)
      (cut_last (cut_u8 _ (P := fun s => s = i.state) rfl 0))
  exact hcut 0 Nat.one_pos ending timeout armed

/-- A message that fails ends the reader, and the screen stays. -/
theorem readerTask_error {continuous : Bool} {n : Nat} {d : Decoders z} {ending : Ending}
    {timeout : Duration} {w w' : World} {e : Stop}
    (h : (readMessage continuous d).run (exec ending timeout) w = (.error e, w')) :
    ((readerTask continuous (n + 1) d).run (exec ending timeout) w).2.inner.state =
      w'.inner.state := by
  have hattempt : (readMessage continuous d).attempt.run (exec ending timeout) w =
      (.ok (.error e), w') := by
    rw [Prog.run_attempt, h]
  rw [readerTask, Prog.run_bind_ok hattempt]
  cases e with
  | err e => exact markDead_state (some e) w'
  | panic => rfl
  | parked => rfl

theorem readerTask_ok {continuous : Bool} {n : Nat} {d d' : Decoders z} {ending : Ending}
    {timeout : Duration} {w w' : World}
    (h : (readMessage continuous d).run (exec ending timeout) w = (.ok d', w')) :
    (readerTask continuous (n + 1) d).run (exec ending timeout) w =
      (readerTask continuous n d').run (exec ending timeout) w' := by
  have hattempt : (readMessage continuous d).attempt.run (exec ending timeout) w =
      (.ok (.ok d'), w') := by
    rw [Prog.run_attempt, h]
  rw [readerTask, Prog.run_bind_ok hattempt]

/-- Wherever the bytes of messages stop, the reader stands at a rect. -/
theorem readerTask_stands {continuous : Bool} (ending : Ending) (timeout : Duration) {n : Nat} :
    ∀ {ms : List Message} {d d' : Decoders z} {i i' : Inner} (cut : Nat) (armed : Bool),
      (∀ m ∈ ms, m.Serial d.format) → applyMessages continuous ms d i = .ok (d', i') →
      Stands d.format n cut ms (i.state.fb, d.zrle) i.state.lastCutText
        ((readerTask continuous n d).run (exec ending timeout)
          ⟨(ms.flatMap Message.encode).take cut, armed, i⟩).2.inner.state := by
  induction n with
  | zero =>
      intro ms d d' i i' cut armed _ _
      exact ⟨0, Nat.zero_le _, 0, d.zrle, .inl le_rfl, rfl, rfl⟩
  | succ n ih =>
      intro ms d d' i i' cut armed hserial happly
      cases ms with
      | nil =>
          obtain ⟨e, w, hrun, hw⟩ := readMessage_nothing continuous d ending timeout armed i
          rw [List.flatMap_nil, List.take_nil, readerTask_error hrun, hw]
          exact ⟨0, Nat.zero_le _, 0, d.zrle, .inr (.inl rfl), rfl, rfl⟩
      | cons m ms =>
          have hm := hserial m List.mem_cons_self
          rw [applyMessages] at happly
          obtain ⟨⟨d₁, i₁⟩, hfirst, hrest⟩ := ok_of_bind happly
          rw [List.flatMap_cons]
          by_cases hcut : cut < m.encode.length
          · obtain ⟨e, w, hrun, hwhole, htext⟩ :=
              cut_readMessage hm hfirst cut hcut ending timeout armed
            rw [List.take_append_of_le_length (by omega), readerTask_error hrun, ← htext]
            exact hwhole.stands hcut
          · obtain ⟨cut', rfl⟩ : ∃ cut', cut = m.encode.length + cut' :=
              ⟨cut - m.encode.length, by omega⟩
            have hruns := readMessage_runs continuous m d i hm
            rw [hfirst] at hruns
            obtain ⟨armed', hrun⟩ :=
              hruns ending timeout armed ((ms.flatMap Message.encode).take cut')
            obtain ⟨hdec, -, -, htext, -⟩ := message_effect hfirst
            have hformat := apply_format hfirst
            have hserial' : ∀ q ∈ ms, q.Serial d₁.format := by
              intro q hq
              rw [hformat]
              exact hserial q (List.mem_cons_of_mem _ hq)
            have hstands := ih cut' armed' hserial' hrest
            rw [hformat, htext] at hstands
            rw [List.take_length_add_append, readerTask_ok hrun]
            exact hstands.cons hdec

/-- **A screen is never torn inside a rect**: wherever a server's bytes stop,
a reader from a fresh connection has taken in the messages it has all bytes
of, and has drawn a whole number of rects, each by its decoder. -/
theorem reader_stands {plain : List UInt8 → Option (List UInt8)} (hz : Inflates z plain)
    {width height : UInt16} {ms : List Message}
    (hms : MessagesWellFormed plain maxZrlePayload (width, height) [] ms) (continuous : Bool)
    (name : String) (ending : Ending) (timeout : Duration) (armed : Bool) (n cut : Nat) :
    Stands .rgbx32 n cut ms (.black width height, z.new) none
      ((readerTask continuous n (Decoders.new z)).run (exec ending timeout)
        ⟨(ms.flatMap Message.encode).take cut, armed, .new width height name⟩).2.inner.state := by
  obtain ⟨d', i', hall⟩ := applyMessages_wellFormed hz continuous hms (d := Decoders.new z)
    (i := .new width height name) rfl (keepsUp_new hz width height)
  have hserial : ∀ m ∈ ms, m.Serial (Decoders.new z).format :=
    serial_of_wellFormed (by decide) hms
  have hstands := readerTask_stands (n := n) ending timeout cut armed hserial hall
  have hfb : (Inner.new width height name).state.fb = .black width height := rfl
  have htext : (Inner.new width height name).state.lastCutText = none := rfl
  have hformat : (Decoders.new z).format = .rgbx32 := rfl
  have hzrle : (Decoders.new z).zrle = z.new := rfl
  rw [hfb, htext, hformat, hzrle] at hstands
  exact hstands

end Messages

/-- Cut inside the second rect of an update, after a clipboard. -/
theorem reader_stands_inside :
    let ms : List Message := [.cutText (0, 0, 0) [104, 233],
      .update 0 [⟨0, 0, 1, 1, .raw [255, 0, 0, 0]⟩, ⟨0, 0, 1, 1, .copyRect 0 0⟩]]
    Stands .rgbx32 3 33 ms (.black 1 1, stored.new) none
      ((readerTask true 3 (Decoders.new stored)).run (exec .closed 0)
        ⟨(ms.flatMap Message.encode).take 33, false, .new 1 1 "d"⟩).2.inner.state := by
  intro ms
  have hms : MessagesWellFormed (fun bytes => some (storedPlain bytes)) maxZrlePayload (1, 1) [] ms :=
    .cutText (by decide) (.update (by decide)
      (.cons ⟨by decide, rfl, rfl⟩ (.cons ⟨by decide, by decide, by decide, rfl⟩ .nil)) .nil)
  exact reader_stands inflates_stored hms true "d" .closed 0 false 3 33

end Bolide.Rfb
