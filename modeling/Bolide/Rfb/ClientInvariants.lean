/-
Bolide.Rfb.ClientInvariants — what no server can do to the framebuffer.

The read loop is shown to follow a discipline: it only ever draws with
decoders that are safe on a well-formed framebuffer, it never fails with a
panic, and it announces a paint right after marking the screen painted.
`Lib.Prog.Follows.steps` then carries the invariant over every point of
every run, whatever the bytes.
-/
import Bolide.Rfb.Client
import Bolide.Rfb.FramebufferTheorems
import Bolide.Rfb.ZrleTheorems
import Bolide.Rfb.InflateTheorems

namespace Bolide.Rfb

open Lib

/-! ## The discipline -/

/-- Draw safely, expect as many bytes as were asked for, and never panic. The
ghost state is whether the screen has just been marked painted: that is said
next, and at no other time. -/
def Safely : Prog.Discipline SessionSig Stop Bool where
  may fresh o := match fresh, o with
    | true, .emit (.painted _) => True
    | true, _ => False
    | false, .emit (.painted _) => False
    | false, .draw f => ∀ fb : Framebuffer, fb.WellFormed → fb.Safe (f fb)
    | false, _ => True
  answers _ o r := match o, r with
    | .fill n, .ok bytes => bytes.length = n
    | .fill _, .error e => e ≠ .panic
    | .draw _, .error e => e ≠ .panic
    | _, _ => True
  next _ o _ := match o with
    | .setPainted => true
    | _ => false
  fails fresh e := fresh = false ∧ e ≠ .panic

/-- A task that follows it, whatever it returns. -/
abbrev Safe {α : Type} (p : Task α) : Prop := Prog.Follows Safely false p fun _ fresh => fresh = false

theorem safe_bind {α β : Type} {p : Task α} {f : α → Task β} (hp : Safe p)
    (hf : ∀ a, Safe (f a)) : Safe (p >>= f) :=
  Prog.follows_bind hp fun a fresh hfresh => by
    subst hfresh
    exact hf a

theorem safe_pure {α : Type} (a : α) : Safe (pure a : Task α) := rfl

/-- An operation that is always allowed. -/
theorem safe_op {o : Op} (h : Safely.may false o) (hnot : o ≠ .setPainted) : Safe (op o) := by
  refine ⟨h, fun r _ => ?_⟩
  cases o with
  | setPainted => exact absurd rfl hnot
  | _ => rfl

/-- A private computation that cannot panic. -/
theorem safe_ofExcept {α : Type} {x : Outcome α} (h : ∀ e, x = .error e → e ≠ .panic) :
    Safe (Prog.ofExcept x) := by
  cases x with
  | ok a => rfl
  | error e => exact ⟨rfl, h e rfl⟩

/-! ## Reading -/

/-- A read is followed by what can be done with that many bytes. -/
theorem safe_fill_bind {β : Type} {n : Nat} {f : List UInt8 → Task β}
    (hf : ∀ bytes : List UInt8, bytes.length = n → Safe (f bytes)) : Safe (fill n >>= f) := by
  refine ⟨trivial, fun r hr => ?_⟩
  cases r with
  | ok bytes => exact hf bytes hr
  | error e => exact ⟨rfl, hr⟩

theorem safe_fill (n : Nat) : Safe (fill n) := by
  refine ⟨trivial, fun r hr => ?_⟩
  cases r with
  | ok bytes => rfl
  | error e => exact ⟨rfl, hr⟩

theorem safe_u8 : Safe Conn.u8 := by
  refine safe_fill_bind fun b hb => ?_
  obtain ⟨x, rfl⟩ := List.length_eq_one_iff.mp hb
  rfl

theorem safe_u16 : Safe Conn.u16 := safe_bind (safe_fill 2) fun _ => safe_pure _

theorem safe_u32 : Safe Conn.u32 := safe_bind (safe_fill 4) fun _ => safe_pure _

theorem safe_i32 : Safe Conn.i32 := safe_bind safe_u32 fun _ => safe_pure _

theorem safe_skip (n : Nat) : Safe (Conn.skip n) := by
  fun_induction Conn.skip n with
  | case1 n hn take ih => exact safe_bind (safe_fill _) fun _ => ih
  | case2 n hn => exact safe_pure _

theorem safe_string (cap : Nat) : Safe (Conn.string cap) := by
  refine safe_bind safe_u32 fun len => ?_
  split
  · exact safe_ofExcept (by rintro e ⟨⟩; simp)
  · exact safe_bind (safe_fill _) fun _ => safe_pure _

/-! ## Drawing -/

theorem safe_draw {f : Framebuffer → Outcome Framebuffer}
    (h : ∀ fb : Framebuffer, fb.WellFormed → fb.Safe (f fb)) : Safe (draw f) := by
  refine ⟨h, fun r hr => ?_⟩
  cases r with
  | ok _ => rfl
  | error e => exact ⟨rfl, hr⟩

/-- What a rect decodes to is as large as the rect and opaque. -/
theorem decodeRect_ok {z : Decompress} {s s' : z.State} {payload rgba : List UInt8}
    {fmt : PixelFormat} {w h : UInt16} (hok : decodeRect z s payload fmt w h = .ok (rgba, s')) :
    rgba.length = w.toNat * h.toNat * 4 ∧
      ∀ i < w.toNat, ∀ j < h.toNat, (pixelAt rgba w.toNat i j)[3]? = some 255 := by
  rw [decodeRect] at hok
  cases hslice : inflateSlice z s payload with
  | error e => rw [hslice] at hok; cases hok
  | ok r =>
      rw [hslice, ok_bind] at hok
      cases hdec : decodeTiles r.1 fmt w h with
      | error e => simp only [hdec] at hok; cases hok
      | ok px =>
          simp only [hdec] at hok
          cases hok
          exact decodeTiles_ok hdec

theorem decodeRect_fails {z : Decompress} {s : z.State} {payload : List UInt8}
    {fmt : PixelFormat} {w h : UInt16} {e : Stop}
    (herr : decodeRect z s payload fmt w h = .error e) : e.IsProtocol := by
  rw [decodeRect] at herr
  cases hslice : inflateSlice z s payload with
  | error e' =>
      rw [hslice] at herr
      cases herr
      exact inflateLoop_fails z s payload [] hslice
  | ok r =>
      rw [hslice, ok_bind] at herr
      cases hdec : decodeTiles r.1 fmt w h with
      | error e' =>
          simp only [hdec] at herr
          cases herr
          exact decodeTiles_fails hdec
      | ok px => simp only [hdec] at herr; cases herr

/-! ## The read loop -/

theorem safe_readZrle {z : Decompress} (p : Progress z) (x y w h : UInt16) :
    Safe (readZrle p x y w h) := by
  refine safe_bind safe_u32 fun len => ?_
  split
  · exact safe_ofExcept (by rintro e ⟨⟩; simp)
  · refine safe_bind (safe_fill _) fun payload => ?_
    cases hdec : decodeRect z p.decoders.zrle payload p.decoders.format w h with
    | error e => exact ⟨rfl, (decodeRect_fails hdec).ne_panic⟩
    | ok r =>
        have halpha := (decodeRect_ok hdec).2
        rw [Prog.ofExcept_ok, Prog.ret_bind]
        exact safe_bind (safe_draw fun fb hfb => blitRgba_safe hfb x y w h halpha) fun _ => safe_pure _

theorem safe_readRect {z : Decompress} (p : Progress z) : Safe (readRect p) := by
  refine safe_bind safe_u16 fun x => safe_bind safe_u16 fun y => safe_bind safe_u16 fun w =>
    safe_bind safe_u16 fun h => safe_bind safe_i32 fun encoding => ?_
  split
  · exact safe_bind (safe_fill _) fun data =>
      safe_bind (safe_draw fun fb hfb => blitRaw_safe hfb x y w h _ data) fun _ => safe_pure _
  · split
    · exact safe_bind safe_u16 fun srcX => safe_bind safe_u16 fun srcY =>
        safe_bind (safe_draw fun fb hfb => copyRect_safe hfb x y w h srcX srcY) fun _ => safe_pure _
    · split
      · exact safe_readZrle p x y w h
      · split
        · exact safe_bind (safe_op trivial (by simp)) fun _ =>
            safe_bind (safe_op trivial (by simp)) fun _ =>
              safe_bind (safe_op trivial (by simp)) fun _ => safe_pure _
        · exact ⟨rfl, fun h => by cases h⟩

theorem safe_readRects {z : Decompress} : ∀ (n : Nat) (p : Progress z), Safe (readRects n p)
  | 0, _ => safe_pure _
  | n + 1, p => safe_bind (safe_readRect p) fun p' => safe_readRects n p'

theorem safe_send (command : Command) : Safe (send command) := by
  refine safe_bind (safe_op trivial (by simp)) fun connected => ?_
  split
  · exact safe_pure _
  · refine safe_bind ?_ fun _ => safe_bind (safe_op trivial (by simp)) fun _ => safe_pure _
    cases command with
    | write bytes => exact safe_pure _
    | request incremental => exact safe_op trivial (by simp)

theorem safe_askAgain (wanted : Bool) : Safe (askAgain wanted) := by
  unfold askAgain
  split
  · exact safe_bind (safe_send _) fun _ => safe_pure _
  · exact safe_pure _

theorem safe_announcePainted (update : Nat) (paintedAny : Bool) :
    Safe (announcePainted update paintedAny) := by
  unfold announcePainted
  split
  · refine safe_bind (safe_op trivial (by simp)) fun generation => ?_
    refine safe_bind (safe_op trivial (by simp)) fun _ => ?_
    exact ⟨trivial, fun _ _ => ⟨trivial, fun _ _ => rfl⟩⟩
  · exact safe_pure _

theorem safe_finishUpdate {z : Decompress} (continuous : Bool) (update : Nat) (p : Progress z) :
    Safe (finishUpdate continuous update p) :=
  safe_bind (safe_op trivial (by simp)) fun _ => safe_bind (safe_askAgain _) fun _ =>
    safe_bind (safe_announcePainted _ _) fun _ => safe_pure _

theorem safe_readColourMap : Safe readColourMap :=
  safe_bind safe_u8 fun _ => safe_bind safe_u16 fun _ => safe_bind safe_u16 fun _ => safe_skip _

theorem safe_readCutText : Safe readCutText :=
  safe_bind (safe_skip 3) fun _ => safe_bind (safe_string _) fun _ =>
    safe_bind (safe_op trivial (by simp)) fun _ => safe_op trivial (by simp)

theorem safe_handleMessage {z : Decompress} (continuous : Bool) (d : Decoders z) (message : UInt8) :
    Safe (handleMessage continuous d message) := by
  unfold handleMessage
  split
  · exact safe_bind (safe_op trivial (by simp)) fun update => safe_bind safe_u8 fun _ =>
      safe_bind safe_u16 fun count => safe_bind (safe_readRects _ _) fun p =>
        safe_finishUpdate continuous update p
  · split
    · exact safe_bind safe_readColourMap fun _ => safe_pure _
    · split
      · exact safe_bind (safe_op trivial (by simp)) fun _ => safe_pure _
      · split
        · exact safe_bind safe_readCutText fun _ => safe_pure _
        · exact safe_ofExcept (by rintro e ⟨⟩; simp)

theorem safe_readMessage {z : Decompress} (continuous : Bool) (d : Decoders z) :
    Safe (readMessage continuous d) :=
  safe_bind (safe_op trivial (by simp)) fun _ => safe_bind safe_u8 fun message =>
    safe_bind (safe_op trivial (by simp)) fun _ => safe_handleMessage continuous d message

theorem safe_markDead (reason : Option Error) : Safe (markDead reason) := by
  refine safe_bind (safe_op trivial (by simp)) fun was => ?_
  split
  · exact safe_bind (safe_op trivial (by simp)) fun _ => safe_op trivial (by simp)
  · exact safe_pure _

theorem safe_readerTask {z : Decompress} (continuous : Bool) : ∀ (n : Nat) (d : Decoders z),
    Safe (readerTask continuous n d)
  | 0, _ => safe_pure _
  | n + 1, d => by
      refine Prog.follows_bind
        (R := fun outcome fresh => fresh = false ∧ ∀ e, outcome = .error e → e ≠ .panic)
        (Prog.follows_attempt (safe_readMessage continuous d)
          (by rintro d _ hfresh; exact ⟨hfresh, by rintro e ⟨⟩⟩)
          (by rintro e _ ⟨hfresh, he⟩; exact ⟨hfresh, by rintro _ ⟨⟩; exact he⟩))
        fun outcome fresh hout => ?_
      obtain ⟨rfl, hout⟩ := hout
      match outcome, hout with
      | .ok d, _ => exact safe_readerTask continuous n d
      | .error (.err e), _ => exact safe_markDead (some e)
      | .error .panic, hout => exact absurd rfl (hout .panic rfl)
      | .error .parked, _ => exact ⟨rfl, fun h => by cases h⟩

/-! ## The invariant -/

/-- What is drawn is safe. -/
theorem safe_of_may {fresh : Bool} {f : Framebuffer → Outcome Framebuffer}
    (h : Safely.may fresh (.draw f)) (fb : Framebuffer) (hfb : fb.WellFormed) : fb.Safe (f fb) := by
  cases fresh with
  | false => exact h fb hfb
  | true => exact h.elim

/-- The connection answers as the discipline expects. -/
theorem exec_answers (ending : Ending) (timeout : Duration) (w : World)
    (hw : w.inner.state.fb.WellFormed) (fresh : Bool) (o : Op) (ho : Safely.may fresh o) :
    Safely.answers fresh o (exec ending timeout o w).1 := by
  cases o with
  | fill n =>
      simp only [exec, fillFrom]
      split
      · next hn =>
          show (w.input.take n).length = n
          rw [List.length_take]
          omega
      · cases ending <;> cases w.armed <;> exact fun h => by cases h
  | draw f =>
      have hsafe := safe_of_may ho w.inner.state.fb hw
      simp only [exec, execInner]
      cases hf : f w.inner.state.fb with
      | ok fb => trivial
      | error e =>
          rw [hf] at hsafe
          exact hsafe.ne_panic
  | _ => trivial

/-- Every operation of the discipline keeps the framebuffer well formed. -/
theorem exec_wellFormed (ending : Ending) (timeout : Duration) (w : World)
    (hw : w.inner.state.fb.WellFormed) (fresh : Bool) (o : Op) (ho : Safely.may fresh o) :
    (exec ending timeout o w).2.inner.state.fb.WellFormed := by
  cases o with
  | draw f =>
      have hsafe := safe_of_may ho w.inner.state.fb hw
      simp only [exec, execInner]
      cases hf : f w.inner.state.fb with
      | ok fb =>
          rw [hf] at hsafe
          exact hsafe.1
      | error e => exact hw
  | desktopSize width height => exact black_wellFormed width height
  | push command =>
      simp only [exec, execInner]
      split <;> exact hw
  | _ => exact hw

/-- **No server can corrupt the framebuffer**: at every point of every run
of the reader task, on any bytes, the framebuffer is as long as its size says
and opaque, and the task has not panicked. -/
theorem readerTask_wellFormed {z : Decompress} {continuous : Bool} {ending : Ending}
    {timeout : Duration} {input : List UInt8} {armed : Bool} {width height : UInt16}
    {name : String} {n : Nat} {p : Task Unit} {w : World}
    (hrun : Prog.Steps (exec ending timeout) (readerTask continuous n (Decoders.new z))
      ⟨input, armed, Inner.new width height name⟩ p w) :
    w.inner.state.fb.rgba.length
        = w.inner.state.fb.width.toNat * w.inner.state.fb.height.toNat * 4 ∧
      (∀ x < w.inner.state.fb.width.toNat, ∀ y < w.inner.state.fb.height.toNat,
        (pixelAt w.inner.state.fb.rgba w.inner.state.fb.width.toNat x y)[3]? = some 255) ∧
      p ≠ .fail .panic := by
  obtain ⟨_, hfollows, hwf⟩ := (safe_readerTask continuous n (Decoders.new z)).steps
    (I := fun _ w => w.inner.state.fb.WellFormed) (black_wellFormed width height) hrun
    (fun fresh o w hw ho => exec_answers ending timeout w hw fresh o ho)
    (fun fresh o w hw ho => exec_wellFormed ending timeout w hw fresh o ho)
  refine ⟨hwf.length, hwf.alpha, ?_⟩
  rintro rfl
  exact hfollows.2 rfl

/-- A resize to 1x1 and a stream that ends inside the next update. -/
theorem readerTask_wellFormed_resize :
    let w := ((readerTask false 2 (Decoders.new stored)).run (exec .closed 0)
      ⟨[0, 0, 0, 1, 0, 0, 0, 0, 0, 1, 0, 1, 255, 255, 255, 33, 0], false, Inner.new 2 2 "d"⟩).2
    w.inner.state.fb.rgba.length
        = w.inner.state.fb.width.toNat * w.inner.state.fb.height.toNat * 4 ∧
      w.inner.connected = false := by
  refine ⟨(readerTask_wellFormed (Prog.steps_run (readerTask false 2 (Decoders.new stored)) _)).1,
    ?_⟩
  decide +kernel

end Bolide.Rfb
