/-
Bolide.Rfb.AllocationTheorems — no length is trusted, where the rects fit.

A payload is read and a rect decoded before `check_bounds` sees the rect. So
the buffers are as small as the screen, or as the cap on ZRLE payloads, as
long as the server sends rects that fit (`buffers_guarded`), and as large as
two `u16` can ask for when it does not.
-/
import Bolide.Rfb.Allocation
import Bolide.Rfb.ClientInvariants

namespace Bolide.Rfb

open Lib Lib.Prog

/-- The size of the screen a task works on. -/
def screenOf (w : World) : UInt16 × UInt16 := (w.inner.state.fb.width, w.inner.state.fb.height)

/-- What a marked reader has written down: each mark, and the size of the
screen at that moment. -/
abbrev Notes := List (Mark × (UInt16 × UInt16))

/-- The rect lies on a screen of that size. -/
def RectHeader.Fits (rect : RectHeader) (size : UInt16 × UInt16) : Prop :=
  rect.x.toNat + rect.w.toNat ≤ size.1.toNat ∧ rect.y.toNat + rect.h.toNat ≤ size.2.toNat

/-- The header asks for no payload outside the screen. -/
def Mark.Asks : Mark → UInt16 × UInt16 → Prop
  | raw rect, size => rect.Fits size
  | zrle rect len, size => len.toNat ≤ maxZrlePayload → rect.Fits size
  | buffer _ _, _ => True

/-- Every rect with a payload that was announced lies on the screen. -/
def Fitting (notes : Notes) : Prop := ∀ note ∈ notes, note.1.Asks note.2

/-- Every buffer is for a rect that lies on the screen, and no larger than
the cap or the screen. -/
def Guarded (notes : Notes) : Prop :=
  ∀ rect n size, (Mark.buffer rect n, size) ∈ notes →
    n ≤ max maxZrlePayload (4 * size.1.toNat * size.2.toNat) ∧ rect.Fits size

/-! ## The discipline of the marks -/

/-- The rect in hand, from its header to what is drawn of it: buffers are
allocated for no other, and for no other lengths. -/
def Allocating : Discipline (SessionSig.sum (markSig Mark)) Stop (Option RectHeader) where
  may
    | inHand, .inr (.buffer rect n) =>
        inHand = some rect ∧ (n ≤ maxZrlePayload ∨ n = 4 * rect.w.toNat * rect.h.toNat)
    | _, _ => True
  answers _ _ _ := True
  next
    | _, .inr (.raw rect), _ => some rect
    | _, .inr (.zrle rect len), _ => if len.toNat ≤ maxZrlePayload then some rect else none
    | inHand, .inr (.buffer _ _), _ => inHand
    | inHand, .inl (.fill _), _ => inHand
    | _, .inl _, _ => none
  fails _ _ := True

section Follows

variable {z : Decompress}

/-- The reader's pixels are the ones it asked for. -/
def Usual (p : Progress z) : Prop := p.decoders.format = .rgbx32

abbrev Allocates {α : Type} (inHand : Option RectHeader) (p : MarkedTask α) (R : α → Prop) : Prop :=
  Follows Allocating inHand p fun a _ => R a

/-- A task without marks allocates for no rect. -/
theorem allocates_unmarked {α : Type} {p : Task α} {R : α → Prop}
    (hp : p.Only (fun _ => True) R) (inHand : Option RectHeader) :
    Allocates inHand (unmarked p) R :=
  follows_unmarked (fun _ _ => trivial) (fun _ _ => trivial) hp inHand

theorem only_true {α : Type} (p : Task α) : p.Only (fun _ => True) (fun _ => True) := by
  induction p with
  | ret a => trivial
  | fail e => trivial
  | step o k ih => exact ⟨trivial, ih⟩

/-- What is returned after anything else. -/
theorem only_then {α β : Type} (p : Task α) {f : α → Task β} {R : β → Prop}
    (hf : ∀ a, (f a).Only (fun _ => True) R) : (p >>= f).Only (fun _ => True) R :=
  Only.bind (only_true p) fun a _ => hf a

theorem only_pure {α : Type} {a : α} {R : α → Prop} (h : R a) :
    (pure a : Task α).Only (fun _ => True) R := h

theorem allocates_bind {α β : Type} {inHand : Option RectHeader} {p : MarkedTask α}
    {f : α → MarkedTask β} {R : α → Prop} {R' : β → Prop} (hp : Allocates inHand p R)
    (hf : ∀ a, R a → ∀ inHand, Allocates inHand (f a) R') : Allocates inHand (p >>= f) R' :=
  follows_bind hp fun a inHand ha => hf a ha inHand

/-- What was read, and then whatever is done with it. -/
theorem allocates_read {α β : Type} {inHand : Option RectHeader} (p : Task α)
    {f : α → MarkedTask β} {R' : β → Prop} (hf : ∀ a inHand, Allocates inHand (f a) R') :
    Allocates inHand (unmarked p >>= f) R' :=
  allocates_bind (allocates_unmarked (only_true p) inHand) fun a _ => hf a

section Returns

variable {p : Progress z} (hp : Usual p) (x y w h : UInt16)

include hp

theorem readRaw_usual : (readRaw p x y w h).Only (fun _ => True) Usual :=
  only_then _ fun _ => only_then _ fun _ => only_pure (by exact hp)

theorem readCopyRect_usual : (readCopyRect p x y w h).Only (fun _ => True) Usual :=
  only_then _ fun _ => only_then _ fun _ => only_then _ fun _ => only_pure (by exact hp)

theorem readDesktopSize_usual : (readDesktopSize p w h).Only (fun _ => True) Usual :=
  only_then _ fun _ => only_then _ fun _ => only_then _ fun _ => only_pure (by exact hp)

theorem finishUpdate_usual (continuous : Bool) (update : Nat) :
    (finishUpdate continuous update p).Only (fun _ => True) (fun d => d.format = .rgbx32) :=
  only_then _ fun _ => only_then _ fun _ => only_then _ fun _ => only_pure hp

end Returns

theorem markedRaw_allocates {p : Progress z} (hp : Usual p) (x y w h : UInt16)
    (inHand : Option RectHeader) : Allocates inHand (markedRaw p x y w h) Usual := by
  refine follows_mark trivial (follows_mark ⟨rfl, .inr ?_⟩ ?_)
  · have hbpp : PixelFormat.rgbx32.bytesPerPixel = 4 := rfl
    rw [hp, hbpp, Nat.mul_comm, Nat.mul_assoc]
  · exact allocates_unmarked (readRaw_usual hp x y w h) _

theorem markedZrle_allocates {p : Progress z} (hp : Usual p) (x y w h : UInt16)
    (inHand : Option RectHeader) : Allocates inHand (markedZrle p x y w h) Usual := by
  refine allocates_read _ fun len _ => follows_mark trivial ?_
  split
  · trivial
  · next hlen =>
      have hcap : len.toNat ≤ maxZrlePayload := Nat.le_of_not_lt hlen
      show Follows Allocating (if len.toNat ≤ maxZrlePayload then some _ else none) _ _
      rw [if_pos hcap]
      refine follows_mark ⟨rfl, .inl hcap⟩ ?_
      -- the payload is read with the rect in hand
      refine ⟨trivial, fun got _ => ?_⟩
      cases got with
      | error e => trivial
      | ok payload =>
          show Follows Allocating (some ⟨x, y, w, h⟩) (Prog.ofExcept _ >>= _) _
          cases inflateSlice z p.decoders.zrle payload with
          | error e => trivial
          | ok r =>
              rw [ofExcept_ok, ret_bind]
              refine follows_mark ⟨rfl, .inr (by rw [Nat.mul_comm, Nat.mul_assoc])⟩ ?_
              cases decodeTiles r.1 p.decoders.format w h with
              | error e => trivial
              | ok rgba => exact allocates_read _ fun _ _ => hp

theorem markedRect_allocates {p : Progress z} (hp : Usual p) (inHand : Option RectHeader) :
    Allocates inHand (markedRect p) Usual := by
  refine allocates_read _ fun x _ => allocates_read _ fun y _ => allocates_read _ fun w _ =>
    allocates_read _ fun h _ => allocates_read _ fun encoding inHand => ?_
  split
  · exact markedRaw_allocates hp x y w h inHand
  · split
    · exact allocates_unmarked (readCopyRect_usual hp x y w h) inHand
    · split
      · exact markedZrle_allocates hp x y w h inHand
      · split
        · exact allocates_unmarked (readDesktopSize_usual hp w h) inHand
        · trivial

theorem markedRects_allocates : ∀ (n : Nat) {p : Progress z}, Usual p →
    ∀ inHand, Allocates inHand (markedRects n p) Usual
  | 0, _, hp, _ => hp
  | n + 1, _, hp, inHand =>
      allocates_bind (markedRect_allocates hp inHand) fun _ hp => markedRects_allocates n hp

theorem markedMessage_allocates (continuous : Bool) {d : Decoders z} (hd : d.format = .rgbx32)
    (inHand : Option RectHeader) :
    Allocates inHand (markedMessage continuous d) (fun d => d.format = .rgbx32) := by
  refine allocates_read _ fun _ _ => allocates_read _ fun message _ =>
    allocates_read _ fun _ inHand => ?_
  unfold markedHandle
  split
  · refine allocates_read _ fun update _ => allocates_read _ fun _ _ =>
      allocates_read _ fun count _ => allocates_bind
        (markedRects_allocates _ (show Usual ⟨d, false, false⟩ from hd) _) fun p hp _ => ?_
    exact allocates_unmarked (finishUpdate_usual hp continuous update) _
  · next hupdate =>
      refine allocates_unmarked ?_ inHand
      rw [handleMessage, if_neg hupdate]
      split
      · exact only_then _ fun _ => only_pure hd
      · split
        · exact only_then _ fun _ => only_pure hd
        · split
          · exact only_then _ fun _ => only_pure hd
          · trivial

theorem markedReaderTask_allocates (continuous : Bool) : ∀ (n : Nat) {d : Decoders z},
    d.format = .rgbx32 → ∀ inHand,
    Allocates inHand (markedReaderTask continuous n d) (fun _ => True)
  | 0, _, _, _ => trivial
  | n + 1, d, hd, inHand => by
      refine follows_bind (R := fun outcome _ => ∀ d, outcome = .ok d → d.format = .rgbx32)
        (follows_attempt (markedMessage_allocates continuous hd inHand)
          (fun d _ hd _ heq => by cases heq; exact hd) (fun _ _ _ _ heq => by cases heq))
        fun outcome inHand hformat => ?_
      match outcome, hformat with
      | .ok d, hformat => exact markedReaderTask_allocates continuous n (hformat d rfl) inHand
      | .error (.err e), _ => exact allocates_unmarked (only_true _) inHand
      | .error .panic, _ => trivial
      | .error .parked, _ => trivial

end Follows

/-! ## The invariant -/

/-- The rect in hand lies on the screen, as far as the rects fit. -/
structure Kept (inHand : Option RectHeader) (w : World × Notes) : Prop where
  guarded : Fitting w.2 → Guarded w.2
  inHand : Fitting w.2 → ∀ rect, inHand = some rect → rect.Fits (screenOf w.1)

theorem fitting_append {notes : Notes} {m : Mark} {size : UInt16 × UInt16} :
    Fitting (notes ++ [(m, size)]) ↔ Fitting notes ∧ m.Asks size := by
  unfold Fitting
  simp only [List.mem_append, List.mem_singleton]
  constructor
  · intro h
    exact ⟨fun note hmem => h note (.inl hmem), h (m, size) (.inr rfl)⟩
  · rintro ⟨hnotes, hlast⟩ note (hmem | rfl)
    · exact hnotes note hmem
    · exact hlast

/-- A mark that is no buffer. -/
theorem guarded_append {notes : Notes} {m : Mark} {size : UInt16 × UInt16} (h : Guarded notes)
    (hm : ∀ rect n, m = .buffer rect n →
      n ≤ max maxZrlePayload (4 * size.1.toNat * size.2.toNat) ∧ rect.Fits size) :
    Guarded (notes ++ [(m, size)]) := by
  intro rect n size' hmem
  rcases List.mem_append.mp hmem with hmem | hmem
  · exact h rect n size' hmem
  · cases List.mem_singleton.mp hmem
    exact hm rect n rfl

/-- A rect on the screen has no more pixels than the screen. -/
theorem RectHeader.Fits.area {rect : RectHeader} {size : UInt16 × UInt16} (h : rect.Fits size) :
    4 * rect.w.toNat * rect.h.toNat ≤ 4 * size.1.toNat * size.2.toNat := by
  obtain ⟨hx, hy⟩ := h
  exact Nat.mul_le_mul (Nat.mul_le_mul_left 4 (by omega)) (by omega)

theorem kept_next (ending : Ending) (timeout : Duration) (inHand : Option RectHeader)
    (o : (SessionSig.sum (markSig Mark)).Op) (w : World × Notes) (hkept : Kept inHand w)
    (hmay : Allocating.may inHand o) :
    Kept (Allocating.next inHand o (noting (exec ending timeout) screenOf o w).1)
      (noting (exec ending timeout) screenOf o w).2 := by
  obtain ⟨w, notes⟩ := w
  obtain ⟨hguarded, hinHand⟩ := hkept
  cases o with
  | inl o =>
      refine ⟨hguarded, fun hfit rect hrect => ?_⟩
      cases o with
      | fill n => exact hinHand hfit rect hrect
      | _ => cases hrect
  | inr m =>
      cases m with
      | raw rect =>
          constructor
          · intro hfit
            obtain ⟨hnotes, -⟩ := fitting_append.mp hfit
            exact guarded_append (hguarded hnotes) (fun _ _ heq => by cases heq)
          · intro hfit rect' hrect
            cases hrect
            exact (fitting_append.mp hfit).2
      | zrle rect len =>
          constructor
          · intro hfit
            obtain ⟨hnotes, -⟩ := fitting_append.mp hfit
            exact guarded_append (hguarded hnotes) (fun _ _ heq => by cases heq)
          · intro hfit rect' hrect
            have hnext : (if len.toNat ≤ maxZrlePayload then some rect else none) = some rect' := hrect
            split at hnext
            · next hcap =>
                cases hnext
                exact (fitting_append.mp hfit).2 hcap
            · cases hnext
      | buffer rect n =>
          obtain ⟨rfl, hlen⟩ := hmay
          constructor
          · intro hfit
            obtain ⟨hnotes, -⟩ := fitting_append.mp hfit
            refine guarded_append (hguarded hnotes) fun rect' n' heq => ?_
            cases heq
            have hfits := hinHand hnotes rect rfl
            have harea := hfits.area
            refine ⟨?_, hfits⟩
            rcases hlen with hcap | hpixels
            · exact Nat.le_trans hcap (Nat.le_max_left _ _)
            · exact Nat.le_trans (hpixels ▸ harea) (Nat.le_max_right _ _)
          · intro hfit rect' hrect
            exact hinHand (fitting_append.mp hfit).1 rect' hrect

/-! ## What the server makes the reader allocate -/

section Buffers

variable {z : Decompress} {continuous : Bool} {ending : Ending} {timeout : Duration}
  {input : List UInt8} {armed : Bool} {width height : UInt16} {name : String} {n : Nat}
  {p : MarkedTask Unit} {w : World} {notes : Notes}

/-- **No length is trusted, where the rects fit**: at every point of every run
of the reader, on any bytes, as long as every rect with a payload lay on the
screen of its moment, every buffer was for such a rect and no larger than the
cap or the screen. -/
theorem buffers_guarded
    (hrun : Steps (noting (exec ending timeout) screenOf)
      (markedReaderTask continuous n (Decoders.new z))
      (⟨input, armed, Inner.new width height name⟩, []) p (w, notes))
    (hfit : Fitting notes) : Guarded notes := by
  have hstart : Kept none
      ((⟨input, armed, Inner.new width height name⟩, []) : World × Notes) :=
    ⟨fun _ _ _ _ hmem => absurd hmem List.not_mem_nil, fun _ _ hrect => by cases hrect⟩
  obtain ⟨inHand, -, hkept⟩ := (markedReaderTask_allocates continuous n rfl none).steps
    (I := Kept) hstart hrun (fun _ _ _ _ _ => trivial)
    (fun inHand o w hw ho => kept_next ending timeout inHand o w hw ho)
  exact hkept.guarded hfit

end Buffers

/-- One Raw pixel on a screen of 2x1. -/
def rawPixelMessage : List UInt8 := [0, 0, 0, 1, 0, 1, 0, 0, 0, 1, 0, 1, 0, 0, 0, 0, 1, 2, 3, 0]

theorem buffers_guarded_pixel : Guarded
    ((markedReaderTask false 1 (Decoders.new stored)).run (noting (exec .closed 0) screenOf)
      (⟨rawPixelMessage, false, Inner.new 2 1 "d"⟩, [])).2.2 :=
  buffers_guarded (steps_run (markedReaderTask false 1 (Decoders.new stored)) _) (by
    have hnotes : ((markedReaderTask false 1 (Decoders.new stored)).run
        (noting (exec .closed 0) screenOf) (⟨rawPixelMessage, false, Inner.new 2 1 "d"⟩, [])).2.2 =
        [(.raw ⟨1, 0, 1, 1⟩, (2, 1)), (.buffer ⟨1, 0, 1, 1⟩ 4, (2, 1))] := by decide +kernel
    rw [hnotes]
    intro note hmem
    rcases List.mem_cons.mp hmem with rfl | hmem
    · exact ⟨by decide, by decide⟩
    · rw [List.mem_singleton.mp hmem]
      trivial)

/-- The header of a Raw rect of 65535x65535, and nothing else. -/
def hugeRawHeader : List UInt8 := [0, 0, 0, 1, 0, 0, 0, 0, 255, 255, 255, 255, 0, 0, 0, 0]

/-- A rect that does not fit is read first: sixteen bytes of a server make the
reader of a 1x1 screen allocate more than seventeen thousand million. -/
theorem not_buffers_guarded_huge : ¬ ∀ (z : Decompress) (continuous : Bool) (ending : Ending)
    (timeout : Duration) (input : List UInt8) (armed : Bool) (width height : UInt16)
    (name : String) (n : Nat) (p : MarkedTask Unit) (w : World) (notes : Notes),
    Steps (noting (exec ending timeout) screenOf) (markedReaderTask continuous n (Decoders.new z))
      (⟨input, armed, Inner.new width height name⟩, []) p (w, notes) → Guarded notes := by
  intro hall
  have hguarded : Guarded ((markedReaderTask false 1 (Decoders.new stored)).run
      (noting (exec .closed 0) screenOf) (⟨hugeRawHeader, false, Inner.new 1 1 "d"⟩, [])).2.2 :=
    hall stored false .closed 0 hugeRawHeader false 1 1 "d" 1 _ _ _ (steps_run _ _)
  have hnotes : ((markedReaderTask false 1 (Decoders.new stored)).run
      (noting (exec .closed 0) screenOf) (⟨hugeRawHeader, false, Inner.new 1 1 "d"⟩, [])).2.2 =
      [(.raw ⟨0, 0, 65535, 65535⟩, (1, 1)),
        (.buffer ⟨0, 0, 65535, 65535⟩ 17179344900, (1, 1))] := by decide +kernel
  rw [hnotes] at hguarded
  have hbound := (hguarded ⟨0, 0, 65535, 65535⟩ 17179344900 (1, 1)
    (List.mem_cons_of_mem _ (List.mem_singleton_self _))).1
  exact absurd hbound (by decide)

end Bolide.Rfb
