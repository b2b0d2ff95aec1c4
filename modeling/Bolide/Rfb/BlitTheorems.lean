/-
Bolide.Rfb.BlitTheorems — when a rect is drawn, and what it draws.

A decoder draws exactly the rects that lie inside the screen and have enough
data; what it draws is said by `Drawn`, pixel by pixel, with every other
pixel as it was. Any other rect is refused, and the session keeps its screen.
-/
import Bolide.Rfb.FramebufferTheorems
import Bolide.Rfb.Session

namespace Bolide.Rfb

open Lib

/-- The rect lies inside the screen. -/
def Framebuffer.Fits (fb : Framebuffer) (x y w h : UInt16) : Prop :=
  x.toNat + w.toNat ≤ fb.width.toNat ∧ y.toNat + h.toNat ≤ fb.height.toNat

instance (fb : Framebuffer) (x y w h : UInt16) : Decidable (fb.Fits x y w h) :=
  inferInstanceAs (Decidable (_ ∧ _))

/-- A decoder under the state lock draws `src` on the rect exactly when it is
`ready` to, and leaves the session as it was when it is not. -/
structure Applies (i : Inner) (f : Framebuffer → Outcome Framebuffer) (x y w h : UInt16)
    (ready : Prop) (src : Nat → Nat → List UInt8) : Prop where
  ok_iff : (execInner (.draw f) i).1 = .ok () ↔ ready
  drawn : ready → ∃ rgba, (execInner (.draw f) i).2 = i.setFb { i.state.fb with rgba } ∧
    Drawn i.state.fb.width.toNat i.state.fb.rgba rgba x.toNat y.toNat w.toNat h.toNat src
  refused : ¬ ready → ∃ what, execInner (.draw f) i = (.error (.err (.protocol what)), i)

/-- What a decoder does of the screen is what the session does. -/
theorem applies_of {i : Inner} {f : Framebuffer → Outcome Framebuffer} {x y w h : UInt16}
    {ready : Prop} {src : Nat → Nat → List UInt8}
    (hready : ready → ∃ rgba, f i.state.fb = .ok { i.state.fb with rgba } ∧
      Drawn i.state.fb.width.toNat i.state.fb.rgba rgba x.toNat y.toNat w.toNat h.toNat src)
    (hrefused : ¬ ready → ∃ e, f i.state.fb = .error e ∧ e.IsProtocol) :
    Applies i f x y w h ready src := by
  have hok : ready → ∃ rgba, execInner (.draw f) i = (.ok (), i.setFb { i.state.fb with rgba }) ∧
      Drawn i.state.fb.width.toNat i.state.fb.rgba rgba x.toNat y.toNat w.toNat h.toNat src := by
    intro h
    obtain ⟨rgba, hf, hdrawn⟩ := hready h
    exact ⟨rgba, by simp [execInner, hf], hdrawn⟩
  have herror : ¬ ready → ∃ what, execInner (.draw f) i = (.error (.err (.protocol what)), i) := by
    intro h
    obtain ⟨e, hf, he⟩ := hrefused h
    obtain ⟨what, rfl⟩ := Stop.isProtocol_iff.mp he
    exact ⟨what, by simp [execInner, hf]⟩
  refine ⟨⟨fun h => ?_, fun h => ?_⟩, fun h => ?_, herror⟩
  · by_contra hnot
    obtain ⟨what, hexec⟩ := herror hnot
    rw [hexec] at h
    cases h
  · obtain ⟨rgba, hexec, _⟩ := hok h
    rw [hexec]
  · obtain ⟨rgba, hexec, hdrawn⟩ := hok h
    exact ⟨rgba, by rw [hexec], hdrawn⟩

/-- A rect that lies outside is refused before anything is drawn. -/
theorem refused_outside {fb : Framebuffer} {x y w h : UInt16} (hout : ¬ fb.Fits x y w h)
    (f : Unit → Outcome Framebuffer) :
    ∃ e, (checkBounds fb x y w h >>= f) = .error e ∧ e.IsProtocol := by
  rcases checkBounds_cases fb x y w h with ⟨_, hx, hy⟩ | ⟨_, e, herr, he⟩
  · exact absurd ⟨hx, hy⟩ hout
  · exact ⟨e, by rw [herr]; rfl, he⟩

section

variable {i : Inner}
  (hlen : i.state.fb.rgba.length = i.state.fb.width.toNat * i.state.fb.height.toNat * 4)
  (x y w h : UInt16)

include hlen

theorem blitRaw_applies (format : PixelFormat) (data : List UInt8) :
    Applies i (fun fb => blitRaw fb x y w h format data) x y w h
      (i.state.fb.Fits x y w h ∧ w.toNat * h.toNat * format.bytesPerPixel ≤ data.length)
      (fun col row => (rawPixel format data (row * w.toNat + col)).bytes) := by
  refine applies_of (fun ⟨hfits, hdata⟩ => blitRaw_spec hlen hfits.1 hfits.2 hdata)
    (fun hnot => ?_)
  by_cases hfits : i.state.fb.Fits x y w h
  · have hshort : data.length < w.toNat * h.toNat * format.bytesPerPixel := by
      by_contra hge
      exact hnot ⟨hfits, Nat.not_lt.mp hge⟩
    simp only [blitRaw, checkBounds_ok hfits.1 hfits.2, ok_bind, if_pos hshort]
    exact ⟨_, rfl, trivial⟩
  · exact refused_outside hfits _

theorem blitRgba_applies (rgba : List UInt8) :
    Applies i (fun fb => blitRgba fb x y w h rgba) x y w h
      (i.state.fb.Fits x y w h ∧ w.toNat * h.toNat * 4 ≤ rgba.length)
      (fun col row => pixelAt rgba w.toNat col row) := by
  refine applies_of (fun ⟨hfits, hdata⟩ => blitRgba_spec hlen hfits.1 hfits.2 hdata)
    (fun hnot => ?_)
  by_cases hfits : i.state.fb.Fits x y w h
  · have hshort : rgba.length < w.toNat * h.toNat * 4 := by
      by_contra hge
      exact hnot ⟨hfits, Nat.not_lt.mp hge⟩
    simp only [blitRgba, checkBounds_ok hfits.1 hfits.2, ok_bind, if_pos hshort]
    exact ⟨_, rfl, trivial⟩
  · exact refused_outside hfits _

theorem copyRect_applies (srcX srcY : UInt16) :
    Applies i (fun fb => copyRect fb x y w h srcX srcY) x y w h
      (i.state.fb.Fits x y w h ∧ i.state.fb.Fits srcX srcY w h)
      (fun col row => pixelAt i.state.fb.rgba i.state.fb.width.toNat (srcX.toNat + col)
        (srcY.toNat + row)) := by
  refine applies_of (fun ⟨hfits, hsrc⟩ => copyRect_spec hlen hfits.1 hfits.2 hsrc.1 hsrc.2)
    (fun hnot => ?_)
  by_cases hfits : i.state.fb.Fits x y w h
  · have hsrc : ¬ i.state.fb.Fits srcX srcY w h := fun hsrc => hnot ⟨hfits, hsrc⟩
    simp only [copyRect, checkBounds_ok hfits.1 hfits.2, ok_bind]
    exact refused_outside hsrc _
  · exact refused_outside hfits _

/-- **Rects are applied exactly, pixel by pixel**: on a screen that has all
its bytes, each of the three decoders draws the rects that lie inside the
screen and have enough data, and refuses every other with the screen as it
was. -/
theorem rects_exact (srcX srcY : UInt16) (format : PixelFormat) (data : List UInt8) :
    Applies i (fun fb => blitRaw fb x y w h format data) x y w h
        (i.state.fb.Fits x y w h ∧ w.toNat * h.toNat * format.bytesPerPixel ≤ data.length)
        (fun col row => (rawPixel format data (row * w.toNat + col)).bytes) ∧
      Applies i (fun fb => blitRgba fb x y w h data) x y w h
        (i.state.fb.Fits x y w h ∧ w.toNat * h.toNat * 4 ≤ data.length)
        (fun col row => pixelAt data w.toNat col row) ∧
      Applies i (fun fb => copyRect fb x y w h srcX srcY) x y w h
        (i.state.fb.Fits x y w h ∧ i.state.fb.Fits srcX srcY w h)
        (fun col row => pixelAt i.state.fb.rgba i.state.fb.width.toNat (srcX.toNat + col)
          (srcY.toNat + row)) :=
  ⟨blitRaw_applies hlen x y w h format data, blitRgba_applies hlen x y w h data,
    copyRect_applies hlen x y w h srcX srcY⟩

end

/-- A column of a two by two screen is scrolled onto the other, and half of
a pixel is too little for a rect. -/
theorem rects_exact_scroll :
    let i : Inner := Inner.setFb (.new 2 2 "desktop")
      ⟨2, 2, [1, 1, 1, 255, 2, 2, 2, 255, 3, 3, 3, 255, 4, 4, 4, 255]⟩
    (execInner (.draw (fun fb => copyRect fb 1 0 1 2 0 0)) i).2.state.fb.rgba =
        [1, 1, 1, 255, 1, 1, 1, 255, 3, 3, 3, 255, 3, 3, 3, 255] ∧
      (execInner (.draw (fun fb => copyRect fb 1 0 1 2 0 0)) i).1 = .ok () ∧
      ∃ what, execInner (.draw (fun fb => blitRgba fb 0 0 1 1 [9, 9])) i =
        (.error (.err (.protocol what)), i) := by
  intro i
  have hexact := rects_exact (i := i) (by decide) 1 0 1 2 0 0 .rgbx32 []
  have hshort := (rects_exact (i := i) (by decide) 0 0 1 1 0 0 .rgbx32 [9, 9]).2.1
  exact ⟨by decide +kernel, hexact.2.2.ok_iff.mpr (by decide), hshort.refused (by decide)⟩

end Bolide.Rfb
