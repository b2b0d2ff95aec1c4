/-
Bolide.Testkit.VisitsTheorems — every client of a server is shown its script.

The screen of a fake server is what the directives it has taken made of it,
in whatever phases it took them and whatever its clients did meanwhile
(`screen_of_reached`). A session that opens starts a simulation of its own
between that screen and the client's framebuffer, which each of its inputs
carries on by the rule of one input in `Testkit.ServerTheorems`.
-/
import Bolide.Testkit.ServerTheorems
import Bolide.Testkit.Visits

namespace Bolide.Testkit

open Lib Rfb

/-! ## Directives outside a session -/

/-- Every colour of a region is opaque. -/
theorem Screen.FullAlpha.region {s : Screen} (h : s.FullAlpha) (x y : UInt16) :
    ((s.pixel x y).getD Rfb.black).a = 255 := by
  by_cases hin : x < s.width ∧ y < s.height
  · obtain ⟨c, hc, ha, -⟩ := h.pixel hin.1 hin.2
    simp [hc, ha]
  · have hout : x ≥ s.width ∨ y ≥ s.height := by
      simpa [or_iff_not_imp_left, UInt16.not_le] using hin
    simp only [Screen.pixel, if_pos hout]
    rfl

theorem span_empty {a b : UInt16} (x : UInt16) (h : b ≤ a) : span a (min x b) = [] := by
  have hmin : min x b ≤ b := by
    show (if x ≤ b then x else b) ≤ b
    split
    · assumption
    · exact UInt16.le_refl b
  have hle := UInt16.le_iff_toNat_le.mp (UInt16.le_trans hmin h)
  simp [span, Nat.sub_eq_zero_of_le hle]

theorem foldlM_none {α : Type} (rgba : List UInt8) (rows : List α) :
    rows.foldlM (fun acc _ => some acc) rgba = some rgba := by
  induction rows with
  | nil => rfl
  | cons row rows ih => simp [ih]

/-- One pixel is filled without a panic, on the screen or off it. -/
theorem fillRect_one {s : Screen} (h : s.FullAlpha) (x y : UInt16) {c : Rgba} (hc : c.a = 255) :
    ∃ s', s.fillRect x y 1 1 c = .ok s' ∧ s'.FullAlpha := by
  by_cases hin : x < s.width ∧ y < s.height
  · obtain ⟨s', hfill, hwidth, hheight, hpx⟩ := fillRect_pixel s c hin.1 hin.2
    refine ⟨s', hfill, ?_⟩
    intro i hi j hj
    rw [hwidth] at hi ⊢
    rw [hheight] at hj
    rw [hpx i hi j]
    split
    · simp [Rgba.bytes, hc]
    · exact h i hi j hj
  · have hfill : fillRows s.width.toNat c (span y (min (satAdd y 1) s.height))
        (span x (min (satAdd x 1) s.width)) s.rgba = some s.rgba := by
      simp only [not_and_or, UInt16.not_lt] at hin
      rcases hin with hx | hy
      · rw [span_empty _ hx]
        simp [fillRows, foldlM_none]
      · rw [span_empty _ hy]
        simp [fillRows]
    refine ⟨s, ?_, h⟩
    unfold Screen.fillRect
    split
    · next rgba hrgba => 
        rw [hfill] at hrgba
        cases hrgba
        rfl
    · next hnone => simp [hfill] at hnone

/-- **A copy never panics**, whatever it copies and wherever to. -/
theorem blit_ok {s : Screen} (h : s.FullAlpha) (srcX srcY dstX dstY w ht : UInt16) :
    ∃ s', blit s srcX srcY dstX dstY w ht = .ok s' ∧ s'.FullAlpha := by
  refine foldlM_range_pure (m := Outcome) _ (fun _ s' => s'.FullAlpha) ht.toNat s h ?_
  intro row hrow s' hs'
  refine foldlM_range_pure (m := Outcome) _ (fun _ s' => s'.FullAlpha) w.toNat s' hs' ?_
  intro col hcol s' hs'
  rw [getElem?_region s srcX srcY w ht hcol hrow]
  exact fillRect_one hs' _ _ (h.region _ _)

theorem solid_fullAlpha (w ht : UInt16) : (Screen.solid w ht Rfb.black).FullAlpha :=
  (black_wellFormed w ht).alpha

/-- A directive is applied to a screen, as long as what it shows is opaque. -/
theorem applyOffline_ok {screen : Screen} (h : screen.FullAlpha) {d : Directive}
    (hd : ∀ new, d = .setScreen new → new.FullAlpha) :
    ∃ screen', applyOffline screen d = .ok screen' ∧ screen'.FullAlpha := by
  cases d with
  | setScreen new => exact ⟨new, rfl, hd new rfl⟩
  | resize w ht => exact ⟨_, rfl, solid_fullAlpha w ht⟩
  | copyRect srcX srcY dstX dstY w ht => exact blit_ok h srcX srcY dstX dstY w ht
  | _ => exact ⟨screen, rfl, h⟩

/-! ## The screen -/

section Script

variable {c : Compress}

namespace Fake

/-- What one turn can be. -/
inductive Turn (cfg : FakeServerBuilder) : Fake c → Happening → Fake c → Prop
  | accepted (screen : Screen) :
      Turn cfg (waiting screen) .accepted (opening (serverInit screen cfg.desktopName) screen)
  | told {screen screen' : Screen} {d : Directive} : applyOffline screen d = .ok screen' →
      Turn cfg (waiting screen) (.directive d) (waiting screen')
  | opened (init : List UInt8) (screen : Screen) :
      Turn cfg (opening init screen) .opened
        (serving init (.new c { cfg.toBuilder with screen }) [])
  | refused (init : List UInt8) (screen : Screen) :
      Turn cfg (opening init screen) .refused (waiting screen)
  | dropped (init : List UInt8) (screen : Screen) :
      Turn cfg (opening init screen) (.directive .drop) (waiting screen)
  | changed {init : List UInt8} {screen screen' : Screen} {d : Directive} :
      applyOffline screen d = .ok screen' →
      Turn cfg (opening init screen) (.directive d) (opening init screen')
  | served {init written bytes : List UInt8} {srv srv' : Server c} {input : Input} :
      serveInput cfg.toBuilder srv input = .ok (some (bytes, srv')) →
      Turn cfg (serving init srv written) (.served input true)
        (serving init srv' (written ++ bytes))
  | lost {init written bytes : List UInt8} {srv srv' : Server c} {input : Input} :
      serveInput cfg.toBuilder srv input = .ok (some (bytes, srv')) →
      Turn cfg (serving init srv written) (.served input false) (waiting srv'.screen)
  | left {init written : List UInt8} {srv : Server c} {input : Input} (sent : Bool) :
      serveInput cfg.toBuilder srv input = .ok none →
      Turn cfg (serving init srv written) (.served input sent) (ended srv input)
  | gone (init written : List UInt8) (srv : Server c) :
      Turn cfg (serving init srv written) .gone (waiting srv.screen)
  | stopped (s : Fake c) : Turn cfg s (.directive .shutdown) stopped

end Fake

end Script

/-! ## The client of a session -/

section Session

variable {z : Decompress} {c : Compress} {plain : List UInt8 → Option (List UInt8)}
  {srv srv' : Server c} {synced synced' : Prop} {fb : Framebuffer} {st : z.State}
  {bytes more : List UInt8}

/-- What is written after something takes the client further. -/
theorem Served.append (h : Served z plain (bytes, srv) synced fb st)
    (hmore : ∀ s fb st, InStep z plain srv s synced fb st →
      Served z plain (more, srv') synced' fb st) :
    Served z plain (bytes ++ more, srv') synced' fb st := by
  obtain ⟨ms, s, fb₁, st₁, hbytes, hserial, hstep, happly⟩ := h
  obtain ⟨ms', s', fb₂, st₂, hbytes', hserial', hstep', happly'⟩ := hmore s fb₁ st₁ hstep
  refine ⟨ms ++ ms', s', fb₂, st₂, ?_, List.forall_mem_append.mpr ⟨hserial, hserial'⟩, hstep', ?_⟩
  · simp only [List.flatMap_append] at hbytes hbytes' ⊢
    rw [hbytes, hbytes']
  · intro continuous d i hf hst hfb
    obtain ⟨d₁, i₁, hfst, hf₁, hst₁, hfb₁⟩ := happly continuous d i hf hst hfb
    rw [applyMessages_append, hfst, ok_bind]
    exact happly' continuous d₁ i₁ hf₁ hst₁ hfb₁

/-- A client that was told the size of `first`, and is served from there, can
read to the end of what was written, and then holds the server's screen. -/
theorem Served.reads {first : Screen} {cfg : Builder} (hfirst : cfg.screen = first)
    (h : Served z plain (bytes, srv) synced (.black first.width first.height) z.new)
    (continuous : Bool) (name : String) (ending : Ending) (timeout : Duration) (armed : Bool) :
    (∃ fb, ReadsAll z cfg continuous name ending timeout armed bytes fb) ∧
      ∀ fb, ReadsAll z cfg continuous name ending timeout armed bytes fb →
        fb.width = srv.screen.width ∧ fb.height = srv.screen.height ∧
          (synced → ∀ x y, fb.pixel x y = .ok (srv.screen.pixel x y)) := by
  obtain ⟨ms, s, fb', st', hbytes, hserial, hstep, happly⟩ := h
  obtain rfl : bytes = ms.flatMap Message.encode := hbytes
  subst hfirst
  obtain ⟨d', i', hall, -, -, hfb⟩ := happly continuous (Decoders.new z)
    (.new cfg.screen.width cfg.screen.height name) rfl rfl rfl
  have hruns := readMessages_runs continuous ms (Decoders.new z)
    (.new cfg.screen.width cfg.screen.height name) hserial
  rw [hall] at hruns
  obtain ⟨armed', hrun⟩ := hruns ending timeout armed []
  rw [List.append_nil] at hrun
  refine ⟨⟨_, _, d', _, hrun, rfl, rfl⟩, ?_⟩
  intro fb hreads
  obtain ⟨n, d₁, w₁, hrun₁, hend, rfl⟩ := hreads
  obtain rfl := readMessages_unique hrun hrun₁ rfl hend
  cases hrun.symm.trans hrun₁
  obtain ⟨hwidth, hheight⟩ : fb'.width = srv.screen.width ∧ fb'.height = srv.screen.height := by
    simpa using hstep.keeps.size
  simp only [hfb]
  exact ⟨hwidth, hheight, fun hs => pixel_eq_of_rgba hwidth hheight (hstep.same hs)⟩

end Session

/-! ## Every session -/

section Visits

variable {z : Decompress} {c : Compress} {plain : List UInt8 → Option (List UInt8)}
  {cfg : FakeServerBuilder}

/-- What is asked of each turn: screens are opaque, a client is let in with
the size it was told, and its session keeps to what the client allows for. -/
def Happening.Allowed (cfg : FakeServerBuilder) : Fake c → Happening → Prop
  | .opening init screen, opened => init = serverInit screen cfg.desktopName
  | .serving _ srv _, served input _ =>
      (input.Allowed srv ∧ input.Fits cfg.toBuilder srv) ∨
        input = .directive .drop ∨ input = .directive .shutdown
  | _, directive d => ∀ screen, d = .setScreen screen → screen.FullAlpha
  | _, _ => True

/-- Every screen is opaque, and the client of a session is served. -/
def Fake.Sound (z : Decompress) (plain : List UInt8 → Option (List UInt8))
    (cfg : FakeServerBuilder) (synced : Prop) : Fake c → Prop
  | .waiting screen => screen.FullAlpha
  | .opening _ screen => screen.FullAlpha
  | .serving init srv written => ∃ first : Screen, init = serverInit first cfg.desktopName ∧
      Served z plain (written, srv) synced (.black first.width first.height) z.new
  | .stopped => True

theorem Served.alpha {srv : Server c} {synced : Prop} {fb : Framebuffer} {st : z.State}
    {bytes : List UInt8} (h : Served z plain (bytes, srv) synced fb st) : srv.screen.FullAlpha := by
  obtain ⟨ms, s, fb', st', -, -, hstep, -⟩ := h
  exact hstep.alpha

/-- The next input of a session: it does not panic, and what it writes takes
the client along, unless it ends the session. -/
theorem serveInput_visit (hz : Inflates z plain) (hc : Lossless c plain) {srv : Server c}
    {synced : Prop} {first : Screen} {written : List UInt8} {input : Input}
    (h : Served z plain (written, srv) synced (.black first.width first.height) z.new)
    (hallowed : (input.Allowed srv ∧ input.Fits cfg.toBuilder srv) ∨
      input = .directive .drop ∨ input = .directive .shutdown) :
    serveInput cfg.toBuilder srv input = .ok none ∨
      ∃ bytes srv', serveInput cfg.toBuilder srv input = .ok (some (bytes, srv')) ∧
        Served z plain (written ++ bytes, srv') (synced ∨ input.paints = true)
          (.black first.width first.height) z.new := by
  rcases hallowed with ⟨hallowed, hfits⟩ | rfl | rfl
  · right
    have hout : ∀ s fb st, InStep z plain srv s synced fb st →
        ∃ out, serveInput cfg.toBuilder srv input = .ok (some out) ∧
          Served z plain out (synced ∨ input.paints = true) fb st :=
      fun _ _ _ hstep => serveInput_spec hz hc hstep hallowed hfits
    obtain ⟨ms, s, fb', st', -, -, hstep, -⟩ := id h
    obtain ⟨⟨bytes, srv'⟩, hserve, -⟩ := hout s fb' st' hstep
    refine ⟨bytes, srv', hserve, h.append ?_⟩
    intro s fb st hstep
    obtain ⟨out, hserve', hserved⟩ := hout s fb st hstep
    rw [hserve] at hserve'
    cases hserve'
    exact hserved
  · exact .inl rfl
  · exact .inl rfl

namespace Fake

/-- One turn keeps what is sound. -/
theorem Sound.turn (hz : Inflates z plain) (hc : Lossless c plain) {inputs : List Input}
    {s s' : Fake c} {h : Happening} (hturn : Turn cfg s h s') (hallowed : h.Allowed cfg s)
    (hs : s.Sound z plain cfg (inputs.any Input.paints = true)) :
    s'.Sound z plain cfg ((Happening.keep inputs h).any Input.paints = true) := by
  have htold {screen screen' : Screen} {d : Directive} (hscreen : screen.FullAlpha)
      (hd : ∀ new, d = .setScreen new → new.FullAlpha)
      (hx : applyOffline screen d = .ok screen') : screen'.FullAlpha := by
    obtain ⟨screen'', hx', halpha⟩ := applyOffline_ok hscreen hd
    rw [hx] at hx'
    cases hx'
    exact halpha
  cases hturn with
  | accepted screen => exact hs
  | told hx => exact htold hs hallowed hx
  | opened init screen =>
      refine ⟨screen, hallowed, served_nothing (s := []) ?_⟩
      exact ⟨rfl, hs, keepsUp_new hz _ _, ⟨[], .new⟩, fun h => by simp [Happening.keep] at h⟩
  | refused init screen => exact hs
  | dropped init screen => exact hs
  | changed hx => exact htold hs hallowed hx
  | served hserve =>
      obtain ⟨first, hinit, hserved⟩ := hs
      rcases serveInput_visit hz hc hserved hallowed with hnone | ⟨bytes, srv', hserve', hserved'⟩
      · simp [hserve] at hnone
      · rw [hserve] at hserve'
        cases hserve'
        refine ⟨first, hinit, hserved'.mono ?_⟩
        simp [Happening.keep]
  | lost hserve =>
      obtain ⟨first, hinit, hserved⟩ := hs
      rcases serveInput_visit hz hc hserved hallowed with hnone | ⟨bytes, srv', hserve', hserved'⟩
      · simp [hserve] at hnone
      · rw [hserve] at hserve'
        cases hserve'
        exact hserved'.alpha
  | left sent hserve =>
      obtain ⟨first, -, hserved⟩ := hs
      unfold ended
      split
      · trivial
      · exact hserved.alpha
  | gone init written srv =>
      obtain ⟨first, -, hserved⟩ := hs
      exact hserved.alpha
  | stopped s => trivial

end Fake

end Visits

end Bolide.Testkit
