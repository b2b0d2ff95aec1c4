/-
Bolide.Rfb.PaintedTheorems — when the painted flag tells the truth.

The flag is to say that something was drawn since the framebuffer was last
allocated. The read loop clears it at each resize and sets it after an
update that drew anything, wherever in the update that was. The two agree
exactly on the runs in which no update resizes after its last drawing.
-/
import Bolide.Rfb.MessageTheorems

namespace Bolide.Rfb

open Lib

variable {z : Decompress}

/-! ## Drawn since the last resize -/

/-- Some rect of the list carries pixels, and no resize comes after it. -/
def DrawnSinceResize (rects : List Rect) : Prop :=
  ∃ before r after, rects = before ++ r :: after ∧ r.body.carriesPixels = true ∧
    ∀ q ∈ after, q.body ≠ .desktopSize

/-- What is not a resize carries pixels. -/
theorem carriesPixels_iff {b : RectBody} : b.carriesPixels = true ↔ b ≠ .desktopSize := by
  cases b <;> simp [RectBody.carriesPixels]

/-- The last rect decides. -/
theorem drawnSinceResize_iff (rects : List Rect) :
    DrawnSinceResize rects ↔ ∃ before r, rects = before ++ [r] ∧ r.body.carriesPixels = true := by
  constructor
  · rintro ⟨before, r, after, rfl, hr, hafter⟩
    rcases List.eq_nil_or_concat after with rfl | ⟨mid, q, rfl⟩
    · exact ⟨before, r, rfl, hr⟩
    · refine ⟨before ++ r :: mid, q, by simp, carriesPixels_iff.mpr (hafter q (by simp))⟩
  · rintro ⟨before, r, rfl, hr⟩
    exact ⟨before, r, [], rfl, hr, by simp⟩

instance (rects : List Rect) : Decidable (DrawnSinceResize rects) :=
  decidable_of_iff (rects.getLast?.any (fun r => r.body.carriesPixels) = true) (by
    rw [drawnSinceResize_iff]
    rcases List.eq_nil_or_concat rects with rfl | ⟨before, r, rfl⟩
    · simp
    · simp)

/-- More rects with a drawing at their end. -/
theorem DrawnSinceResize.append {rects : List Rect} (before : List Rect)
    (h : DrawnSinceResize rects) : DrawnSinceResize (before ++ rects) := by
  obtain ⟨mid, r, after, rfl, hr, hafter⟩ := h
  exact ⟨before ++ mid, r, after, (List.append_assoc _ _ _).symm, hr, hafter⟩

/-- Rects that are there decide over those before them. -/
theorem DrawnSinceResize.of_append {before rects : List Rect} (hne : rects ≠ [])
    (h : DrawnSinceResize (before ++ rects)) : DrawnSinceResize rects := by
  rw [drawnSinceResize_iff] at h ⊢
  rcases List.eq_nil_or_concat rects with rfl | ⟨mid, q, rfl⟩
  · exact absurd rfl hne
  · obtain ⟨before', r, heq, hr⟩ := h
    rw [List.concat_eq_append, ← List.append_assoc] at heq
    obtain ⟨-, hlast⟩ := List.append_inj' heq rfl
    exact ⟨mid, q, List.concat_eq_append, by rw [List.singleton_inj.mp hlast]; exact hr⟩

/-! ## The flag and the events -/

/-- The painted flag, and a Painted event that was the last thing said, are
about a framebuffer that was drawn on. -/
def TellsTheTruth (rects : List Rect) (i : Inner) : Prop :=
  (i.state.painted = true → DrawnSinceResize rects) ∧
    ∀ generation, i.events.getLast? = some (.painted generation) → DrawnSinceResize rects

/-- A message that does not resize after its last drawing. -/
def Message.EndsDrawn (m : Message) : Prop :=
  m.rects.any (fun r => r.body.carriesPixels) = true → DrawnSinceResize m.rects

instance (m : Message) : Decidable m.EndsDrawn := inferInstanceAs (Decidable (_ → _))

theorem eventsFrom_concat (m : Message) : ∀ (ms : List Message) (g : Nat),
    eventsFrom g (ms ++ [m]) = eventsFrom g ms ++ m.events (ms.foldl Message.generationAfter g)
  | [], g => List.append_nil _
  | m' :: ms, g => by
      rw [List.cons_append, eventsFrom, eventsFrom, eventsFrom_concat m ms, List.append_assoc,
        List.foldl_cons]

/-- No rect draws and none resizes: there is none. -/
theorem rects_eq_nil {rects : List Rect}
    (hnone : rects.any (fun r => r.body.carriesPixels) = false)
    (hall : rects.all (fun r => r.body.carriesPixels) = true) : rects = [] := by
  refine List.eq_nil_iff_forall_not_mem.mpr fun r hr => ?_
  have hdraws := List.all_eq_true.mp hall r hr
  exact List.any_eq_false.mp hnone r hr hdraws

/-- A message that draws nothing announces nothing painted. -/
theorem painted_not_mem {m : Message}
    (hnone : m.rects.any (fun r => r.body.carriesPixels) = false) (g n : Nat) :
    .painted n ∉ m.events g := by
  cases m with
  | update pad rects =>
      simp only [Message.rects] at hnone
      simp [Message.events, hnone]
  | _ => simp [Message.events]

/-- A message that draws nothing and says nothing has no rects. -/
theorem rects_of_silent {m : Message}
    (hnone : m.rects.any (fun r => r.body.carriesPixels) = false) {g : Nat}
    (hsilent : m.events g = []) : m.rects = [] := by
  cases m with
  | update pad rects =>
      refine rects_eq_nil hnone (List.all_eq_true.mpr fun r hr => ?_)
      rw [Message.events, List.append_eq_nil_iff, List.map_eq_nil_iff,
        List.filter_eq_nil_iff] at hsilent
      simpa using hsilent.1 r hr
  | _ => rfl

/-- One more message that ends drawn keeps the flag truthful. -/
theorem painted_concat {before : List Rect} {m : Message} {painted : Bool} (hm : m.EndsDrawn)
    (hflag : painted = true → DrawnSinceResize before) (hp : m.paintedAfter painted = true) :
    DrawnSinceResize (before ++ m.rects) := by
  cases hany : m.rects.any (fun r => r.body.carriesPixels) with
  | true => exact (hm hany).append before
  | false =>
      rw [Message.paintedAfter, hany, Bool.or_false, Bool.and_eq_true] at hp
      rw [rects_eq_nil hany hp.2, List.append_nil]
      exact hflag hp.1

/-- One more message that ends drawn keeps the events truthful. -/
theorem events_concat {before : List Rect} {m : Message} {events : List ServerEvent} {g n : Nat}
    (hm : m.EndsDrawn)
    (hevents : events.getLast? = some (.painted n) → DrawnSinceResize before)
    (hlast : (events ++ m.events g).getLast? = some (.painted n)) :
    DrawnSinceResize (before ++ m.rects) := by
  cases hany : m.rects.any (fun r => r.body.carriesPixels) with
  | true => exact (hm hany).append before
  | false =>
      by_cases hsilent : m.events g = []
      · rw [hsilent, List.append_nil] at hlast
        rw [rects_of_silent hany hsilent, List.append_nil]
        exact hevents hlast
      · rw [List.getLast?_append_of_ne_nil _ hsilent] at hlast
        exact absurd (List.mem_of_getLast? hlast) (painted_not_mem hany g n)

/-- **Messages that end drawn keep both truthful**, from a fresh session. -/
theorem tellsTheTruth_of_endsDrawn {ms : List Message} (hms : ∀ m ∈ ms, m.EndsDrawn) :
    (ms.foldl Message.paintedAfter false = true → DrawnSinceResize (ms.flatMap Message.rects)) ∧
      ∀ n : Nat, (eventsFrom 0 ms).getLast? = some (.painted n) →
        DrawnSinceResize (ms.flatMap Message.rects) := by
  induction ms using List.reverseRecOn with
  | nil =>
      constructor
      · intro h; cases h
      · intro n h; cases h
  | append_singleton ms m ih =>
      have hm : m.EndsDrawn := hms m (by simp)
      obtain ⟨hflag, hevents⟩ := ih fun q hq => hms q (by simp [hq])
      rw [List.flatMap_append, List.flatMap_singleton, List.foldl_append, eventsFrom_concat]
      exact ⟨painted_concat hm hflag, fun n => events_concat hm (hevents n)⟩

/-- A message that does not end drawn leaves the flag lying. -/
theorem endsDrawn_of_painted {before : List Rect} {m : Message} {painted : Bool}
    (h : m.paintedAfter painted = true → DrawnSinceResize (before ++ m.rects)) : m.EndsDrawn := by
  intro hany
  have hne : m.rects ≠ [] := by
    intro hnil
    rw [hnil] at hany
    cases hany
  refine (h ?_).of_append hne
  rw [Message.paintedAfter, hany, Bool.or_true]

/-! ## Over a run of the read loop -/

/-- A loop that read all the messages applied them all. -/
theorem applyMessages_of_run {continuous : Bool} {ms : List Message} {d d' : Decoders z}
    {i : Inner} (hserial : ∀ m ∈ ms, m.Serial d.format) {ending : Ending} {timeout : Duration}
    {armed : Bool} {rest : List UInt8} {w : World}
    (hrun : (readMessages continuous ms.length d).run (exec ending timeout)
      ⟨ms.flatMap Message.encode ++ rest, armed, i⟩ = (.ok d', w)) :
    applyMessages continuous ms d i = .ok (d', w.inner) := by
  have hruns := readMessages_runs continuous ms d i hserial
  cases happly : applyMessages continuous ms d i with
  | error e =>
      rw [happly] at hruns
      obtain ⟨w', hw⟩ := hruns ending timeout armed rest
      cases hrun.symm.trans hw
  | ok s =>
      obtain ⟨d₁, i₁⟩ := s
      rw [happly] at hruns
      obtain ⟨armed', hw⟩ := hruns ending timeout armed rest
      cases hrun.symm.trans hw
      rfl

/-- **The painted flag tells the truth exactly on the runs in which every
update ends drawn**: with every message read, the flag and the events are
truthful between any two messages if and only if no update resizes after its
last drawing. -/
theorem tellsTheTruth_iff {continuous : Bool} {width height : UInt16} {name : String}
    {ms : List Message} (hserial : ∀ m ∈ ms, m.Serial .rgbx32) {ending : Ending}
    {timeout : Duration} {armed : Bool} {rest : List UInt8}
    (hread : ∃ d w, (readMessages continuous ms.length (Decoders.new z)).run (exec ending timeout)
      ⟨ms.flatMap Message.encode ++ rest, armed, .new width height name⟩ = (.ok d, w)) :
    (∀ k ≤ ms.length, ∀ d w, (readMessages continuous k (Decoders.new z)).run (exec ending timeout)
        ⟨ms.flatMap Message.encode ++ rest, armed, .new width height name⟩ = (.ok d, w) →
      TellsTheTruth ((ms.take k).flatMap Message.rects) w.inner) ↔
    ∀ m ∈ ms, m.EndsDrawn := by
  obtain ⟨d', w', hall⟩ := hread
  have happly := applyMessages_of_run (d := Decoders.new z) hserial hall
  constructor
  · intro htruth m hm
    obtain ⟨before, after, rfl⟩ := List.append_of_mem hm
    have hk : before.length + 1 ≤ (before ++ m :: after).length := by simp
    obtain ⟨d, i, armed', hrun, heffect⟩ :=
      readMessages_take (d := Decoders.new z) hserial happly ending timeout armed rest hk
    have htake : (before ++ m :: after).take (before.length + 1) = before ++ [m] := by
      rw [List.take_length_add_append]
      rfl
    have hflag := (htruth _ hk d _ hrun).1
    rw [htake] at heffect hflag
    rw [heffect.painted, List.foldl_append, List.flatMap_append, List.flatMap_singleton] at hflag
    exact endsDrawn_of_painted hflag
  · intro hends k hk d w hrun
    obtain ⟨d₁, i, armed', hrun', heffect⟩ :=
      readMessages_take (d := Decoders.new z) hserial happly ending timeout armed rest hk
    cases hrun.symm.trans hrun'
    have hfirst : ∀ m ∈ ms.take k, m.EndsDrawn := fun m hm => hends m (List.mem_of_mem_take hm)
    have htruth := tellsTheTruth_of_endsDrawn hfirst
    rw [TellsTheTruth, heffect.painted, heffect.events]
    exact htruth

/-- Well-formed messages are all read. -/
theorem read_of_wellFormed {plain : List UInt8 → Option (List UInt8)} (hz : Inflates z plain)
    {width height : UInt16} {ms : List Message}
    (hms : MessagesWellFormed plain maxZrlePayload (width, height) [] ms) (continuous : Bool)
    (name : String) (ending : Ending) (timeout : Duration) (armed : Bool) (rest : List UInt8) :
    ∃ d w, (readMessages continuous ms.length (Decoders.new z)).run (exec ending timeout)
      ⟨ms.flatMap Message.encode ++ rest, armed, .new width height name⟩ = (.ok d, w) := by
  obtain ⟨d', i', hall⟩ := applyMessages_wellFormed hz continuous hms (d := Decoders.new z)
    (i := .new width height name) rfl (keepsUp_new hz width height)
  obtain ⟨d, i, armed', hrun, -⟩ := readMessages_take (d := Decoders.new z)
    (serial_of_wellFormed (by decide) hms) hall ending timeout armed rest le_rfl
  exact ⟨d, _, hrun⟩

/-- An update that resizes and then draws, and one that scrolls. -/
theorem tellsTheTruth_iff_resize_draw :
    let ms : List Message := [.update 0 [⟨0, 0, 2, 1, .desktopSize⟩,
      ⟨1, 0, 1, 1, .raw [9, 8, 7, 0]⟩], .update 0 [⟨0, 0, 1, 1, .copyRect 1 0⟩]]
    ∀ k ≤ 2, ∀ d w, (readMessages false k (Decoders.new stored)).run (exec .closed 0)
        ⟨ms.flatMap Message.encode ++ [], false, .new 1 1 ""⟩ = (.ok d, w) →
      TellsTheTruth ((ms.take k).flatMap Message.rects) w.inner := by
  intro ms
  have hms : MessagesWellFormed (fun bytes => some (storedPlain bytes)) maxZrlePayload (1, 1) []
      ms := .update (by decide) (.cons rfl (.cons ⟨by decide, rfl, rfl⟩ .nil))
    (.update (by decide) (.cons ⟨by decide, by decide, by decide, rfl⟩ .nil) .nil)
  exact (tellsTheTruth_iff (by decide)
    (read_of_wellFormed inflates_stored hms false "" .closed 0 false [])).mpr (by decide)

/-- One update that draws and then resizes: the screen is black and the
session says it is painted. -/
theorem not_tellsTheTruth_draw_resize : ¬ ∀ (z : Decompress) (continuous : Bool)
    (width height : UInt16) (name : String) (ms : List Message), (∀ m ∈ ms, m.Serial .rgbx32) →
    ∀ (ending : Ending) (timeout : Duration) (armed : Bool) (rest : List UInt8),
    (∃ d w, (readMessages continuous ms.length (Decoders.new z)).run (exec ending timeout)
      ⟨ms.flatMap Message.encode ++ rest, armed, .new width height name⟩ = (.ok d, w)) →
    ∀ k ≤ ms.length, ∀ d w, (readMessages continuous k (Decoders.new z)).run (exec ending timeout)
        ⟨ms.flatMap Message.encode ++ rest, armed, .new width height name⟩ = (.ok d, w) →
      TellsTheTruth ((ms.take k).flatMap Message.rects) w.inner := by
  intro hall
  let ms : List Message := [.update 0 [⟨0, 0, 1, 1, .raw [9, 8, 7, 0]⟩, ⟨0, 0, 2, 2, .desktopSize⟩]]
  have hserial : ∀ m ∈ ms, m.Serial .rgbx32 := by decide
  have hms : MessagesWellFormed (fun bytes => some (storedPlain bytes)) maxZrlePayload (1, 1) []
      ms := .update (by decide) (.cons ⟨by decide, rfl, rfl⟩ (.cons rfl .nil)) .nil
  have hread := read_of_wellFormed inflates_stored hms false "" .closed 0 false []
  obtain ⟨d, w, hrun⟩ := hread
  obtain ⟨d₁, i, armed', hrun', heffect⟩ := readMessages_take (d := Decoders.new stored)
    hserial (applyMessages_of_run hserial hrun) .closed 0 false [] le_rfl
  have htruth := hall stored false 1 1 "" ms hserial .closed 0 false [] ⟨d, w, hrun⟩ 1 le_rfl d₁ _
    hrun'
  exact absurd (htruth.1 heffect.painted) (by decide)

end Bolide.Rfb
