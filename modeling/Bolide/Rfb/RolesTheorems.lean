/-
Bolide.Rfb.RolesTheorems — every task of a session keeps to its role.

The read loop is walked once, construct by construct: a read of what is owed
stays in its role or fails, a rect is drawn or resizes the screen, and what
follows the last rect is in the order the role says. The writer, the refresh
and the senders are short. `session_roles` is the whole: the tasks of every
session follow `protocol`, whatever the decoders, the calls and the bytes.
-/
import Bolide.Rfb.Roles
import Bolide.Rfb.FramebufferTheorems

namespace Bolide.Rfb

open Lib Prog

/-! ## The reader -/

namespace Reading

variable {continuous : Bool} {α β : Type}

/-- A read of what is owed. -/
theorem fill_bind {role : Reading} (hrole : role.Owed) {n : Nat} {f : List UInt8 → Task β}
    {Q : β → Reading → Prop}
    (hf : ∀ bytes : List UInt8, bytes.length = n → Follows (discipline continuous) role (f bytes) Q) :
    Follows (discipline continuous) role (fill n >>= f) Q := by
  cases role with
  | plain =>
      refine ⟨trivial, fun r hr => ?_⟩
      cases r with
      | ok bytes => exact hf bytes hr
      | error e => trivial
  | begun update painted resized =>
      refine ⟨trivial, fun r hr => ?_⟩
      cases r with
      | ok bytes => exact hf bytes hr
      | error e => trivial
  | _ => exact hrole.elim

/-- A task that only reads what is owed. -/
def Stays (continuous : Bool) (p : Task α) : Prop :=
  ∀ role : Reading, role.Owed → Follows (discipline continuous) role p (fun _ role' => role' = role)

theorem Stays.bind {p : Task α} {f : α → Task β} {role : Reading} {Q : β → Reading → Prop}
    (hp : Stays continuous p) (hrole : role.Owed)
    (hf : ∀ a, Follows (discipline continuous) role (f a) Q) :
    Follows (discipline continuous) role (p >>= f) Q :=
  follows_bind (hp role hrole) (fun a role' h => by
    subst h
    exact hf a)

theorem stays_pure (a : α) : Stays continuous (pure a : Task α) := fun _ _ => rfl

theorem stays_u8 : Stays continuous Conn.u8 := fun _ hrole => fill_bind hrole (fun b hb => by
  obtain ⟨x, rfl⟩ := List.length_eq_one_iff.mp hb
  rfl)

theorem stays_u16 : Stays continuous Conn.u16 := fun _ hrole => fill_bind hrole (fun _ _ => rfl)

theorem stays_u32 : Stays continuous Conn.u32 := fun _ hrole => fill_bind hrole (fun _ _ => rfl)

theorem stays_i32 : Stays continuous Conn.i32 := fun _ hrole =>
  stays_u32.bind hrole (fun _ => rfl)

theorem stays_bytes (n : Nat) : Stays continuous (Conn.bytes n) := fun role hrole => by
  have h : Follows (discipline continuous) role (fill n >>= fun bytes => (pure bytes : Task _))
      (fun _ role' => role' = role) := fill_bind hrole (fun _ _ => rfl)
  rwa [bind_pure] at h

theorem stays_skip (n : Nat) : Stays continuous (Conn.skip n) := by
  fun_induction Conn.skip n with
  | case1 n hn take ih => exact fun role hrole => fill_bind hrole (fun _ _ => ih role hrole)
  | case2 n hn => exact stays_pure ()

/-- A message that turns out to be wrong. -/
theorem fails_owed {role : Reading} (hrole : role.Owed) {e : Stop} {Q : α → Reading → Prop} :
    Follows (discipline continuous) role (Prog.fail e : Task α) Q := by
  cases role with
  | plain => trivial
  | begun update painted resized => trivial
  | _ => exact hrole.elim

theorem stays_string (cap : Nat) : Stays continuous (Conn.string cap) := fun role hrole => by
  refine stays_u32.bind hrole (fun len => ?_)
  split
  · exact fails_owed hrole
  · exact (stays_bytes _).bind hrole (fun _ => rfl)

/-! ### Rects -/

section Rects

variable {z : Decompress} {update : Nat}

/-- How far an update has come, as the role tells it. -/
def At (update : Nat) (p : Progress z) : Reading := begun update p.paintedAny p.resized

/-- Once a rect is drawn the update has painted. -/
theorem draw_bind {painted resized : Bool} {f : Framebuffer → Outcome Framebuffer} {g : Unit → Task β}
    {Q : β → Reading → Prop} (hf : KeepsSize f)
    (hg : Follows (discipline continuous) (begun update true resized) (g ()) Q) :
    Follows (discipline continuous) (begun update painted resized) (draw f >>= g) Q := by
  refine ⟨hf, fun r _ => ?_⟩
  cases r with
  | ok _ => exact hg
  | error e => trivial

theorem readRaw_follows (p : Progress z) (x y w h : UInt16) :
    Follows (discipline continuous) (At update p) (readRaw p x y w h)
      (fun p' role => role = At update p') :=
  (stays_bytes _).bind trivial (fun _ => draw_bind (blitRaw_keepsSize x y w h _ _) rfl)

theorem readCopyRect_follows (p : Progress z) (x y w h : UInt16) :
    Follows (discipline continuous) (At update p) (readCopyRect p x y w h)
      (fun p' role => role = At update p') :=
  stays_u16.bind trivial (fun _ => stays_u16.bind trivial (fun _ =>
    draw_bind (copyRect_keepsSize x y w h _ _) rfl))

theorem readZrle_follows (p : Progress z) (x y w h : UInt16) :
    Follows (discipline continuous) (At update p) (readZrle p x y w h)
      (fun p' role => role = At update p') := by
  refine stays_u32.bind trivial (fun len => ?_)
  split
  · trivial
  · refine (stays_bytes _).bind trivial (fun payload => ?_)
    cases decodeRect z p.decoders.zrle payload p.decoders.format w h with
    | error e => trivial
    | ok decoded => exact draw_bind (blitRgba_keepsSize x y w h _) rfl

theorem readDesktopSize_follows (p : Progress z) (w h : UInt16) :
    Follows (discipline continuous) (At update p) (readDesktopSize p w h)
      (fun p' role => role = At update p') :=
  follows_perform trivial (fun _ _ => follows_perform rfl (fun _ _ =>
    follows_perform ⟨w, h, rfl⟩ (fun _ _ => rfl)))

theorem readRect_follows (p : Progress z) :
    Follows (discipline continuous) (At update p) (readRect p)
      (fun p' role => role = At update p') := by
  refine stays_u16.bind trivial (fun x => stays_u16.bind trivial (fun y =>
    stays_u16.bind trivial (fun w => stays_u16.bind trivial (fun h =>
      stays_i32.bind trivial (fun encoding => ?_)))))
  split
  · exact readRaw_follows p x y w h
  · split
    · exact readCopyRect_follows p x y w h
    · split
      · exact readZrle_follows p x y w h
      · split
        · exact readDesktopSize_follows p w h
        · trivial

theorem readRects_follows : ∀ (n : Nat) (p : Progress z),
    Follows (discipline continuous) (At update p) (readRects n p)
      (fun p' role => role = At update p')
  | 0, _ => rfl
  | n + 1, p => follows_bind (readRect_follows p) (fun p' role hrole => by
      subst hrole
      exact readRects_follows n p')

end Rects

/-! ### What follows the last rect -/

/-- The role an update leaves the reader in once it has asked again. -/
theorem send_follows (update : Nat) (painted : Bool) :
    Follows (discipline continuous) (asking .check update painted) (send (.request true))
      (fun _ role => role = asked update painted) := by
  refine (Sending.send_follows (.request true)).map (sending update painted) ?_ ?_ ?_ ?_ ?_
  · intro s o hmay
    cases s with
    | sent accepted => exact hmay.elim
    | _ => exact hmay
  · intro s o r _ h
    exact h
  · intro s o r hmay
    cases s with
    | sent accepted => exact hmay.elim
    | _ => rfl
  · intro s e h
    exact h.elim
  · rintro returned s ⟨accepted, rfl, _⟩
    rfl

theorem askAgain_follows (wanted : Bool) (update : Nat) (painted : Bool) :
    Follows (discipline continuous) (drained wanted update painted) (askAgain wanted)
      (fun _ role => role = asked update painted) := by
  cases wanted with
  | false => rfl
  | true => exact follows_bind (send_follows update painted) (fun _ role hrole => hrole)

theorem announcePainted_follows (update : Nat) (painted : Bool) :
    Follows (discipline continuous) (asked update painted) (announcePainted update painted)
      (fun _ role => role = idle) := by
  cases painted with
  | false => rfl
  | true =>
      exact follows_perform rfl (fun generation _ => follows_perform rfl (fun _ _ =>
        follows_perform rfl (fun _ _ => ⟨rfl, fun _ _ => rfl⟩)))

theorem finishUpdate_follows {z : Decompress} (update : Nat) (p : Progress z) :
    Follows (discipline continuous) (At update p) (finishUpdate continuous update p)
      (fun _ role => role = idle) := by
  refine follows_perform rfl (fun _ _ => ?_)
  refine follows_bind (askAgain_follows _ update p.paintedAny) (fun _ role hrole => ?_)
  subst hrole
  refine follows_bind (announcePainted_follows update p.paintedAny) (fun _ role hrole => ?_)
  exact hrole

theorem readFramebufferUpdate_follows {z : Decompress} (d : Decoders z) :
    Follows (discipline continuous) owed (readFramebufferUpdate continuous d)
      (fun _ role => role = idle) := by
  refine follows_perform rfl (fun update _ => ?_)
  refine stays_u8.bind trivial (fun _ => stays_u16.bind trivial (fun count => ?_))
  let p₀ : Progress z := { decoders := d, paintedAny := false, resized := false }
  have hrects : Follows (discipline continuous) (At update p₀) (readRects count.toNat p₀)
      (fun p role => role = At update p) := readRects_follows count.toNat p₀
  refine follows_bind hrects (fun p role hrole => ?_)
  subst hrole
  exact finishUpdate_follows update p

/-! ### Messages -/

/-- The roles between two messages. -/
def Between : Reading → Prop
  | idle => True
  | plain => True
  | _ => False

theorem readColourMap_follows : Stays continuous readColourMap := fun _ hrole =>
  stays_u8.bind hrole (fun _ => stays_u16.bind hrole (fun _ => stays_u16.bind hrole (fun _ =>
    stays_skip _ _ hrole)))

theorem readCutText_follows :
    Follows (discipline continuous) plain readCutText (fun _ role => role = plain) :=
  (stays_skip 3).bind trivial (fun _ => (stays_string _).bind trivial (fun text =>
    follows_perform trivial (fun _ _ => ⟨.inr ⟨text, rfl⟩, fun _ _ => rfl⟩)))

/-- The role the first byte of a message leads to. -/
def typed (message : UInt8) : Reading :=
  if message = ServerMsg.framebufferUpdate then owed else plain

theorem handleMessage_follows {z : Decompress} (d : Decoders z) (message : UInt8) :
    Follows (discipline continuous) (typed message) (handleMessage continuous d message)
      (fun _ role => role.Between) := by
  unfold handleMessage typed
  split
  · exact (readFramebufferUpdate_follows d).mono (fun _ role hrole => by
      subst hrole
      trivial)
  · split
    · exact readColourMap_follows.bind trivial (fun _ => trivial)
    · split
      · exact follows_perform (.inl rfl) (fun _ _ => trivial)
      · split
        · exact follows_bind readCutText_follows (fun _ role hrole => by
            subst hrole
            trivial)
        · trivial

theorem readMessage_follows {z : Decompress} (d : Decoders z) {role : Reading}
    (hrole : role.Between) :
    Follows (discipline continuous) role (readMessage continuous d) (fun _ role => role.Between) := by
  have hlisten : Follows (discipline continuous) listening
      (do
        let message ← Conn.u8
        op .arm
        handleMessage continuous d message) (fun _ role => role.Between) := by
    refine ⟨rfl, fun r hr => ?_⟩
    cases r with
    | error e => trivial
    | ok bytes =>
        obtain ⟨message, rfl⟩ := List.length_eq_one_iff.mp hr
        refine ⟨rfl, fun _ _ => ?_⟩
        have h : Follows (discipline continuous) (typed message)
            (handleMessage continuous d message) (fun _ role => role.Between) :=
          handleMessage_follows d message
        unfold typed at h
        simp only [discipline, next, List.cons.injEq, and_true, decide_eq_true_eq]
        exact h
  cases role with
  | idle => exact ⟨rfl, fun _ _ => hlisten⟩
  | plain => exact ⟨trivial, fun _ _ => hlisten⟩
  | _ => exact hrole.elim

theorem markDead_follows {role : Reading} (hrole : role.Fallible) (reason : Option Error) :
    Follows (discipline continuous) role (markDead reason) (fun _ role => role = dying .done) := by
  have hmap : ∀ d : Dying, ∀ {p : Task Unit}, Follows Dying.discipline d p (fun _ d => d = .done) →
      Follows (discipline continuous) (dying d) p (fun _ role => role = dying .done) := by
    intro d p h
    exact h.map dying (fun _ _ h => h) (fun _ _ _ _ h => h) (fun _ _ _ _ => rfl)
      (fun _ _ h => False.elim h) (fun _ _ hd => congrArg dying hd)
  have hdead := Dying.markDead_follows reason
  cases role with
  | plain => exact ⟨trivial, fun was hwas => hmap _ (hdead.2 was hwas)⟩
  | begun update painted resized => exact ⟨trivial, fun was hwas => hmap _ (hdead.2 was hwas)⟩
  | failed => exact ⟨rfl, fun was hwas => hmap _ (hdead.2 was hwas)⟩
  | _ => exact hrole.elim

theorem Between.rests {role : Reading} (h : role.Between) : role.Rests := by
  cases role with
  | idle => trivial
  | plain => trivial
  | _ => exact h.elim

/-- The reader is between two messages, or has announced death. -/
theorem readerTask_follows {z : Decompress} : ∀ (n : Nat) (d : Decoders z) {role : Reading},
    role.Between →
      Follows (discipline continuous) role (readerTask continuous n d) (fun _ role => role.Rests)
  | 0, _, _, h => h.rests
  | n + 1, d, role, hrole => by
      refine follows_bind (R := fun outcome role => match outcome with
          | .ok _ => role.Between
          | .error _ => role.Fallible)
        (follows_attempt (readMessage_follows d hrole) (fun _ _ h => h) (fun _ _ h => h))
        (fun outcome role hout => ?_)
      match outcome, hout with
      | .ok d, hout => exact readerTask_follows n d hout
      | .error (.err e), hout => exact (markDead_follows hout _).mono (fun _ role hrole => by
          subst hrole
          trivial)
      | .error .panic, hout => exact hout
      | .error .parked, hout => exact hout

end Reading

/-! ## The writer -/

namespace Writing

/-- What is left is offered until the connection has taken it. -/
theorem writeAll_follows (command : Command) (message bytes : List UInt8) :
    Follows discipline (left command message bytes) (writeAll bytes) (fun _ role => role = ready) := by
  fun_induction writeAll bytes with
  | case1 => rfl
  | case2 b rest ih =>
      refine ⟨rfl, fun r _ => ?_⟩
      match r with
      | .error e => exact rfl
      | .ok 0 => exact rfl
      | .ok (n + 1) => exact ih n

theorem writeCommand_follows (command : Command) :
    Follows discipline (taken command) (writeCommand command) (fun _ role => role = ready) := by
  cases command with
  | write bytes => exact writeAll_follows _ _ bytes
  | request incremental =>
      refine ⟨rfl, fun first _ => ⟨rfl, fun size _ => ?_⟩⟩
      have hall := writeAll_follows (.request incremental)
        (framebufferUpdateRequest (incremental && !first) 0 0 size.1 size.2)
        (framebufferUpdateRequest (incremental && !first) 0 0 size.1 size.2)
      exact hall

theorem markDead_follows (reason : Option Error) :
    Follows discipline failed (markDead reason) (fun _ role => role = closing) := by
  have hmap : ∀ d : Dying, ∀ {p : Task Unit}, Follows Dying.discipline d p (fun _ d => d = .done) →
      Follows discipline (buried d) p (fun _ role => role = closing) := by
    intro d p h
    refine h.map buried ?_ ?_ ?_ ?_ ?_
    · intro d o hmay
      cases d with
      | done => exact hmay.elim
      | _ => exact hmay
    · intro d o r _ hr
      exact hr
    · intro d o r hmay
      cases d with
      | done => exact hmay.elim
      | _ => rfl
    · intro d e h
      exact False.elim h
    · intro _ d hd
      rw [hd]
      rfl
  exact ⟨rfl, fun was hwas => hmap _ ((Dying.markDead_follows reason).2 was hwas)⟩

/-- The writer has more to write, or has closed its queue. -/
theorem writerTask_follows : ∀ n,
    Follows discipline ready (writerTask n) (fun _ role => role.Rests)
  | 0 => trivial
  | n + 1 => by
      refine follows_perform rfl (fun got _ => ?_)
      cases got with
      | none => exact ⟨rfl, fun _ _ => trivial⟩
      | some command =>
          refine follows_bind (R := fun outcome role => match outcome with
              | .ok _ => role = ready
              | .error _ => role = failed)
            (follows_attempt (writeCommand_follows command) (fun _ _ h => h) (fun _ _ h => h))
            (fun outcome role hout => ?_)
          match outcome, hout with
          | .ok (), hout =>
              subst hout
              exact writerTask_follows n
          | .error (.err e), hout =>
              subst hout
              refine follows_bind (markDead_follows _) (fun _ role hrole => ?_)
              subst hrole
              exact ⟨rfl, fun _ _ => trivial⟩
          | .error .panic, hout => exact hout
          | .error .parked, hout => exact hout

end Writing

/-! ## The refresh -/

namespace Refreshing

theorem send_follows (incremental : Bool) (floor : Nat) :
    Follows (discipline incremental) (asking .check floor) (send (.request incremental))
      (fun sent role => match sent with
        | .ok () => role = waiting floor
        | .error _ => role = failed) := by
  refine (Sending.send_follows (.request incremental)).map (sending floor) ?_ ?_ ?_ ?_ ?_
  · intro s o hmay
    cases s with
    | sent accepted => exact hmay.elim
    | _ => exact hmay
  · intro s o r _ h
    exact h
  · intro s o r hmay
    cases s with
    | sent accepted => exact hmay.elim
    | _ => rfl
  · intro s e h
    exact h.elim
  · rintro returned s ⟨accepted, rfl, rfl⟩
    cases accepted <;> rfl

theorem waitPainted_follows (incremental : Bool) (timeout : Duration) (floor : Nat) : ∀ n,
    Follows (discipline incremental) (waiting floor) (waitPainted timeout floor n)
      (fun _ role => role = ready floor)
  | 0 => rfl
  | n + 1 => by
      have ih := waitPainted_follows incremental timeout floor n
      refine follows_perform rfl (fun wakeup _ => ?_)
      match wakeup with
      | .elapsed => trivial
      | .closed => trivial
      | .received (.lagged _) => exact ih
      | .received (.event (.disconnected _)) => trivial
      | .received (.event (.resized _ _)) => exact ih
      | .received (.event (.cutText _)) => exact ih
      | .received (.event .bell) => exact ih
      | .received (.event (.painted _)) =>
          refine follows_perform rfl (fun last _ => ?_)
          show Follows _ (judged floor last) _ _
          unfold judged
          split
          · rfl
          · exact ih

theorem refresh_follows (n : Nat) (incremental : Bool) (timeout : Duration) :
    Follows (discipline incremental) start (refresh n incremental timeout)
      (fun frame role => ∃ floor, role = copied floor frame) := by
  refine follows_perform rfl (fun _ _ => follows_perform rfl (fun floor _ => ?_))
  refine follows_bind (send_follows incremental floor) (fun sent role hrole => ?_)
  match sent, hrole with
  | .error e, hrole =>
      subst hrole
      trivial
  | .ok (), hrole =>
      subst hrole
      refine follows_bind (waitPainted_follows incremental timeout floor n) (fun _ role hrole => ?_)
      subst hrole
      exact ⟨rfl, fun frame _ => ⟨floor, rfl⟩⟩

end Refreshing

/-! ## Whose operations -/

/-- Only the writer writes, takes commands, or looks at `needs_full`. -/
def Op.OfWriter : Op → Prop
  | .pollWrite _ => True
  | .pop => True
  | .swapNeedsFull => True
  | .size => True
  | .closeCommands => True
  | _ => False

theorem Sending.not_writer {s : Sending} {command : Command} {o : Op} (hmay : s.may command o) :
    ¬ o.OfWriter := by
  intro h
  cases s with
  | sent accepted => exact hmay
  | _ =>
      cases hmay
      exact h

theorem Dying.not_writer {d : Dying} {o : Op} (hmay : d.may o) : ¬ o.OfWriter := by
  intro h
  cases d with
  | announce =>
      obtain ⟨reason, rfl⟩ := hmay
      exact h
  | done => exact hmay
  | _ =>
      cases hmay
      exact h

theorem Reading.not_writer {role : Reading} {o : Op} (hmay : role.may o) : ¬ o.OfWriter := by
  intro h
  cases role with
  | plain =>
      cases o with
      | fill n => exact h
      | setCutText text => exact h
      | disarm => exact h
      | swapConnected => exact h
      | emit event => exact h
      | _ => exact hmay
  | begun update painted resized =>
      cases o with
      | fill n => exact h
      | draw f => exact h
      | desktopSize w h' => exact h
      | swapConnected => exact h
      | storeOutstanding n => exact h
      | _ => exact hmay
  | flagged update painted =>
      obtain ⟨w, h', rfl⟩ := hmay
      exact h
  | asking s update painted => exact Sending.not_writer hmay h
  | dying d => exact Dying.not_writer hmay h
  | _ =>
      cases hmay
      exact h

theorem Role.writer_of_ops {role : Role} {o : Op} (hmay : role.may o) (h : o.OfWriter) :
    ∃ w, role = .writer w := by
  cases role with
  | reader r => exact (Reading.not_writer hmay h).elim
  | writer w => exact ⟨w, rfl⟩
  | refresh incremental r =>
      cases r with
      | asking s floor => exact (Sending.not_writer hmay h).elim
      | copied floor frame => exact hmay.elim
      | failed => exact hmay.elim
      | _ =>
          cases hmay
          exact h.elim
  | sender command s => exact (Sending.not_writer hmay h).elim
  | closer d => exact (Dying.not_writer hmay h).elim

/-- Only the reader reads, changes the state, counts updates, or sets
`needs_full`. -/
def Op.OfReader : Op → Prop
  | .fill _ => True
  | .arm => True
  | .disarm => True
  | .draw _ => True
  | .desktopSize _ _ => True
  | .setPainted => True
  | .setCutText _ => True
  | .beginUpdate => True
  | .nextGeneration => True
  | .storeLastPainted _ => True
  | .storeOutstanding _ => True
  | .storeNeedsFull _ => True
  | _ => False

theorem Sending.not_reader {s : Sending} {command : Command} {o : Op} (hmay : s.may command o) :
    ¬ o.OfReader := by
  intro h
  cases s with
  | sent accepted => exact hmay
  | _ =>
      cases hmay
      exact h

theorem Dying.not_reader {d : Dying} {o : Op} (hmay : d.may o) : ¬ o.OfReader := by
  intro h
  cases d with
  | announce =>
      obtain ⟨reason, rfl⟩ := hmay
      exact h
  | done => exact hmay
  | _ =>
      cases hmay
      exact h

theorem Role.reader_of_ops {role : Role} {o : Op} (hmay : role.may o) (h : o.OfReader) :
    ∃ r, role = .reader r := by
  cases role with
  | reader r => exact ⟨r, rfl⟩
  | writer w =>
      cases w with
      | dying d => exact (Dying.not_reader hmay h).elim
      | gone => exact hmay.elim
      | _ =>
          cases hmay
          exact h.elim
  | refresh incremental r =>
      cases r with
      | asking s floor => exact (Sending.not_reader hmay h).elim
      | copied floor frame => exact hmay.elim
      | failed => exact hmay.elim
      | _ =>
          cases hmay
          exact h.elim
  | sender command s => exact (Sending.not_reader hmay h).elim
  | closer d => exact (Dying.not_reader hmay h).elim

/-- Only a rect of an update is drawn, and it keeps the size. -/
theorem Role.keepsSize {role : Role} {f : Framebuffer → Outcome Framebuffer}
    (hmay : role.may (.draw f)) : KeepsSize f := by
  obtain ⟨r, rfl⟩ := Role.reader_of_ops hmay trivial
  cases r with
  | begun update painted resized => exact hmay
  | plain => exact hmay.elim
  | flagged update painted =>
      obtain ⟨w, h, hmay⟩ := hmay
      cases hmay
  | asking s update painted => exact (Sending.not_reader hmay trivial).elim
  | dying d => exact (Dying.not_reader hmay trivial).elim
  | _ => cases hmay

/-- Only after a DesktopSize rect is `needs_full` stored, and it is set. -/
theorem Role.storesNeedsFull {role : Role} {full : Bool} (hmay : role.may (.storeNeedsFull full)) :
    full = true ∧ ∃ update painted, role = .reader (.resizing update painted) := by
  obtain ⟨r, rfl⟩ := Role.reader_of_ops hmay trivial
  cases r with
  | resizing update painted =>
      cases hmay
      exact ⟨rfl, update, painted, rfl⟩
  | begun update painted resized => exact hmay.elim
  | plain => exact hmay.elim
  | flagged update painted =>
      obtain ⟨w, h, hmay⟩ := hmay
      cases hmay
  | asking s update painted => exact (Sending.not_reader hmay trivial).elim
  | dying d => exact (Dying.not_reader hmay trivial).elim
  | _ => cases hmay

/-- A DesktopSize rect is one of an update. -/
theorem Role.resizes {role : Role} {w h : UInt16} (hmay : role.may (.desktopSize w h)) :
    ∃ update painted resized, role = .reader (.begun update painted resized) := by
  obtain ⟨r, rfl⟩ := Role.reader_of_ops hmay trivial
  cases r with
  | begun update painted resized => exact ⟨update, painted, resized, rfl⟩
  | plain => exact hmay.elim
  | flagged update painted =>
      obtain ⟨w, h, hmay⟩ := hmay
      cases hmay
  | asking s update painted => exact (Sending.not_reader hmay trivial).elim
  | dying d => exact (Dying.not_reader hmay trivial).elim
  | _ => cases hmay

theorem Dying.may_cases {d : Dying} {o : Op} (hmay : d.may o) :
    o = .swapConnected ∨ (∃ reason, o = .emit (.disconnected reason)) ∨ o = .signalShutdown := by
  cases d with
  | swap => exact .inl hmay
  | announce => exact .inr (.inl hmay)
  | signal => exact .inr (.inr hmay)
  | done => exact hmay.elim

theorem Sending.may_push {s : Sending} {command command' : Command}
    (hmay : s.may command (.push command')) : s = .push ∧ command' = command := by
  cases s with
  | push =>
      cases hmay
      exact ⟨rfl, rfl⟩
  | sent accepted => exact hmay.elim
  | _ => cases hmay

theorem Dying.not_push {d : Dying} {command : Command} (hmay : d.may (.push command)) : False := by
  rcases Dying.may_cases hmay with h | ⟨_, h⟩ | h <;> cases h

/-- Who queues a command: a caller its own, the reader and a refresh a request. -/
theorem Role.pushes {role : Role} {command : Command} (hmay : role.may (.push command)) :
    role = .sender command .push ∨
      (command = .request true ∧ ∃ update painted, role = .reader (.asking .push update painted)) ∨
      ∃ incremental floor, command = .request incremental ∧
        role = .refresh incremental (.asking .push floor) := by
  cases role with
  | reader r =>
      cases r with
      | asking s update painted =>
          obtain ⟨rfl, rfl⟩ := Sending.may_push hmay
          exact .inr (.inl ⟨rfl, update, painted, rfl⟩)
      | plain => exact hmay.elim
      | begun update painted resized => exact hmay.elim
      | flagged update painted =>
          obtain ⟨_, _, hmay⟩ := hmay
          cases hmay
      | dying d => exact (Dying.not_push hmay).elim
      | _ => cases hmay
  | writer w =>
      cases w with
      | dying d => exact (Dying.not_push hmay).elim
      | gone => exact hmay.elim
      | _ => cases hmay
  | refresh incremental r =>
      cases r with
      | asking s floor =>
          obtain ⟨rfl, rfl⟩ := Sending.may_push hmay
          exact .inr (.inr ⟨incremental, floor, rfl, rfl⟩)
      | copied floor frame => exact hmay.elim
      | failed => exact hmay.elim
      | _ => cases hmay
  | sender command' s =>
      obtain ⟨rfl, rfl⟩ := Sending.may_push hmay
      exact .inl rfl
  | closer d => exact (Dying.not_push hmay).elim

/-- Only a writer that is done closes the queue. -/
theorem Role.closes {role : Role} (hmay : role.may .closeCommands) : role = .writer .closing := by
  obtain ⟨w, rfl⟩ := Role.writer_of_ops hmay trivial
  cases w with
  | closing => rfl
  | dying d => exact (Dying.not_writer hmay trivial).elim
  | gone => exact hmay.elim
  | _ => cases hmay

/-- A task comes to announce death by the swap of `connected`, or goes on
announcing it. -/
theorem Reading.next_dying {continuous : Bool} {role : Reading} {o : Op} {r : o.Resp} {d : Dying}
    (hmay : role.may o) (h : role.next continuous o r = dying d) :
    o = .swapConnected ∨ ∃ d₀, role = dying d₀ ∧ d = d₀.next o r := by
  cases role with
  | idle =>
      cases (hmay : o = .disarm)
      cases h
  | listening =>
      cases (hmay : o = .fill 1)
      cases r <;> cases h
  | heard update =>
      cases (hmay : o = .arm)
      cases update <;> cases h
  | owed =>
      cases (hmay : o = .beginUpdate)
      cases h
  | plain =>
      cases o with
      | fill n => cases r <;> cases h
      | swapConnected => exact .inl rfl
      | setCutText text => cases h
      | disarm => cases h
      | emit event => cases h
      | _ => exact hmay.elim
  | begun update painted resized =>
      cases o with
      | fill n => cases r <;> cases h
      | draw f => cases r <;> cases h
      | swapConnected => exact .inl rfl
      | desktopSize w h' => cases h
      | storeOutstanding n =>
          simp only [next, drained, asked] at h
          split at h
          · cases h
          · split at h <;> cases h
      | _ => exact hmay.elim
  | resizing update painted =>
      cases (hmay : o = .storeNeedsFull true)
      cases h
  | flagged update painted =>
      obtain ⟨w, h', rfl⟩ := hmay
      cases h
  | asking s update painted =>
      simp only [next] at h
      generalize s.next (.request true) o r = s' at h
      cases s' with
      | sent accepted =>
          simp only [sending, asked] at h
          split at h <;> cases h
      | _ => cases h
  | announce update =>
      cases (hmay : o = .nextGeneration)
      cases h
  | numbered update generation =>
      cases (hmay : o = .storeLastPainted update)
      cases h
  | stored generation =>
      cases (hmay : o = .setPainted)
      cases h
  | shown generation =>
      cases (hmay : o = .emit (.painted generation))
      cases h
  | failed => exact .inl hmay
  | dying d₀ => exact .inr ⟨d₀, rfl, by injection h with h; exact h.symm⟩

theorem Writing.left_cases (command : Command) (message rest : List UInt8) :
    left command message rest = ready ∨ left command message rest = writing command message rest := by
  unfold left
  split
  · exact .inl rfl
  · exact .inr rfl

theorem Writing.next_dying {role : Writing} {o : Op} {r : o.Resp} {d : Dying} (hmay : role.may o)
    (h : role.next o r = dying d) :
    o = .swapConnected ∨ ∃ d₀, role = dying d₀ ∧ d = d₀.next o r := by
  have hleft : ∀ command message rest, left command message rest ≠ dying d := by
    intro command message rest h
    rcases left_cases command message rest with h' | h' <;> rw [h'] at h <;> cases h
  cases role with
  | ready =>
      cases (hmay : o = .pop)
      match r with
      | none => cases h
      | some (.write bytes) => exact (hleft _ _ _ h).elim
      | some (.request incremental) => cases h
  | asked incremental =>
      cases (hmay : o = .swapNeedsFull)
      cases h
  | sized incremental first =>
      cases (hmay : o = .size)
      exact (hleft _ _ _ h).elim
  | writing command message rest =>
      cases (hmay : o = .pollWrite rest)
      match r with
      | .error e => cases h
      | .ok 0 => cases h
      | .ok (n + 1) => exact (hleft _ _ _ h).elim
  | failed => exact .inl hmay
  | dying d₀ =>
      refine .inr ⟨d₀, rfl, ?_⟩
      simp only [next] at h
      generalize d₀.next o r = d' at h ⊢
      cases d' <;> cases h <;> rfl
  | closing =>
      cases (hmay : o = .closeCommands)
      cases h
  | gone => exact hmay.elim

/-- The writer comes to close its queue when it has announced death, or when
the session is shut down. -/
theorem Writing.next_closing {role : Writing} {o : Op} {r : o.Resp} (hmay : role.may o)
    (h : role.next o r = closing) :
    o = .swapConnected ∨ (∃ d, role = dying d) ∨ (o = .pop ∧ HEq r (none : Option Command)) := by
  have hleft : ∀ command message rest, left command message rest ≠ closing := by
    intro command message rest h
    rcases left_cases command message rest with h' | h' <;> rw [h'] at h <;> cases h
  cases role with
  | ready =>
      cases (hmay : o = .pop)
      match r with
      | none => exact .inr (.inr ⟨rfl, HEq.rfl⟩)
      | some (.write bytes) => exact (hleft _ _ _ h).elim
      | some (.request incremental) => cases h
  | asked incremental =>
      cases (hmay : o = .swapNeedsFull)
      cases h
  | sized incremental first =>
      cases (hmay : o = .size)
      exact (hleft _ _ _ h).elim
  | writing command message rest =>
      cases (hmay : o = .pollWrite rest)
      match r with
      | .error e => cases h
      | .ok 0 => cases h
      | .ok (n + 1) => exact (hleft _ _ _ h).elim
  | failed => exact .inl hmay
  | dying d => exact .inr (.inl ⟨d, rfl⟩)
  | closing =>
      cases (hmay : o = .closeCommands)
      cases h
  | gone => exact hmay.elim

/-! ## Who reads and who writes -/

/-- Task 0 is the one reader and task 1 the one writer. -/
structure Posted (γ : Nat → Role) : Prop where
  reader : ∃ r, γ 0 = .reader r
  writer : ∃ w, γ 1 = .writer w
  readers : ∀ j r, γ j = .reader r → j = 0
  writers : ∀ j w, γ j = .writer w → j = 1

theorem Posted.not_writer {γ : Nat → Role} (h : Posted γ) {i : Nat} {o : Op} (hmay : (γ i).may o)
    (hi : i ≠ 1) : ¬ o.OfWriter := by
  intro hop
  obtain ⟨w, hw⟩ := Role.writer_of_ops hmay hop
  exact hi (h.writers i w hw)

/-- The reader is the reader for good. -/
theorem alone_moved {continuous : Bool} {γ : Nat → Role} (h : ∀ j r, γ j = .reader r → j = 0)
    (i : Nat) (o : Op) (r : o.Resp) :
    ∀ j r', Tasks.moved (protocol continuous) γ i o r j = .reader r' → j = 0 := by
  intro j role hrole
  by_cases hji : j = i
  · subst hji
    rw [Tasks.moved_self] at hrole
    cases hi : γ j with
    | reader role' => exact h j role' hi
    | _ =>
        rw [hi] at hrole
        cases hrole
  · rw [Tasks.moved_of_ne _ _ hji] at hrole
    exact h j role hrole

theorem first_moved {continuous : Bool} {γ : Nat → Role} (h : ∃ r, γ 0 = .reader r)
    (i : Nat) (o : Op) (r : o.Resp) :
    ∃ r', Tasks.moved (protocol continuous) γ i o r 0 = .reader r' := by
  obtain ⟨role, hrole⟩ := h
  by_cases h0 : 0 = i
  · subst h0
    rw [Tasks.moved_self, hrole]
    exact ⟨_, rfl⟩
  · rw [Tasks.moved_of_ne _ _ h0]
    exact ⟨role, hrole⟩

theorem posted_moved {continuous : Bool} {γ : Nat → Role} (h : Posted γ) (i : Nat) (o : Op)
    (r : o.Resp) : Posted (Tasks.moved (protocol continuous) γ i o r) := by
  have hkind : ∀ j role, Tasks.moved (protocol continuous) γ i o r j = role →
      role = γ j ∨ role = (γ j).next continuous o r := by
    intro j role hrole
    by_cases hji : j = i
    · subst hji
      rw [Tasks.moved_self] at hrole
      exact .inr hrole.symm
    · rw [Tasks.moved_of_ne _ _ hji] at hrole
      exact .inl hrole.symm
  refine ⟨first_moved h.reader i o r, ?_, alone_moved h.readers i o r, ?_⟩
  · obtain ⟨writer, hwriter⟩ := h.writer
    rcases hkind 1 _ rfl with h | h
    · exact ⟨writer, h.trans hwriter⟩
    · exact ⟨_, h.trans (by rw [hwriter]; rfl)⟩
  · intro j role hrole
    rcases hkind j _ hrole with hsame | hnext
    · exact h.writers j role hsame.symm
    · cases hj : γ j with
      | writer role' => exact h.writers j role' hj
      | _ =>
          rw [hj] at hnext
          cases hnext

/-- What the roles of a session's calls are at the start. -/
theorem sessionRoles_call (continuous : Bool) (calls : List Call) (j : Nat) :
    sessionRoles continuous calls (j + 3) = .closer .done ∨
      ∃ call ∈ calls, sessionRoles continuous calls (j + 3) = call.role := by
  simp only [sessionRoles]
  cases hcall : calls[j]? with
  | none => exact .inl rfl
  | some call => exact .inr ⟨call, List.mem_of_getElem? hcall, rfl⟩

theorem posted_start (continuous : Bool) (calls : List Call) :
    Posted (sessionRoles continuous calls) := by
  have hcalls : ∀ j role, sessionRoles continuous calls (j + 3) = role →
      (∀ r, role ≠ .reader r) ∧ ∀ w, role ≠ .writer w := by
    intro j role hrole
    rcases sessionRoles_call continuous calls j with h | ⟨call, _, h⟩
    · rw [← hrole, h]
      exact ⟨fun _ => Role.noConfusion, fun _ => Role.noConfusion⟩
    · rw [← hrole, h]
      cases call <;> exact ⟨fun _ => Role.noConfusion, fun _ => Role.noConfusion⟩
  refine ⟨⟨_, rfl⟩, ⟨_, rfl⟩, fun j role hrole => ?_, fun j role hrole => ?_⟩
  · match j, hrole with
    | 0, _ => rfl
    | 1, hrole => cases hrole
    | 2, hrole => cases hrole
    | j + 3, hrole => exact absurd rfl ((hcalls j _ hrole).1 role)
  · match j, hrole with
    | 0, hrole => cases hrole
    | 1, _ => rfl
    | 2, hrole => cases hrole
    | j + 3, hrole => exact absurd rfl ((hcalls j _ hrole).2 role)

/-! ## The session -/

section Session

variable {continuous : Bool}

/-- A part of the protocol. -/
theorem follows_quietly {p : Task Unit} {role : Role} {Q : Unit → Role → Prop}
    (hp : Follows (protocol continuous) role p Q) (hQ : ∀ role, Q () role → role.Ended none) :
    Follows (protocol continuous) role (quietly p) Role.Ended :=
  follows_bind hp (fun _ role h => hQ role h)

theorem reader_follows {z : Decompress} (n : Nat) (d : Decoders z) :
    Follows (protocol continuous) (.reader .idle) (quietly (readerTask continuous n d)) Role.Ended :=
  have hidle : Reading.Between .idle := trivial
  follows_quietly (Q := fun _ role => ∃ r : Reading, role = .reader r ∧ r.Rests)
    ((Reading.readerTask_follows n d hidle).map Role.reader (fun _ _ h => h)
      (fun _ _ _ _ h => h) (fun _ _ _ _ => rfl) (fun _ _ h => h) (fun _ r h => ⟨r, rfl, h⟩))
    (fun role h => by
      obtain ⟨r, rfl, hrests⟩ := h
      exact ⟨rfl, hrests⟩)

theorem writer_follows (n : Nat) :
    Follows (protocol continuous) (.writer .ready) (quietly (writerTask n)) Role.Ended :=
  follows_quietly (Q := fun _ role => ∃ w : Writing, role = .writer w ∧ w.Rests)
    ((Writing.writerTask_follows n).map Role.writer (fun _ _ h => h)
      (fun _ _ _ _ h => h) (fun _ _ _ _ => rfl) (fun _ _ h => h) (fun _ w h => ⟨w, rfl, h⟩))
    (fun role h => by
      obtain ⟨w, rfl, hrests⟩ := h
      exact ⟨rfl, hrests⟩)

theorem sender_follows (command : Command) :
    Follows (protocol continuous) (.sender command .check) (sendOrFail command)
      (fun _ role => role = .sender command (.sent true)) := by
  have hsend : Follows (protocol continuous) (.sender command .check) (send command)
      (fun returned role => ∃ accepted, role = .sender command (.sent accepted) ∧
        returned = Sending.result accepted) :=
    (Sending.send_follows command).map (Role.sender command) (fun _ _ h => h)
      (fun _ _ _ _ h => h) (fun _ _ _ _ => rfl) (fun _ _ h => False.elim h)
      (fun _ s h => by
        obtain ⟨accepted, rfl, rfl⟩ := h
        exact ⟨accepted, rfl, rfl⟩)
  refine follows_bind hsend (fun returned role h => ?_)
  obtain ⟨accepted, rfl, rfl⟩ := h
  cases accepted with
  | false => rfl
  | true => rfl

theorem quietly_sender_follows (command : Command) :
    Follows (protocol continuous) (.sender command .check) (quietly (sendOrFail command))
      Role.Ended :=
  follows_quietly (sender_follows command) (fun role h => by
    subst h
    exact ⟨rfl, true, rfl⟩)

theorem close_follows :
    Follows (protocol continuous) (.closer .swap) (quietly close) Role.Ended :=
  follows_quietly (Q := fun _ role => role = .closer .done)
    ((Dying.markDead_follows none).map Role.closer (fun _ _ h => h)
      (fun _ _ _ _ h => h) (fun _ _ _ _ => rfl) (fun _ _ h => False.elim h)
      (fun _ _ h => congrArg Role.closer h))
    (fun role h => by
      subst h
      exact ⟨rfl, rfl⟩)

theorem call_follows (call : Call) :
    Follows (protocol continuous) call.role call.task Role.Ended := by
  cases call with
  | refresh n incremental timeout =>
      have h : Follows (protocol continuous) (.refresh incremental .start)
          (refresh n incremental timeout)
          (fun frame role => ∃ floor, role = .refresh incremental (.copied floor frame)) :=
        (Refreshing.refresh_follows n incremental timeout).map (Role.refresh incremental)
          (fun _ _ h => h) (fun _ _ _ _ h => h) (fun _ _ _ _ => rfl) (fun _ _ h => h)
          (fun frame r h => by
            obtain ⟨floor, rfl⟩ := h
            exact ⟨floor, rfl⟩)
      refine follows_bind h (fun frame role h => ?_)
      obtain ⟨floor, rfl⟩ := h
      rfl
  | close => exact close_follows
  | _ => exact quietly_sender_follows _

theorem firstRequest_follows :
    Follows (protocol continuous) (.sender (.request true) (opening continuous))
      (quietly (firstRequest continuous)) Role.Ended := by
  cases continuous with
  | false => exact ⟨rfl, true, rfl⟩
  | true => exact quietly_sender_follows _

/-- Every task of a session keeps to its role. -/
theorem session_roles {z : Decompress} (width height : UInt16) (name : String) (n m : Nat)
    (d : Decoders z) (calls : List Call) :
    Tasks.Roles (protocol continuous) Role.Ended (sessionRoles continuous calls)
      (session width height name continuous n m d calls) := by
  intro j p own hget
  simp only [session, sessionTasks, List.getElem?_map, Option.map_eq_some_iff] at hget
  obtain ⟨p', hget, heq⟩ := hget
  cases heq
  match j, hget with
  | 0, hget =>
      cases hget
      exact reader_follows n d
  | 1, hget =>
      cases hget
      exact writer_follows m
  | 2, hget =>
      cases hget
      exact firstRequest_follows
  | j + 3, hget =>
      simp only [List.getElem?_cons_succ, List.getElem?_map, Option.map_eq_some_iff] at hget
      obtain ⟨call, hcall, rfl⟩ := hget
      simp only [sessionRoles, hcall, Option.map_some, Option.getD_some]
      exact call_follows call

end Session

/-! ## Between two messages -/

/-- The reader is about to wait for the first byte of a message, or waits. -/
inductive BetweenMessages : Task Returned → Prop
  | disarms (k) : BetweenMessages (.step .disarm k)
  | listens (k) (h : ∀ b, ∃ k', k (.ok [b]) = .step .arm k') : BetweenMessages (.step (.fill 1) k)

/-- The roles of a reader between two messages. -/
def Reading.Awaits : Reading → Prop
  | idle => True
  | plain => True
  | listening => True
  | _ => False

theorem Reading.awaits_of_between {continuous : Bool} {role : Reading} {p : Task Returned}
    (hf : Follows (protocol continuous) (.reader role) p Role.Ended) (hp : BetweenMessages p) :
    role.Awaits := by
  have hsend : ∀ {s : Sending} {command} {o : Op}, s.may command o → o.OfReader → role.Awaits :=
    fun hmay h => (Sending.not_reader hmay h).elim
  cases hp with
  | disarms k =>
      have hmay : role.may .disarm := hf.1
      cases role with
      | idle => trivial
      | plain => trivial
      | begun update painted resized => exact hmay.elim
      | flagged update painted =>
          obtain ⟨w, h, hmay⟩ := hmay
          cases hmay
      | asking s update painted => exact hsend hmay trivial
      | dying d => exact (Dying.not_reader hmay trivial).elim
      | _ => cases hmay
  | listens k h =>
      have hmay : role.may (.fill 1) := hf.1
      obtain ⟨k', hk⟩ := h 0
      have hnext := hf.2 (.ok [0]) rfl
      rw [hk] at hnext
      cases role with
      | plain => exact hnext.1.elim
      | listening => trivial
      | begun update painted resized => exact hnext.1.elim
      | flagged update painted =>
          obtain ⟨w, h, hmay⟩ := hmay
          cases hmay
      | asking s update painted => exact hsend hmay trivial
      | dying d => exact (Dying.not_reader hmay trivial).elim
      | _ => cases hmay

end Bolide.Rfb
