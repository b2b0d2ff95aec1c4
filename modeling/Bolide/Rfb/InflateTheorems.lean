/-
Bolide.Rfb.InflateTheorems — the loop of `inflate_slice` collects its slice.

`inflateSlice_spec` is about any inflater that keeps zlib's contract: given
the next slice of a valid stream, the loop returns what that slice inflates
to, whatever its buffer cuts it into. `inflateSlice_each` is about all slices
of a stream, one after another, and about streams that end or are corrupt.
`Decompress.ofPlain` is such an inflater for any monotone description of
streams, and `stored` the one for streams of stored blocks.
-/
import Bolide.Rfb.Inflate
import Bolide.Lib.Stored

namespace Bolide.Rfb

open Lib

/-! ## Calls -/

/-- From `s`, calls as those of the loop give `out`, and leave `left` of the input. -/
inductive Calls (z : Decompress) :
    z.State → List UInt8 → List UInt8 → z.State → List UInt8 → Prop
  | done {s left} : Calls z s left [] s left
  | call {s input r out s' left} : z.decompress s input inflateBuffer = .ok r →
      Calls z r.next (input.drop r.read) out s' left → Calls z s input (r.out ++ out) s' left

section

variable {z : Decompress} {plain : List UInt8 → Option (List UInt8)} {s s' : z.State}
  {fed given input out left : List UInt8}

theorem Calls.reached (h : Calls z s input out s' left) (hs : Reached z fed given s) :
    ∃ used, input = used ++ left ∧ Reached z (fed ++ used) (given ++ out) s' := by
  induction h generalizing fed given with
  | done => exact ⟨[], rfl, by rwa [List.append_nil, List.append_nil]⟩
  | @call s input r out s' left hcall _ ih =>
      obtain ⟨used, hdrop, hs'⟩ := ih (hs.call hcall)
      refine ⟨input.take r.read ++ used, ?_, ?_⟩
      · rw [List.append_assoc, ← hdrop, List.take_append_drop]
      · rwa [List.append_assoc, List.append_assoc] at hs'

/-- The stream ends with `bytes`: nothing after them counts. -/
def Ended (plain : List UInt8 → Option (List UInt8)) (bytes given : List UInt8) : Prop :=
  ∀ more, plain (bytes ++ more) = some given

/-! ## The contract, slice by slice -/

/-- Calls on the next piece of a stream have given what it adds, and have
consumed all of it unless the stream has ended. -/
structure Yields (plain : List UInt8 → Option (List UInt8)) (fed given : List UInt8) (s : z.State)
    (input out : List UInt8) (s' : z.State) : Prop where
  total : plain (fed ++ input) = some (given ++ out)
  consumed : ∃ left, Calls z s input out s' left ∧
    (left = [] ∨ ∃ used, input = used ++ left ∧ Ended plain (fed ++ used) (given ++ out))

/-- The loop from any point inside a slice of a stream. -/
theorem inflateLoop_spec (hz : Inflates z plain) (s : z.State) (rest out : List UInt8) :
    ∀ {fed given : List UInt8}, Reached z fed given s →
      (∀ out' s', inflateLoop z s rest out = .ok (out', s') →
        ∃ more, out' = out ++ more ∧ Yields plain fed given s rest more s') ∧
      ∀ e, inflateLoop z s rest out = .error e → plain (fed ++ rest) = none := by
  fun_induction inflateLoop z s rest out with
  | case1 s rest out e hcall =>
      intro fed given hs
      refine ⟨fun _ _ h => (by cases h), fun _ _ => ?_⟩
      by_contra hvalid
      obtain ⟨r, hr⟩ := hz.valid inflateBuffer hs (Option.isSome_iff_ne_none.mpr hvalid)
      rw [hcall] at hr
      cases hr
  | case2 s rest out r hcall hended =>
      intro fed given hs
      refine ⟨fun out' s' h => ?_, fun _ h => (by cases h)⟩
      cases h
      have hend : Ended plain (fed ++ rest.take r.read) (given ++ r.out) :=
        hz.ended hs hcall hended
      have hcalls := Calls.call hcall .done
      rw [List.append_nil] at hcalls
      have hrest := List.take_append_drop r.read rest
      refine ⟨r.out, rfl, ?_, rest.drop r.read, hcalls, .inr ⟨_, hrest.symm, hend⟩⟩
      rw [← hrest, ← List.append_assoc, hend]
  | case3 s rest out r hcall hended hstall =>
      intro fed given hs
      refine ⟨fun out' s' h => ?_, fun _ h => (by cases h)⟩
      cases h
      obtain ⟨rfl, hfed⟩ := hz.stall hs (by decide) hcall (by simpa using hended) hstall.1 hstall.2
      have hcalls := Calls.call hcall .done
      rw [hstall.1, List.drop_zero, List.append_nil] at hcalls
      refine ⟨r.out, rfl, ?_, [], hcalls, .inl rfl⟩
      rw [hstall.2, List.append_nil, List.append_nil, hfed]
  | case4 s rest out r hcall hended hstall ih =>
      intro fed given hs
      have hsplit : fed ++ rest.take r.read ++ rest.drop r.read = fed ++ rest := by
        rw [List.append_assoc, List.take_append_drop]
      obtain ⟨hok, herror⟩ := ih (hs.call hcall)
      rw [hsplit] at herror
      refine ⟨fun out' s' h => ?_, herror⟩
      obtain ⟨more, rfl, htotal, left, hcalls, hleft⟩ := hok out' s' h
      rw [hsplit, List.append_assoc] at htotal
      refine ⟨r.out ++ more, List.append_assoc _ _ _, htotal, left, .call hcall hcalls, ?_⟩
      rcases hleft with rfl | ⟨used, hused, hend⟩
      · exact .inl rfl
      · refine .inr ⟨rest.take r.read ++ used, ?_, ?_⟩
        · rw [List.append_assoc, ← hused, List.take_append_drop]
        · rwa [List.append_assoc, List.append_assoc] at hend

/-- To the inflater, what comes after is the same as after all of the piece. -/
theorem Yields.upTo {s s' : z.State} (h : Yields plain fed given s input out s')
    (hs : Reached z fed given s) : UpTo z plain s' (fed ++ input) (given ++ out) := by
  obtain ⟨htotal, left, hcalls, hleft⟩ := h
  obtain ⟨used, rfl, hs'⟩ := hcalls.reached hs
  refine ⟨fed ++ used, hs', fun more => ?_⟩
  rcases hleft with rfl | ⟨used', hused, hend⟩
  · rw [List.append_nil]
  · obtain rfl := List.append_cancel_right hused
    rw [hend, ← List.append_assoc, List.append_assoc, hend]

theorem upTo_new : UpTo z plain z.new [] [] := ⟨[], .new, fun _ => rfl⟩

/-- What a call of `inflateSlice` does where the stream has been taken as far as `bytes`. -/
theorem inflateSlice_yields (hz : Inflates z plain) {s : z.State} {bytes given : List UInt8}
    (hs : UpTo z plain s bytes given) (payload : List UInt8) :
    (∀ out s', inflateSlice z s payload = .ok (out, s') →
      Yields plain bytes given s payload out s' ∧
        UpTo z plain s' (bytes ++ payload) (given ++ out)) ∧
    ∀ e, inflateSlice z s payload = .error e → plain (bytes ++ payload) = none := by
  obtain ⟨fed, hreached, hsame⟩ := hs
  obtain ⟨hok, herror⟩ := inflateLoop_spec hz s payload [] hreached
  refine ⟨fun out s' hslice => ?_, fun e hslice => (hsame payload).trans (herror e hslice)⟩
  obtain ⟨_, rfl, hyields⟩ := hok out s' hslice
  obtain ⟨fed', hs', hmore⟩ := hyields.upTo hreached
  obtain ⟨htotal, left, hcalls, hleft⟩ := hyields
  refine ⟨⟨(hsame payload).trans htotal, left, hcalls, ?_⟩, fed', hs', fun more => ?_⟩
  · rcases hleft with hleft | ⟨used, hused, hend⟩
    · exact .inl hleft
    · refine .inr ⟨used, hused, fun more => ?_⟩
      rw [List.append_assoc, hsame, ← List.append_assoc]
      exact hend more
  · rw [← hmore, List.append_assoc, hsame, ← List.append_assoc]

/-- **One slice**: the loop returns exactly what the slice adds to the stream. -/
theorem inflateSlice_spec (hz : Inflates z plain) {s : z.State}
    {bytes given payload total : List UInt8} (hs : UpTo z plain s bytes given)
    (htotal : plain (bytes ++ payload) = some total) :
    ∃ out s', inflateSlice z s payload = .ok (out, s') ∧ total = given ++ out ∧
      UpTo z plain s' (bytes ++ payload) total := by
  obtain ⟨hok, herror⟩ := inflateSlice_yields hz hs payload
  cases hslice : inflateSlice z s payload with
  | error e =>
      rw [herror e hslice] at htotal
      cases htotal
  | ok r =>
      obtain ⟨out, s'⟩ := r
      obtain ⟨hyields, hupTo⟩ := hok out s' hslice
      obtain rfl : total = given ++ out := Option.some.inj (htotal.symm.trans hyields.total)
      exact ⟨out, s', rfl, rfl, hupTo⟩

end

/-! ## An inflater that exists -/

/-- What an inflater has been fed, and how many bytes it has given back. -/
structure Fed where
  bytes : List UInt8
  given : Nat
  deriving DecidableEq, Repr

/-- What is still to be given back. -/
def Fed.owed (plain : List UInt8 → List UInt8) (s : Fed) : List UInt8 :=
  (plain s.bytes).drop s.given

/-- The inflater that knows what each prefix of a stream inflates to. -/
def Decompress.ofPlain (plain : List UInt8 → List UInt8) : Decompress where
  State := Fed
  new := ⟨[], 0⟩
  decompress s input room :=
    let out := (Fed.owed plain ⟨s.bytes ++ input, s.given⟩).take room
    .ok ⟨⟨s.bytes ++ input, s.given + out.length⟩, input.length, out, false⟩
  pending s := (s.owed plain).length
  read_le := by
    intro s input room r h
    cases h
    exact le_rfl
  out_le := by
    intro s input room r h
    cases h
    exact List.length_take_le room _
  pending_lt := by
    intro s input room r h hread hout
    cases h
    obtain rfl : input = [] := List.length_eq_zero_iff.mp hread
    have hpos := List.length_pos_iff.mpr hout
    simp only [Fed.owed, List.append_nil, List.length_take, List.length_drop] at hpos ⊢
    omega

section

variable {plain : List UInt8 → List UInt8}

/-- It remembers what it was fed and has given a prefix of what that inflates to. -/
theorem reached_ofPlain (hmono : ∀ bytes more, plain bytes <+: plain (bytes ++ more))
    {fed given : List UInt8} {s : (Decompress.ofPlain plain).State}
    (hs : Reached (.ofPlain plain) fed given s) :
    s = (⟨fed, given.length⟩ : Fed) ∧ given <+: plain fed := by
  induction hs with
  | new => exact ⟨rfl, List.nil_prefix⟩
  | @call fed given s input room r hs hcall ih =>
      obtain ⟨rfl, hgiven⟩ := ih
      cases hcall
      obtain ⟨rest, hrest⟩ := hgiven.trans (hmono fed input)
      simp only [List.take_length, List.length_append, Fed.owed]
      rw [← hrest, List.drop_left]
      exact ⟨rfl, (List.prefix_append_right_inj given).mpr (List.take_prefix room rest)⟩

theorem inflates_ofPlain (hnil : plain [] = [])
    (hmono : ∀ bytes more, plain bytes <+: plain (bytes ++ more)) :
    Inflates (.ofPlain plain) (fun bytes => some (plain bytes)) where
  start := congrArg some hnil
  valid _ _ _ := ⟨_, rfl⟩
  stall := by
    intro fed given s input room r hs hroom hcall hended hread hout
    obtain ⟨rfl, rest, hrest⟩ := reached_ofPlain hmono hs
    cases hcall
    obtain rfl : input = [] := List.length_eq_zero_iff.mp hread
    simp only [Fed.owed, List.append_nil, ← hrest, List.drop_left] at hout
    rcases List.take_eq_nil_iff.mp hout with h | rfl
    · exact absurd h (Nat.ne_of_gt hroom)
    · rw [← hrest, List.append_nil]
      exact ⟨rfl, rfl⟩
  ended := by
    intro fed given s input room r hs hcall hended
    cases hcall
    cases hended

end

/-- The inflater of streams of stored blocks. -/
def stored : Decompress := .ofPlain storedPlain

theorem inflates_stored : Inflates stored (fun bytes => some (storedPlain bytes)) :=
  inflates_ofPlain rfl storedPlain_prefix

/-! ## Slice after slice -/

/-- The decoder has been given these payloads, one after another, and has returned these. -/
inductive Sliced (z : Decompress) : List (List UInt8) → List (List UInt8) → z.State → Prop
  | new : Sliced z [] [] z.new
  | slice {payloads outs s payload out s'} : Sliced z payloads outs s →
      inflateSlice z s payload = .ok (out, s') →
      Sliced z (payloads ++ [payload]) (outs ++ [out]) s'

theorem Sliced.upTo {z : Decompress} {plain : List UInt8 → Option (List UInt8)}
    (hz : Inflates z plain) {payloads outs : List (List UInt8)} {s : z.State}
    (h : Sliced z payloads outs s) : UpTo z plain s payloads.flatten outs.flatten := by
  induction h with
  | new => exact upTo_new
  | @slice payloads outs s payload out s' _ hslice ih =>
      have hnext := ((inflateSlice_yields hz ih payload).1 out s' hslice).2
      rwa [← List.flatten_concat, ← List.flatten_concat] at hnext

/-- After any payloads, the call for the next one returns, having consumed all of it unless the
stream has ended, and all that was returned is what all payloads inflate to; or it fails, and no
stream begins as the payloads do. -/
theorem inflateSlice_each {z : Decompress} {plain : List UInt8 → Option (List UInt8)}
    (hz : Inflates z plain) {payloads outs : List (List UInt8)} {s : z.State}
    (h : Sliced z payloads outs s) (payload : List UInt8) :
    (∀ out s', inflateSlice z s payload = .ok (out, s') →
      Yields plain payloads.flatten outs.flatten s payload out s') ∧
    ∀ e, inflateSlice z s payload = .error e →
      e.IsProtocol ∧ plain (payloads.flatten ++ payload) = none := by
  obtain ⟨hok, herror⟩ := inflateSlice_yields hz (h.upTo hz) payload
  exact ⟨fun out s' hslice => (hok out s' hslice).1,
    fun e hslice => ⟨inflateLoop_fails z s payload [] hslice, herror e hslice⟩⟩

/-- Two payloads of stored blocks, the header before the first. -/
theorem inflateSlice_each_stored : ∃ s s' out,
    inflateSlice stored stored.new [0x78, 0x01, 0, 2, 0, 0xfd, 0xff, 7, 7] = .ok ([7, 7], s) ∧
    inflateSlice stored s [0, 1, 0, 0xfe, 0xff, 8] = .ok (out, s') ∧ out = [8] := by
  have hfirst : some (storedPlain ([] ++ [0x78, 0x01, 0, 2, 0, 0xfd, 0xff, 7, 7])) =
    some [7, 7] := by decide
  have hboth : storedPlain ([[0x78, 0x01, 0, 2, 0, 0xfd, 0xff, 7, 7]].flatten ++
    [0, 1, 0, 0xfe, 0xff, 8]) = [7, 7] ++ [8] := by decide
  obtain ⟨out, s, hslice, hout, -⟩ := inflateSlice_spec inflates_stored upTo_new hfirst
  obtain rfl : out = [7, 7] := hout.symm
  have hsliced : Sliced stored _ _ s := .slice .new hslice
  obtain ⟨hok, herror⟩ := inflateSlice_each inflates_stored hsliced [0, 1, 0, 0xfe, 0xff, 8]
  cases hnext : inflateSlice stored s [0, 1, 0, 0xfe, 0xff, 8] with
  | error e => cases (herror e hnext).2
  | ok r =>
      obtain ⟨out, s'⟩ := r
      have htotal := Option.some.inj (hok out s' hnext).total
      exact ⟨s, s', out, hslice, hnext, (List.append_cancel_left (hboth.symm.trans htotal)).symm⟩

end Bolide.Rfb
