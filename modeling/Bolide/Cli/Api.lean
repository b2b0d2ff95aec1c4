/-
Bolide.Cli.Api — the client of the state file, at the gate of the server
(`Client` of `bolide-cli/src/api.rs`, and the two places of
`serve_foreground` in `run.rs` that take the token).

`serve_foreground` gives the token of the command line to the server and to
the state file, and the other commands send the one in the file. What they
send comes through exactly when HTTP can carry it: the token is not empty,
has blanks at neither end and is visible ASCII.

Translation notes. What the state file holds is what `serde_json` makes of
it. A request is its `Authorization` headers; one that `reqwest` cannot build
is not sent.
-/
import Bolide.Cli.CommandLine
import Bolide.Cli.State
import Bolide.Server.Token

namespace Bolide.Cli

open Lib Server CommandLine

/-! ## The two ends -/

/-- What `serve_foreground` saves. -/
def savedState (args : CommandLine.ConnectArgs) (endpoint : String) (pid : UInt32) (remote : String)
    (username : Option String) (startedAt : String) : SessionState where
  endpoint := endpoint
  pid := pid
  remote := remote
  username := username
  token := args.token.map String.ofList
  startedAt := startedAt

/-- An HTTP client pointed at one bolide server. -/
structure Client where
  base : String
  token : Option String

/-- `Client::for_session`. -/
def Client.forSession (state : SessionState) : Client where
  base := state.endpoint
  token := state.token

/-- `Client::authed`: the `Authorization` headers of a request. -/
def Client.authed (http : Http) (client : Client) : Except CliError (List (List UInt8)) :=
  match client.token with
  | none => .ok []
  | some token =>
      let value := Text.utf8Bytes ("Bearer ".toList ++ token.toList)
      if http.accepts value = true then .ok [value]
      else .error (.failure s!"could not reach the bolide server at {client.base}: builder error")

/-! ## The holder of the token -/

/-- A token that HTTP can carry: visible ASCII, with no blank at its ends. -/
structure Presentable (token : Text) : Prop where
  visible : ∀ c ∈ token, VisibleChar c
  first : ∃ c ∈ token.head?, ¬ BlankChar c
  last : ∃ c ∈ token.getLast?, ¬ BlankChar c

/-- The gate of a daemon is open to the client of its state file, and to no
request that does not bear the token. -/
structure Gate (http : Http) (args : CommandLine.ConnectArgs) (state : SessionState)
    (token : Text) : Prop where
  holder : ∃ headers, (Client.forSession state).authed http = .ok headers ∧
    requireToken http args.token (headers.map http.carried) = .ok ()
  others : ∀ headers, (∀ value ∈ headers.head?, ¬ Bears token value) →
    requireToken http args.token headers = .error unauthorized

section Carried

variable {http : Http} {token : Text}

/-- The last byte of a text is its last character, when that is ASCII. -/
theorem getLast?_utf8Bytes {s : Text} {c : Char} (h : s.getLast? = some c) (hc : c.toNat < 128) :
    (Text.utf8Bytes s).getLast? = some (UInt8.ofNat c.toNat) := by
  obtain ⟨init, rfl⟩ := List.getLast?_eq_some_iff.mp h
  rw [Text.utf8Bytes_append, Text.utf8Bytes_cons, Text.utf8EncodeChar_ascii hc]
  simp

theorem blank_ofNat {c : Char} (h : VisibleChar c) :
    blank (UInt8.ofNat c.toNat) = true ↔ BlankChar c := by
  rw [visibleChar_iff] at h
  rw [blank_iff, blankChar_iff, UInt8.toNat_ofNat', Nat.mod_eq_of_lt (by omega)]

/-- What HTTP carries ends in no blank. -/
theorem getLast?_trimmed {bytes : List UInt8} {b : UInt8} (h : b ∈ (trimmed bytes).getLast?) :
    blank b = false := by
  rw [trimmed, List.getLast?_reverse] at h
  exact Text.head?_dropWhile h

theorem trimmed_eq_self {bytes : List UInt8} (hfirst : ∀ b ∈ bytes.head?, blank b = false)
    (hlast : ∀ b ∈ bytes.getLast?, blank b = false) : trimmed bytes = bytes := by
  rw [trimmed, Text.dropWhile_eq_self hfirst,
    Text.dropWhile_eq_self (by rwa [List.head?_reverse]), List.reverse_reverse]

/-- The header of the CLI's own client. -/
def ownHeader (token : Text) : List UInt8 := Text.utf8Bytes ("Bearer ".toList ++ token)

/-- A token that HTTP can carry is carried as it is, and let through. -/
theorem requireToken_carried (hhttp : http.Lawful) (h : Presentable token) :
    http.accepts (ownHeader token) = true ∧
      requireToken http (some token) [http.carried (ownHeader token)] = .ok () := by
  have hvisible : (ownHeader token).all visible = true := by
    refine all_visible.mpr fun c hc => ?_
    rcases List.mem_append.mp hc with hc | hc
    · exact all_visible.mp (by decide : (Text.utf8Bytes "Bearer ".toList).all visible = true) c hc
    · exact h.visible c hc
  have htrimmed : trimmed (ownHeader token) = ownHeader token := by
    refine trimmed_eq_self (fun b hb => ?_) (fun b hb => ?_)
    · cases hb
      decide
    · obtain ⟨c, hc, hblank⟩ := h.last
      have hvis := h.visible c (List.mem_of_mem_getLast? hc)
      have hlast : ("Bearer ".toList ++ token).getLast? = some c := by
        rw [List.getLast?_append, Option.mem_def.mp hc]
        rfl
      rw [ownHeader, getLast?_utf8Bytes hlast (by rw [visibleChar_iff] at hvis; omega)] at hb
      cases hb
      exact Bool.eq_false_iff.mpr fun hb => hblank ((blank_ofNat hvis).mp hb)
  refine ⟨hhttp.accepts _ hvisible,
    requireToken_ok.mpr ⟨_, rfl, "Bearer ".toList ++ token, ?_, ?_⟩⟩
  · rw [hhttp.toStr, hhttp.carried, htrimmed]
    exact ⟨rfl, hvisible⟩
  · refine bearer_eq_some.mpr ⟨"Bearer".toList, [], rfl, rfl, ?_, fun c hc => ?_⟩
    · intro c hc
      cases hc
    · obtain ⟨c', hc', hblank⟩ := h.first
      obtain rfl : c = c' := Option.some.inj (hc.symm.trans hc')
      have hvis := h.visible c (List.mem_of_mem_head? hc)
      exact Bool.eq_false_iff.mpr fun hwhite => hblank ((isWhitespace_visible hvis).mp hwhite)

/-- What is let through after HTTP has carried it has a token that HTTP can
carry. -/
theorem presentable_of_ok (hhttp : http.Lawful) {sent : List UInt8}
    (h : requireToken http (some token) [http.carried sent] = .ok ()) : Presentable token := by
  obtain ⟨value, hvalue, ⟨scheme, blanks, heq, -, hblanks⟩, hvisible, hfirst⟩ :=
    admitted_bears hhttp h
  cases hvalue
  rw [hhttp.carried] at heq
  -- the last character is no blank, so it is one of the token's
  have hlast : ∀ c ∈ (' ' :: (blanks ++ token)).getLast?, VisibleChar c → ¬ BlankChar c := by
    intro c hc hvis hblank
    have hall : (scheme ++ ' ' :: (blanks ++ token)).getLast? = some c := by
      rw [List.getLast?_append, Option.mem_def.mp hc]
      rfl
    have hbyte : UInt8.ofNat c.toNat ∈ (trimmed sent).getLast? := by
      rw [heq]
      exact getLast?_utf8Bytes hall (by rw [visibleChar_iff] at hvis; omega)
    exact Bool.eq_false_iff.mp (getLast?_trimmed hbyte) ((blank_ofNat hvis).mpr hblank)
  cases htoken : token.getLast? with
  | none =>
      obtain ⟨c, hc⟩ : ∃ c, (' ' :: (blanks ++ token)).getLast? = some c :=
        ⟨_, List.getLast?_eq_some_getLast (List.cons_ne_nil _ _)⟩
      have hblank : BlankChar c := by
        have hmem := List.mem_of_mem_getLast? hc
        rw [List.getLast?_eq_none_iff.mp htoken, List.append_nil] at hmem
        rcases List.mem_cons.mp hmem with rfl | hmem
        · exact .inl rfl
        · exact hblanks c hmem
      have hvis : VisibleChar c := by
        rw [blankChar_iff] at hblank
        rw [visibleChar_iff]
        omega
      exact absurd hblank (hlast c hc hvis)
  | some c =>
      have hc : c ∈ token := List.mem_of_mem_getLast? htoken
      have hne : ¬ BlankChar c := by
        refine hlast c ?_ (hvisible c hc)
        rw [List.getLast?_cons, List.getLast?_append, htoken]
        rfl
      refine ⟨hvisible, ?_, c, htoken, hne⟩
      cases token with
      | nil => cases hc
      | cons c' token => exact ⟨c', rfl, hfirst c' rfl⟩

theorem authed_saved {args : CommandLine.ConnectArgs} (htoken : args.token = some token)
    (endpoint : String) (pid : UInt32) (remote : String) (username : Option String)
    (startedAt : String) :
    (Client.forSession (savedState args endpoint pid remote username startedAt)).authed http =
      if http.accepts (ownHeader token) = true then .ok [ownHeader token]
      else .error (.failure s!"could not reach the bolide server at {endpoint}: builder error") := by
  simp only [Client.authed, Client.forSession, savedState, htoken, Option.map_some,
    String.toList_ofList]
  rfl

/-- A request without the token is refused, whatever the token. -/
theorem requireToken_others (hhttp : http.Lawful) {headers : List (List UInt8)}
    (h : ∀ value ∈ headers.head?, ¬ Bears token value) :
    requireToken http (some token) headers = .error unauthorized := by
  refine requireToken_refuses fun hok => ?_
  obtain ⟨value, hvalue, hbears, -⟩ := admitted_bears hhttp hok
  exact h value hvalue hbears

theorem presentable_of_gate (hhttp : http.Lawful) {args : CommandLine.ConnectArgs}
    (htoken : args.token = some token) {endpoint : String} {pid : UInt32} {remote : String}
    {username : Option String} {startedAt : String}
    (h : Gate http args (savedState args endpoint pid remote username startedAt) token) :
    Presentable token := by
  obtain ⟨headers, hauthed, hok⟩ := h.holder
  rw [authed_saved htoken] at hauthed
  split at hauthed
  · cases hauthed
    rw [htoken] at hok
    exact presentable_of_ok hhttp hok
  · cases hauthed

/-- **The token gate admits exactly the token's holder, when HTTP can carry
the token.** -/
theorem gate_iff (http : Http) (hhttp : http.Lawful) (args : CommandLine.ConnectArgs) (token : Text)
    (htoken : args.token = some token) (endpoint : String) (pid : UInt32) (remote : String)
    (username : Option String) (startedAt : String) :
    Gate http args (savedState args endpoint pid remote username startedAt) token ↔
      Presentable token := by
  constructor
  · exact presentable_of_gate hhttp htoken
  · intro h
    obtain ⟨haccepts, hok⟩ := requireToken_carried hhttp h
    refine ⟨⟨[ownHeader token], ?_, ?_⟩, fun headers hothers => ?_⟩
    · rw [authed_saved htoken, if_pos haccepts]
    · rw [htoken]
      exact hok
    · rw [htoken]
      exact requireToken_others hhttp hothers

/-- A token with a blank inside. -/
theorem gate_iff_inside : Http.crate.Lawful ∧ ∃ args : CommandLine.ConnectArgs,
    args.token = some "s3cret token".toList ∧
      Gate Http.crate args (savedState args "http://127.0.0.1:53211" 40122 "mac.local:5900" none
        "2026-09-15T22:41:03Z") "s3cret token".toList := by
  refine ⟨lawful_crate,
    { CommandLine.ConnectArgs.defaults with token := some "s3cret token".toList }, rfl, ?_⟩
  refine (gate_iff Http.crate lawful_crate _ _ rfl _ _ _ _ _).mpr ⟨?_, ?_, ?_⟩
  · exact all_visible.mp (by decide)
  · exact ⟨'s', rfl, by decide⟩
  · exact ⟨'n', rfl, by decide⟩

/-- The holder of a token with a space at its end is locked out. -/
theorem not_gate_trailing : ¬ ∃ http : Http, http.Lawful ∧
    Gate http { CommandLine.ConnectArgs.defaults with token := some "s3cret ".toList }
      (savedState { CommandLine.ConnectArgs.defaults with token := some "s3cret ".toList }
        "http://127.0.0.1:53211" 40122 "mac.local:5900" none "2026-09-15T22:41:03Z")
      "s3cret ".toList := by
  rintro ⟨http, hhttp, hgate⟩
  obtain ⟨c, hc, hblank⟩ := (presentable_of_gate hhttp rfl hgate).last
  cases hc
  exact hblank (.inl rfl)

end Carried

end Bolide.Cli
