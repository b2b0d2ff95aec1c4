/-
Bolide.Cli.Target — what `connect` is pointed at (`bolide-cli/src/cli.rs`).

`parseTarget` takes `vnc://[user[:password]@]host[:port]` apart, and
`Target.display` writes the host and the port.

Translation notes. A string is the list of its characters, and `%XX` escapes
are decoded to bytes, which have to be UTF-8. An escape is of two characters
of one byte each: two bytes that are one character are no number, nor are two
that are parts of characters.
-/
import Bolide.Cli.Release

namespace Bolide.Cli.CommandLine

open Lib Release

/-! ## `percent_decode` -/

/-- The bytes of a string whose escapes are decoded. -/
def percentBytes : Text → Option (List UInt8)
  | [] => some []
  | '%' :: a :: b :: s => do
      let n ← Text.fromStrRadix 16 256 [a, b]
      let bytes ← percentBytes s
      return UInt8.ofNat n :: bytes
  | '%' :: _ => none
  | c :: s => do
      let bytes ← percentBytes s
      return String.utf8EncodeChar c ++ bytes

/-- `percent_decode`. -/
def percentDecode (s : Text) : Option Text := do
  let bytes ← percentBytes s
  let chars ← (ByteArray.mk bytes.toArray).utf8Decode?
  return chars.toList

/-! ## Targets -/

/-- A parsed connection target. -/
structure Target where
  host : Text
  port : UInt16
  username : Option Text
  password : Option Text
  deriving DecidableEq

/-- `Target`'s `Display`. -/
def Target.display (target : Target) : Text :=
  if ':' ∈ target.host then '[' :: target.host ++ ']' :: ':' :: Nat.toDigits 10 target.port.toNat
  else target.host ++ ':' :: Nat.toDigits 10 target.port.toNat

def defaultPort : UInt16 := 5900

/-- `parse_port`. -/
def parsePort (s : Text) : Except String UInt16 :=
  match Text.parseUnsigned 65536 s with
  | none => .error s!"{debug s} is not a TCP port (1–65535)"
  | some p => if p = 0 then .error "port 0 is not a desktop" else .ok (UInt16.ofNat p)

/-- `split_host_port`. -/
def splitHostPort (rest : Text) : Except String (Text × UInt16) :=
  match ['['].isPrefixOf? rest with
  | some afterBracket =>
      match Text.splitOnce [']'] afterBracket with
      | none => .error s!"unterminated IPv6 literal in {debug rest}"
      | some (host, []) => .ok (host, defaultPort)
      | some (host, tail) =>
          match [':'].isPrefixOf? tail with
          | some port => (parsePort port).map (fun port => (host, port))
          | none => .error s!"{debug tail} is not a port; expected vnc://[HOST]:PORT"
  | none =>
      match Text.rsplitOnce [':'] rest with
      | none => .ok (rest, defaultPort)
      | some (host, port) =>
          -- an unbracketed IPv6 literal: the colons are the address, not a port
          if ':' ∈ host then .ok (rest, defaultPort)
          else (parsePort port).map (fun port => (host, port))

/-- What comes after the scheme. -/
def afterScheme (s : Text) : Except String Text :=
  match Text.splitOnce "://".toList s with
  | none => .ok s
  | some (scheme, rest) =>
      if scheme.map Char.toLower = "vnc".toList then .ok rest
      else .error ("bolide speaks RFB, so the target must be vnc://HOST[:PORT]; " ++
        s!"{String.ofList scheme}:// is something else")

/-- A percent-escaped part of the credentials. -/
def decoded (s : Text) : Except String Text :=
  match percentDecode s with
  | some s => .ok s
  | none => .error ("the credentials in the target have a malformed %-escape (write a literal " ++
      "% as %25)")

/-- A part that may be missing. -/
def decodedOption : Option Text → Except String (Option Text)
  | none => .ok none
  | some s => (decoded s).map some

/-- The username and the password of a target. -/
def credentialsOf : Option Text → Except String (Option Text × Option Text)
  | none => .ok (none, none)
  | some userinfo => do
      let (user, pass) := match Text.splitOnce [':'] userinfo with
        | some (user, pass) => (user, some pass)
        | none => (userinfo, none)
      let user ← decoded user
      let pass ← decodedOption pass
      return ((some user).filter (fun u => u ≠ []), pass.filter (fun p => p ≠ []))

/-- The userinfo and what comes after it: the last `@` ends it. -/
def splitUserinfo (rest : Text) : Option Text × Text :=
  match Text.rsplitOnce ['@'] rest with
  | some (userinfo, hostport) => (some userinfo, hostport)
  | none => (none, rest)

/-- The target with this userinfo, and this host and port. -/
def targetOf (userinfo : Option Text) (rest : Text) : Except String Target :=
  if userinfo.isSome = true ∧ rest = [] then
    .error "no host after the credentials; expected vnc://[USER[:PASSWORD]@]HOST[:PORT]"
  else do
    let (username, password) ← credentialsOf userinfo
    let (host, port) ← splitHostPort rest
    if host = [] then .error "no host in the target; expected vnc://HOST[:PORT]"
    else return ⟨host, port, username, password⟩

/-- `parse_target`. -/
def parseTarget (s : Text) : Except String Target :=
  let s := s.trim
  if s = [] then .error "no desktop given; expected vnc://HOST[:PORT]"
  else do
    let rest ← afterScheme s
    let (userinfo, rest) := splitUserinfo (Text.trimEnd (fun c => c = '/') rest)
    targetOf userinfo rest

/-! ## What is parsed -/

theorem parsePort_ne_zero {s : Text} {port : UInt16} (h : parsePort s = .ok port) : port ≠ 0 := by
  unfold parsePort at h
  split at h
  · cases h
  · next p hp =>
      split at h
      · cases h
      · next hne =>
          have hlt : p < 65536 := by
            simp only [Text.parseUnsigned, Text.fromStrRadix, Option.ite_none_left_eq_some,
              Option.filter_eq_some_iff, decide_eq_true_eq] at hp
            exact hp.2.2
          rw [← Except.ok.inj h]
          intro hzero
          have hnat := congrArg UInt16.toNat hzero
          simp only [UInt16.toNat_ofNat', UInt16.toNat_zero] at hnat
          omega

/-- A port that is written is read back. -/
theorem parsePort_toDigits {port : UInt16} (h : port ≠ 0) :
    parsePort (Nat.toDigits 10 port.toNat) = .ok port := by
  have hne : port.toNat ≠ 0 := fun hzero => h (UInt16.toNat_inj.mp hzero)
  rw [parsePort, Text.parseUnsigned_toDigits port.toNat_lt]
  simp [hne]

/-- What `split_host_port` says of a host. -/
structure SplitHost (rest host : Text) : Prop where
  within : ∀ c ∈ host, c ∈ rest
  bracket : host.head? = some '[' → ']' ∉ host

theorem splitHostPort_host {rest host : Text} {port : UInt16}
    (h : splitHostPort rest = .ok (host, port)) : SplitHost rest host ∧ port ≠ 0 := by
  have hport : ∀ {text host' : Text},
      (parsePort text).map (fun port => (host', port)) = .ok (host, port) →
        host' = host ∧ port ≠ 0 := by
    intro text host' hmap
    cases hparse : parsePort text with
    | error e => rw [hparse] at hmap; cases hmap
    | ok p =>
        rw [hparse] at hmap
        cases hmap
        exact ⟨rfl, parsePort_ne_zero hparse⟩
  unfold splitHostPort at h
  split at h
  · next afterBracket hbracket =>
      have hrest : ∀ c ∈ afterBracket, c ∈ rest := by
        cases rest with
        | nil => cases hbracket
        | cons c rest =>
            simp only [List.isPrefixOf?, Option.ite_none_right_eq_some,
              Option.some.injEq] at hbracket
            rw [← hbracket.2]
            exact fun _ => List.mem_cons_of_mem _
      have hhost : ∀ {before tail}, Text.splitOnce [']'] afterBracket = some (before, tail) →
          SplitHost rest before := by
        intro before tail hsplit
        obtain ⟨rfl, hnot⟩ := Text.splitOnce_eq_some hsplit
        exact ⟨fun c hc => hrest c (List.mem_append_left _ hc), fun _ => hnot⟩
      split at h
      · cases h
      · next hsplit =>
          cases h
          exact ⟨hhost hsplit, by decide⟩
      · next hsplit =>
          split at h
          · obtain ⟨rfl, hne⟩ := hport h
            exact ⟨hhost hsplit, hne⟩
          · cases h
  · next hbracket =>
      have hhead : ∀ {before : Text}, before <+: rest → before.head? ≠ some '[' := by
        rintro before ⟨after, rfl⟩ hhead
        cases before with
        | nil => cases hhead
        | cons c before =>
            cases hhead
            simp [List.isPrefixOf?] at hbracket
      have hwhole : SplitHost rest rest :=
        ⟨fun _ => id, fun hopen => absurd hopen (hhead (List.prefix_refl _))⟩
      split at h
      · cases h
        exact ⟨hwhole, by decide⟩
      · next before text hsplit =>
          split at h
          · cases h
            exact ⟨hwhole, by decide⟩
          · obtain ⟨rfl, hne⟩ := hport h
            obtain ⟨rfl, -⟩ := Text.rsplitOnce_eq_some hsplit
            exact ⟨⟨fun c hc => List.mem_append_left _ hc,
              fun hopen => absurd hopen (hhead ⟨_, rfl⟩)⟩, hne⟩

/-- What a target is that has been parsed. -/
structure Parsed (target : Target) : Prop where
  named : target.host ≠ []
  unsigned : '@' ∉ target.host
  bracket : target.host.head? = some '[' → ']' ∉ target.host
  port : target.port ≠ 0
  password : target.password ≠ some []

theorem ok_bind {α β : Type} {x : Except String α} {f : α → Except String β} {b : β}
    (h : x >>= f = .ok b) : ∃ a, x = .ok a ∧ f a = .ok b := by
  cases x with
  | error e => cases h
  | ok a => exact ⟨a, rfl, h⟩

theorem credentialsOf_password {userinfo : Option Text} {credentials : Option Text × Option Text}
    (h : credentialsOf userinfo = .ok credentials) : credentials.2 ≠ some [] := by
  cases userinfo with
  | none =>
      cases h
      simp
  | some userinfo =>
      obtain ⟨user, -, h⟩ := ok_bind h
      obtain ⟨pass, -, h⟩ := ok_bind h
      rw [← Except.ok.inj h]
      simp [Option.filter_eq_some_iff]

theorem not_mem_splitUserinfo (rest : Text) : '@' ∉ (splitUserinfo rest).2 := by
  unfold splitUserinfo
  split
  · next hsplit => exact (Text.rsplitOnce_eq_some hsplit).2
  · next hsplit => exact Text.not_mem_of_rsplitOnce hsplit

theorem parseTarget_parsed {s : Text} {target : Target} (h : parseTarget s = .ok target) :
    Parsed target := by
  unfold parseTarget at h
  simp only at h
  split at h
  · cases h
  · obtain ⟨rest, -, h⟩ := ok_bind h
    have hunsigned := not_mem_splitUserinfo (Text.trimEnd (fun c => c = '/') rest)
    unfold targetOf at h
    split at h
    · cases h
    · obtain ⟨credentials, hcredentials, h⟩ := ok_bind h
      obtain ⟨⟨host, port⟩, hsplit, h⟩ := ok_bind h
      obtain ⟨hhost, hport⟩ := splitHostPort_host hsplit
      simp only at h
      split at h
      · cases h
      · next hne =>
        rw [← Except.ok.inj h]
        exact ⟨hne, fun hmem => hunsigned (hhost.within _ hmem), hhost.bracket, hport,
          credentialsOf_password hcredentials⟩

/-! ## What is written -/

/-- A host that is read back where a port comes after it. -/
def plainHost (host : Text) : Bool :=
  if ':' ∈ host then ']' ∉ host else host.head? ≠ some '['

theorem digit_not_mem {c : Char} (hc : Text.toDigit 10 c = none) (n : Nat) :
    c ∉ Nat.toDigits 10 n := by
  intro hmem
  have hsome := Text.isSome_toDigit (by decide) (by decide) hmem
  rw [hc] at hsome
  cases hsome

theorem parsePort_bracket {s : Text} (h : ']' ∈ s) : ∃ e, parsePort s = .error e := by
  rw [parsePort, Text.parseUnsigned, Text.fromStrRadix_eq_none h (by decide) (by decide)]
  exact ⟨_, rfl⟩

/-- A bracket in an address with colons ends it too early. -/
theorem splitHostPort_bracket {host : Text} {rest : Text} (h : ']' ∈ host) :
    ∃ e, splitHostPort ('[' :: host ++ ']' :: rest) = .error e := by
  obtain ⟨before, after, rfl, hbefore⟩ := List.eq_append_cons_of_mem h
  have hsplit : Text.splitOnce [']'] (before ++ ']' :: after ++ ']' :: rest) =
      some (before, after ++ ']' :: rest) := by
    rw [List.append_assoc, List.cons_append, Text.splitOnce_append hbefore]
  have hport : ∀ port, [':'].isPrefixOf? (after ++ ']' :: rest) = some port → ']' ∈ port := by
    intro port hprefix
    cases after with
    | nil => simp [List.isPrefixOf?] at hprefix
    | cons c after =>
        simp only [List.cons_append, List.isPrefixOf?, Option.ite_none_right_eq_some,
          Option.some.injEq] at hprefix
        rw [← hprefix.2]
        simp
  simp only [splitHostPort, List.cons_append, List.isPrefixOf?, beq_self_eq_true, if_true, hsplit]
  cases htail : after ++ ']' :: rest with
  | nil => simp at htail
  | cons c tail =>
      simp only
      split
      · next port hprefix =>
          obtain ⟨e, he⟩ := parsePort_bracket (hport port (htail ▸ hprefix))
          rw [he]
          exact ⟨e, rfl⟩
      · exact ⟨_, rfl⟩

theorem splitHostPort_display {target : Target} (h : Parsed target) :
    if plainHost target.host = true then
      splitHostPort target.display = .ok (target.host, target.port)
    else ∃ e, splitHostPort target.display = .error e := by
  have hport := parsePort_toDigits h.port
  unfold plainHost Target.display
  by_cases hcolon : ':' ∈ target.host
  · simp only [hcolon, if_true, decide_eq_true_eq, ite_not]
    split
    · next hbracket => exact splitHostPort_bracket hbracket
    · next hbracket =>
        simp [splitHostPort, List.isPrefixOf?, Text.splitOnce_append hbracket, hport, Except.map]
  · simp only [hcolon, if_false, decide_eq_true_eq]
    split
    · next hhead =>
        have hprefix : ['['].isPrefixOf? (target.host ++ ':' :: Nat.toDigits 10 target.port.toNat) =
            none := by
          cases hhost : target.host with
          | nil => simp [List.isPrefixOf?]
          | cons c host =>
              have hc : ¬ '[' = c := fun heq => hhead (by rw [hhost, heq]; rfl)
              simp [List.isPrefixOf?, hc]
        have hdigits : ':' ∉ Nat.toDigits 10 target.port.toNat := digit_not_mem (by decide) _
        simp [splitHostPort, hprefix, Text.rsplitOnce_append _ hdigits, hcolon, hport, Except.map]
    · next hhead =>
        have hhead := not_not.mp hhead
        have hbracket := h.bracket hhead
        cases hhost : target.host with
        | nil => rw [hhost] at hhead; cases hhead
        | cons c host =>
            rw [hhost] at hhead hbracket
            cases hhead
            have hnone : Text.splitOnce [']'] (host ++ ':' :: Nat.toDigits 10 target.port.toNat) =
                none := by
              refine Text.splitOnce_eq_none ?_
              simp only [List.mem_append, List.mem_cons, not_or]
              exact ⟨fun hmem => hbracket (List.mem_cons_of_mem _ hmem), by decide,
                digit_not_mem (by decide) _⟩
            simp [splitHostPort, List.isPrefixOf?, hnone]

theorem getLast?_display (target : Target) :
    target.display.getLast? = (Nat.toDigits 10 target.port.toNat).getLast? := by
  unfold Target.display
  split
  · rw [List.getLast?_append_of_ne_nil _ (by simp), List.getLast?_cons_cons,
      List.getLast?_cons_of_ne_nil Nat.toDigits_ne_nil]
  · rw [List.getLast?_append_of_ne_nil _ (by simp),
      List.getLast?_cons_of_ne_nil Nat.toDigits_ne_nil]

/-- What a target ends with is a digit. -/
theorem digit_of_getLast? {target : Target} {c : Char} (h : c ∈ target.display.getLast?) :
    (Text.toDigit 10 c).isSome := by
  rw [getLast?_display] at h
  exact Text.isSome_toDigit (by decide) (by decide) (List.mem_of_getLast? h)

theorem not_mem_display {target : Target} (h : Parsed target) : '@' ∉ target.display := by
  have hdigits : '@' ∉ Nat.toDigits 10 target.port.toNat := digit_not_mem (by decide) _
  unfold Target.display
  split <;> simp [h.unsigned, hdigits]

/-- What comes after the scheme is taken apart, if it ends with neither a space nor a slash. -/
theorem parseTarget_vnc {rest : Text} (hne : rest ≠ [])
    (hlast : ∀ c ∈ rest.getLast?, Text.isWhitespace c = false ∧ c ≠ '/') :
    parseTarget ("vnc://".toList ++ rest) =
      targetOf (splitUserinfo rest).1 (splitUserinfo rest).2 := by
  have hend : ("vnc://".toList ++ rest).getLast? = rest.getLast? :=
    List.getLast?_append_of_ne_nil _ hne
  have htrim : Text.trim ("vnc://".toList ++ rest) = "vnc://".toList ++ rest := by
    have hstart : ("vnc://".toList ++ rest).dropWhile Text.isWhitespace =
        "vnc://".toList ++ rest := rfl
    rw [Text.trim, hstart]
    exact Text.trimEnd_eq_self fun c hc => (hlast c (hend ▸ hc)).1
  have hscheme : afterScheme ("vnc://".toList ++ rest) = .ok rest := by
    have hsplit : Text.splitOnce "://".toList ("vnc://".toList ++ rest) =
        some ("vnc".toList, rest) := by
      simp [Text.splitOnce, List.isPrefixOf?]
    rw [afterScheme, hsplit]
    rfl
  have hslash : Text.trimEnd (fun c => c = '/') rest = rest :=
    Text.trimEnd_eq_self fun c hc => decide_eq_false (hlast c hc).2
  have hnil : "vnc://".toList ++ rest ≠ [] := by simp
  rw [parseTarget]
  simp only [htrim, hnil, if_false, hscheme]
  show targetOf (splitUserinfo (Text.trimEnd _ rest)).1 (splitUserinfo (Text.trimEnd _ rest)).2 = _
  rw [hslash]

/-- The target a child is given is read back, or refused. -/
theorem parseTarget_display {target : Target} (h : Parsed target) :
    if plainHost target.host = true then
      parseTarget ("vnc://".toList ++ target.display) =
        .ok ⟨target.host, target.port, none, none⟩
    else ∃ e, parseTarget ("vnc://".toList ++ target.display) = .error e := by
  have hne : target.display ≠ [] := by
    unfold Target.display
    split <;> simp
  have hlast : ∀ c ∈ target.display.getLast?, Text.isWhitespace c = false ∧ c ≠ '/' := by
    intro c hc
    have hdigit := digit_of_getLast? hc
    refine ⟨Text.isWhitespace_digit hdigit, ?_⟩
    rintro rfl
    exact absurd hdigit (by decide)
  have huser : splitUserinfo target.display = (none, target.display) := by
    rw [splitUserinfo, Text.rsplitOnce_eq_none (not_mem_display h)]
  have hparse : parseTarget ("vnc://".toList ++ target.display) =
      (splitHostPort target.display).bind (fun split =>
        if split.1 = [] then .error "no host in the target; expected vnc://HOST[:PORT]"
        else .ok ⟨split.1, split.2, none, none⟩) := by
    rw [parseTarget_vnc hne hlast, huser]
    rfl
  have hsplit := splitHostPort_display h
  rw [hparse]
  split at hsplit
  · next hplain => simp [hplain, hsplit, Except.bind, h.named]
  · next hplain =>
      obtain ⟨e, he⟩ := hsplit
      simp [hplain, he, Except.bind]

end Bolide.Cli.CommandLine
