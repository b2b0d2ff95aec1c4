/-
Bolide.Cli.RedactTheorems — what a message shows of a password after `redact_password`.

A pass cuts a text (`replaceWhole_cut`), and for a `Clean` secret no part
that it leaves has a whole occurrence. The passes after it leave none whole
where they `Spare` it. Of a secret that is not clean some message keeps a
whole occurrence, whatever the number of passes.
-/
import Bolide.Cli.Redact

namespace Bolide.Cli.Redact

open Lib CommandLine

section Passes

variable {alphanumeric : Alphanumeric} {secret other : Secret}

/-! ## One pass -/

theorem replaceFrom_of_none {out rest : Text}
    (h : ∀ before after, rest ≠ before ++ secret.1 ++ after) :
    replaceFrom alphanumeric secret out rest = out ++ rest := by
  rw [replaceFrom]
  split
  · rfl
  · next hsplit => exact absurd (Text.first_of_splitOnce hsplit).eq (h _ _)

theorem replaceFrom_of_first {out rest skipped after : Text}
    (h : First secret.1 skipped after rest) :
    replaceFrom alphanumeric secret out rest =
      replaceFrom alphanumeric secret
        (out ++ skipped ++
          if alphanumeric.isWord (out ++ skipped).getLast? || alphanumeric.isWord after.head? then
            secret.1
          else marker)
        after := by
  rw [replaceFrom]
  split
  · next hsplit => exact absurd h.eq (Text.splitOnce_eq_none_iff.mp hsplit _ _)
  · next hsplit =>
      rw [Text.splitOnce_of_first h] at hsplit
      cases hsplit
      rw [List.getLast?_append]

theorem edge_marker : Edge alphanumeric.is marker.getLast? :=
  alphanumeric.ascii '>' (by decide)

/-- The loop cuts what is left. What it has written ends with a mark, and then with what it has
read since. -/
theorem replaceFrom_cut {out rest written read : Text} (hout : out = written ++ read)
    (hwritten : Edge alphanumeric.is written.getLast?)
    (hdead : Clean alphanumeric.is secret.1 → Dead alphanumeric.is secret.1 read rest) :
    ∃ text, replaceFrom alphanumeric secret out rest = written ++ text ∧
      Cut alphanumeric.is secret.1 marker
        (fun part => Clean alphanumeric.is secret.1 → ¬ Whole alphanumeric.is secret.1 part)
        (read ++ rest) text := by
  induction hn : rest.length using Nat.strongRecOn generalizing out rest written read with
  | ind n ih =>
  cases hsplit : Text.splitOnce secret.1 rest with
  | none =>
      have hnone := Text.splitOnce_eq_none_iff.mp hsplit
      refine ⟨read ++ rest, ?_, .rest fun hclean => (hdead hclean).not_whole hnone⟩
      rw [replaceFrom_of_none hnone, hout, List.append_assoc]
  | some parts =>
      obtain ⟨skipped, after⟩ := parts
      have hfirst := Text.first_of_splitOnce hsplit
      have hlt : after.length < n := hn ▸ splitOnce_length secret.2 hsplit
      rw [replaceFrom_of_first hfirst, hout, List.append_assoc written]
      split
      · next hkeep =>
          have hkeep' : Edge alphanumeric.is (read ++ skipped).getLast? →
              ¬ Edge alphanumeric.is after.head? := by
            intro hedge hnext
            rw [Alphanumeric.isWord, hwritten.append hedge, Alphanumeric.isWord, hnext] at hkeep
            cases hkeep
          have hout' : written ++ (read ++ skipped) ++ secret.1 =
              written ++ (read ++ skipped ++ secret.1) := List.append_assoc _ _ _
          obtain ⟨text, htext, hcut⟩ := ih after.length hlt hout' hwritten
            (fun hclean => (hdead hclean).keep hclean hfirst hkeep') rfl
          refine ⟨text, htext, ?_⟩
          rw [hfirst.eq]
          simpa using hcut
      · next hcut =>
          rw [Bool.or_eq_true, not_or] at hcut
          have hbefore : Edge alphanumeric.is (read ++ skipped).getLast? :=
            Edge.getLast?_append (Bool.eq_false_of_not_eq_true hcut.1)
          have hout' : written ++ (read ++ skipped) ++ marker =
              written ++ (read ++ skipped) ++ marker ++ [] := (List.append_nil _).symm
          obtain ⟨text, htext, hcut'⟩ := ih after.length hlt hout'
            (Edge.append_of_ne_nil (by decide) edge_marker) (fun _ => dead_nil after) rfl
          have htext' : replaceFrom alphanumeric secret (written ++ (read ++ skipped) ++ marker)
              after = written ++ (read ++ skipped ++ marker ++ text) := by
            rw [htext]
            simp only [List.append_assoc]
          refine ⟨read ++ skipped ++ marker ++ text, htext', ?_⟩
          rw [hfirst.eq, ← List.append_assoc, ← List.append_assoc]
          exact .cut (fun hclean => (hdead hclean).part secret.2 hclean hfirst hbefore) hbefore
            (Bool.eq_false_of_not_eq_true hcut.2) hcut'

variable (alphanumeric) in
theorem replaceWhole_cut (secret : Secret) (haystack : Text) :
    Cut alphanumeric.is secret.1 marker
      (fun part => Clean alphanumeric.is secret.1 → ¬ Whole alphanumeric.is secret.1 part)
      haystack (replaceWhole alphanumeric haystack secret) := by
  have hdead : Clean alphanumeric.is secret.1 → Dead alphanumeric.is secret.1 [] haystack :=
    fun _ => dead_nil haystack
  have hout : ([] : Text) = [] ++ [] := rfl
  obtain ⟨text, htext, hcut⟩ := replaceFrom_cut hout edge_none hdead
  rw [replaceWhole, htext]
  exact hcut

/-- A pass cuts out every whole occurrence of a clean secret. -/
theorem not_whole_replaceWhole (hclean : Clean alphanumeric.is secret.1)
    (hmarker : ∀ c ∈ secret.1, c ∉ marker) (haystack : Text) :
    ¬ Whole alphanumeric.is secret.1 (replaceWhole alphanumeric haystack secret) := by
  have hcut := (replaceWhole_cut alphanumeric secret haystack).mono fun _ hpart => hpart hclean
  exact hcut.not_whole secret.2 (by decide) hmarker

/-- What is not there does not come back. -/
theorem replaceWhole_spares (hspares : Spares alphanumeric.is other.1 secret.1)
    (hmarker : ∀ c ∈ secret.1, c ∉ marker) {haystack : Text}
    (hnot : ¬ Whole alphanumeric.is secret.1 haystack) :
    ¬ Whole alphanumeric.is secret.1 (replaceWhole alphanumeric haystack other) := by
  have hcut := (replaceWhole_cut alphanumeric other haystack).mono (Q := fun _ => True)
    fun _ _ => trivial
  have hgone : Gone alphanumeric.is other.1 [] haystack := .inl rfl
  exact (hcut.spares other.2 secret.2 hspares hgone hnot).not_whole secret.2 (by decide) hmarker

/-! ## All passes -/

/-- A clean secret, and no later pass uncovers it. -/
structure Covered (alphanumeric : Alphanumeric) (argv : List Text) (secret : Secret) : Prop where
  clean : Clean alphanumeric.is secret.1
  spared : ∃ sooner later, secrets argv = sooner ++ secret :: later ∧
    ∀ other ∈ later, Spares alphanumeric.is other.1 secret.1

/-- The secret is covered, or another one is that stands whole in it. -/
def Hidden (alphanumeric : Alphanumeric) (argv : List Text) (secret : Secret) : Prop :=
  ∃ part, Covered alphanumeric argv part ∧ Whole alphanumeric.is part.1 secret.1

theorem foldl_spares {later : List Secret}
    (hspares : ∀ other ∈ later, Spares alphanumeric.is other.1 secret.1)
    (hmarker : ∀ c ∈ secret.1, c ∉ marker) {message : Text}
    (hnot : ¬ Whole alphanumeric.is secret.1 message) :
    ¬ Whole alphanumeric.is secret.1 (later.foldl (replaceWhole alphanumeric) message) := by
  induction later generalizing message with
  | nil => exact hnot
  | cons other later ih =>
      exact ih (fun other hmem => hspares other (List.mem_cons_of_mem _ hmem))
        (replaceWhole_spares (hspares other List.mem_cons_self) hmarker hnot)

theorem redactPassword_covered {argv : List Text} (h : Covered alphanumeric argv secret)
    (hmarker : ∀ c ∈ secret.1, c ∉ marker) (message : Text) :
    ¬ Whole alphanumeric.is secret.1 (redactPassword alphanumeric message argv) := by
  obtain ⟨sooner, later, heq, hspares⟩ := h.spared
  rw [redactPassword, heq, List.foldl_append, List.foldl_cons]
  exact foldl_spares hspares hmarker (not_whole_replaceWhole h.clean hmarker _)

/-- Where a secret would show, the part of it would that does not. -/
theorem redactPassword_hidden {argv : List Text} (h : Hidden alphanumeric argv secret)
    (hmarker : ∀ c ∈ secret.1, c ∉ marker) (message : Text) :
    ¬ Whole alphanumeric.is secret.1 (redactPassword alphanumeric message argv) := by
  obtain ⟨part, hcovered, hpart⟩ := h
  have hmem : ∀ c ∈ part.1, c ∈ secret.1 := by
    obtain ⟨before, after, hsecret, -, -⟩ := hpart
    intro c hc
    rw [hsecret]
    simp [hc]
  intro hwhole
  exact redactPassword_covered hcovered (fun c hc => hmarker c (hmem c hc)) message
    (hpart.trans hwhole)

/-- What a parse error says is redacted, whatever its kind. -/
theorem fromClap_hidden {argv : List Text} (h : Hidden alphanumeric argv secret)
    (hmarker : ∀ c ∈ secret.1, c ∉ marker) (kind : ErrorKind) (rendered : Text) :
    ¬ Whole alphanumeric.is secret.1
      (fromClap alphanumeric kind rendered argv).message.toList := by
  have hmessage : (fromClap alphanumeric kind rendered argv).message = String.ofList
      (redactPassword alphanumeric (Text.trimEnd Text.isWhitespace rendered) argv) := by
    cases kind <;> rfl
  rw [hmessage, String.toList_ofList]
  exact redactPassword_hidden h hmarker _

/-! ## Secrets that are not clean -/

/-- A message with an `r`, the secret, and as much of it again as overlaps it. -/
def overlapping (secret : Secret) (k : Nat) : Text := 'r' :: secret.1.take k ++ secret.1

/-- The scan keeps the first occurrence and is past the second one. -/
theorem replaceWhole_overlapping (hmarker : ∀ c ∈ secret.1, c ∉ marker) {k : Nat}
    (hk : k < secret.1.length) (hborder : secret.1.drop k <+: secret.1) :
    replaceWhole alphanumeric (overlapping secret k) secret = overlapping secret k := by
  obtain ⟨after, hafter⟩ := hborder
  have htext : overlapping secret k = ['r'] ++ secret.1 ++ after := by
    have htake : secret.1.take k ++ secret.1 = secret.1 ++ after :=
      calc secret.1.take k ++ secret.1
          = secret.1.take k ++ (secret.1.drop k ++ after) := by rw [hafter]
        _ = secret.1 ++ after := by rw [← List.append_assoc, List.take_append_drop]
    rw [overlapping, List.cons_append, htake]
    rfl
  have hlength : after.length = k := by
    have hlength := congrArg List.length hafter
    rw [List.length_append, List.length_drop] at hlength
    omega
  have hfirst : First secret.1 ['r'] after (overlapping secret k) := by
    refine ⟨htext, ?_⟩
    intro before' after' heq
    cases before' with
    | cons c before' => simp
    | nil =>
        have hhead : 'r' ∈ secret.1 := by
          cases hsecret : secret.1 with
          | nil => exact absurd hsecret secret.2
          | cons c s =>
              have hc := congrArg List.head? heq
              simp only [overlapping, hsecret, List.cons_append, List.nil_append, List.head?_cons,
                Option.some.injEq] at hc
              rw [hc]
              exact List.mem_cons_self
        exact absurd (by decide) (hmarker 'r' hhead)
  have hnone : ∀ before' after', after ≠ before' ++ secret.1 ++ after' := by
    rintro before' after' heq
    have hlength' := congrArg List.length heq
    simp only [List.length_append] at hlength'
    omega
  have hword : alphanumeric.isWord (some 'r') = true := alphanumeric.ascii 'r' (by decide)
  rw [replaceWhole, replaceFrom_of_first hfirst]
  simp only [List.nil_append, List.getLast?_singleton, hword, Bool.true_or, if_true]
  rw [replaceFrom_of_none hnone, htext]

theorem foldl_overlapping (hmarker : ∀ c ∈ secret.1, c ∉ marker) {k : Nat}
    (hk : k < secret.1.length) (hborder : secret.1.drop k <+: secret.1) {passes : List Secret}
    (hpasses : ∀ other ∈ passes, other = secret) :
    passes.foldl (replaceWhole alphanumeric) (overlapping secret k) = overlapping secret k := by
  induction passes with
  | nil => rfl
  | cons other passes ih =>
      rw [List.foldl_cons, hpasses other List.mem_cons_self,
        replaceWhole_overlapping hmarker hk hborder]
      exact ih fun other hmem => hpasses other (List.mem_cons_of_mem _ hmem)

/-- So many copies of a text. -/
def copies (n : Nat) (s : Text) : Text := (List.replicate n s).flatten

theorem copies_succ (n : Nat) (s : Text) : copies (n + 1) s = s ++ copies n s := by
  rw [copies, List.replicate_succ, List.flatten_cons, copies]

theorem head?_copies_marker (alphanumeric : Alphanumeric) (n : Nat) :
    Edge alphanumeric.is (copies n marker).head? := by
  cases n with
  | zero => exact edge_none
  | succ n =>
      rw [copies_succ]
      exact alphanumeric.ascii '<' (by decide)

theorem mem_copies {n : Nat} {s : Text} {c : Char} (h : c ∈ copies n s) : c ∈ s := by
  obtain ⟨t, ht, hc⟩ := List.mem_flatten.mp h
  rwa [List.eq_of_mem_replicate ht] at hc

/-- The scan keeps every copy but the last. -/
theorem replaceFrom_copies (hmarker : ∀ c ∈ secret.1, c ∉ marker)
    (hhead : ¬ Edge alphanumeric.is secret.1.head?)
    (hlast : Edge alphanumeric.is secret.1.getLast?) (n cut : Nat) {out : Text}
    (hout : Edge alphanumeric.is out.getLast?) :
    replaceFrom alphanumeric secret out (copies (n + 1) secret.1 ++ copies cut marker) =
      out ++ copies n secret.1 ++ copies (cut + 1) marker := by
  induction n generalizing out with
  | zero =>
      have hfirst : First secret.1 [] (copies cut marker)
          (copies 1 secret.1 ++ copies cut marker) :=
        ⟨by simp [copies], fun _ _ _ => Nat.zero_le _⟩
      have hnone : ∀ before after, copies cut marker ≠ before ++ secret.1 ++ after := by
        intro before after heq
        obtain ⟨c, hc⟩ := List.exists_mem_of_ne_nil _ secret.2
        exact hmarker c hc (mem_copies (heq ▸ by simp [hc] : c ∈ copies cut marker))
      have hafter := head?_copies_marker alphanumeric cut
      rw [replaceFrom_of_first hfirst, List.append_nil, Alphanumeric.isWord, hout,
        Alphanumeric.isWord, hafter, replaceFrom_of_none hnone, copies_succ cut]
      simp [copies]
  | succ n ih =>
      have hfirst : First secret.1 [] (copies (n + 1) secret.1 ++ copies cut marker)
          (copies (n + 1 + 1) secret.1 ++ copies cut marker) :=
        ⟨by rw [copies_succ (n + 1)]; simp, fun _ _ _ => Nat.zero_le _⟩
      have hafter : alphanumeric.isWord (copies (n + 1) secret.1 ++ copies cut marker).head? =
          true := by
        rw [copies_succ, List.append_assoc, List.head?_append_of_ne_nil _ secret.2]
        exact not_edge.mp hhead
      rw [replaceFrom_of_first hfirst, hafter, Bool.or_true, if_pos rfl, List.append_nil,
        ih (Edge.append_of_ne_nil secret.2 hlast), copies_succ n]
      simp only [List.append_assoc]

theorem foldl_copies (hmarker : ∀ c ∈ secret.1, c ∉ marker)
    (hhead : ¬ Edge alphanumeric.is secret.1.head?)
    (hlast : Edge alphanumeric.is secret.1.getLast?) {passes : List Secret}
    (hpasses : ∀ other ∈ passes, other = secret) (n cut : Nat) :
    passes.foldl (replaceWhole alphanumeric)
        (copies (n + passes.length) secret.1 ++ copies cut marker) =
      copies n secret.1 ++ copies (cut + passes.length) marker := by
  induction passes generalizing cut with
  | nil => rfl
  | cons other passes ih =>
      rw [hpasses other List.mem_cons_self, List.foldl_cons, List.length_cons, ← Nat.add_assoc,
        replaceWhole, replaceFrom_copies hmarker hhead hlast _ _ edge_none, List.nil_append,
        ih (fun other hmem => hpasses other (List.mem_cons_of_mem _ hmem)), Nat.add_right_comm,
        ← Nat.add_assoc]

/-- If no message shows a secret after some passes with it, the secret is clean. -/
theorem clean_of_not_whole {passes : List Secret} (hpasses : ∀ other ∈ passes, other = secret)
    (hmarker : ∀ c ∈ secret.1, c ∉ marker)
    (hnot : ∀ message, ¬ Whole alphanumeric.is secret.1
      (passes.foldl (replaceWhole alphanumeric) message)) :
    Clean alphanumeric.is secret.1 := by
  constructor
  · intro k hk hpos hborder hedge
    refine hnot (overlapping secret k) ?_
    rw [foldl_overlapping hmarker hk hborder hpasses]
    have htake : secret.1.take k ≠ [] := by
      rw [← List.length_pos_iff, List.length_take]
      omega
    refine ⟨'r' :: secret.1.take k, [], by simp [overlapping], ?_, edge_none⟩
    rwa [List.getLast?_cons_of_ne_nil htake]
  · intro hhead hlast
    refine hnot (copies (1 + passes.length) secret.1 ++ copies 0 marker) ?_
    rw [foldl_copies hmarker hhead hlast hpasses]
    exact ⟨[], copies (0 + passes.length) marker, by simp [copies], edge_none,
      head?_copies_marker alphanumeric _⟩

/-- One pass cuts a secret out of every text exactly when it is clean. -/
theorem not_whole_replaceWhole_iff (hmarker : ∀ c ∈ secret.1, c ∉ marker) :
    (∀ haystack, ¬ Whole alphanumeric.is secret.1 (replaceWhole alphanumeric haystack secret)) ↔
      Clean alphanumeric.is secret.1 := by
  constructor
  · intro hnot
    have hpasses : ∀ other ∈ [secret], other = secret := fun other => List.mem_singleton.mp
    exact clean_of_not_whole hpasses hmarker hnot
  · intro hclean
    exact not_whole_replaceWhole hclean hmarker

end Passes

/-! ## No password survives, exactly when -/

/-- What `char::is_alphanumeric` says of ASCII. -/
def ascii : Alphanumeric := ⟨Char.isAlphanum, fun _ _ => rfl⟩

end Bolide.Cli.Redact
