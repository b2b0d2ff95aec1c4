/-
Bolide.Cli.Redact — passwords cut out of a message (`bolide-cli/src/cli.rs`).

`redactPassword` takes the passwords that argv carries, the longest first,
and `replaceWhole` puts `<redacted>` where one of them is in the message and
is not part of a longer word.

Translation notes. The loop of `replace_whole` is `replaceFrom`, with what
has been written and what is left. It would not end for an empty secret,
and `redact_password` drops those: a `Secret` is not empty. The sort is
stable, by the number of bytes. `char::is_alphanumeric` goes by tables of
Unicode, so it is a parameter; what it says of ASCII is known. Of clap's
errors there are the text that clap has rendered and the kinds that
`from_clap` tells apart.
-/
import Bolide.Cli.CommandLine
import Bolide.Lib.Utf8
import Bolide.Lib.Whole

namespace Bolide.Cli.Redact

open Lib CommandLine

/-! ## Secrets -/

/-- What is cut out of a message. -/
abbrev Secret : Type := { s : Text // s ≠ [] }

/-- What an argument that has an `@` carries: the password of the userinfo, as it is typed and
decoded. -/
def urlSecrets (arg : Text) : List Text :=
  match Text.rsplitOnce ['@'] arg with
  | none => []
  | some (userinfo, _) =>
      let userinfo := ((Text.splitOnce "://".toList userinfo).map Prod.snd).getD userinfo
      match Text.splitOnce [':'] userinfo with
      | none => []
      | some (_, raw) => raw :: (percentDecode raw).toList

/-- What the arguments carry, in their order. -/
def collect : List Text → List Text
  | [] => []
  | arg :: argv =>
      (if arg = "--password".toList then argv.head?.toList
        else match ("--password=".toList).isPrefixOf? arg with
          | some value => [value]
          | none => urlSecrets arg) ++ collect argv

/-- The secrets of argv, longest first. -/
def secrets (argv : List Text) : List Secret :=
  ((collect argv).filterMap fun s => if h : s ≠ [] then some ⟨s, h⟩ else none).insertionSort
    fun a b => b.1.utf8Bytes.length ≤ a.1.utf8Bytes.length

/-! ## `replace_whole` -/

/-- `char::is_alphanumeric`. -/
structure Alphanumeric where
  is : Char → Bool
  ascii : ∀ c : Char, c.toNat < 128 → is c = c.isAlphanum

/-- What a secret is replaced by. -/
def marker : Text := "<redacted>".toList

section Replace

variable (alphanumeric : Alphanumeric)

def Alphanumeric.isWord (c : Option Char) : Bool := c.any alphanumeric.is

theorem splitOnce_length {sep s before after : Text} (hsep : sep ≠ [])
    (h : Text.splitOnce sep s = some (before, after)) : after.length < s.length := by
  have hlength := congrArg List.length (Text.first_of_splitOnce h).eq
  have hpos := List.length_pos_of_ne_nil hsep
  simp only [List.length_append] at hlength
  omega

/-- The loop of `replace_whole`: what has been written, and the rest. -/
def replaceFrom (secret : Secret) (out rest : Text) : Text :=
  match _h : Text.splitOnce secret.1 rest with
  | none => out ++ rest
  | some (skipped, after) =>
      let before := skipped.getLast?.or out.getLast?
      replaceFrom secret
        (out ++ skipped ++
          if alphanumeric.isWord before || alphanumeric.isWord after.head? then secret.1
          else marker)
        after
termination_by rest.length
decreasing_by exact splitOnce_length secret.2 _h

/-- `replace_whole`. -/
def replaceWhole (haystack : Text) (secret : Secret) : Text :=
  replaceFrom alphanumeric secret [] haystack

/-- `redact_password`. -/
def redactPassword (message : Text) (argv : List Text) : Text :=
  (secrets argv).foldl (replaceWhole alphanumeric) message

/-- `clap::error::ErrorKind`: all but three are usage errors. -/
inductive ErrorKind where
  | displayHelp
  | displayVersion
  | displayHelpOnMissingArgumentOrSubcommand
  | usage
  deriving DecidableEq, Repr

/-- `CliError::printed` — exit 0. -/
def printed (message : String) : CliError := ⟨0, message, .out⟩

/-- `from_clap`. -/
def fromClap (kind : ErrorKind) (rendered : Text) (argv : List Text) : CliError :=
  let message := redactPassword alphanumeric (Text.trimEnd Text.isWhitespace rendered) argv
  match kind with
  | .usage => usage (String.ofList message)
  | _ => printed (String.ofList message)

end Replace

end Bolide.Cli.Redact
