/-
Bolide.Rfb.Keysym — key names as X11 keysyms (`bolide-rfb/src/keysym.rs`).

Translation notes. `str::split` is `List.splitOn` on the characters.
`to_ascii_lowercase` is `Char.toLower` on each character, which leaves every
character but `A` to `Z` alone. The `expect` of `parse_chord` never fails,
because `plus` is in the table.
-/
import Bolide.Rfb.Proto

namespace Bolide.Rfb

/-! ## The tables -/

def canonical : List (String × UInt32) :=
  [("BackSpace", 0xff08), ("Tab", 0xff09), ("Return", 0xff0d), ("Pause", 0xff13),
    ("Scroll_Lock", 0xff14), ("Escape", 0xff1b), ("Home", 0xff50), ("Left", 0xff51),
    ("Up", 0xff52), ("Right", 0xff53), ("Down", 0xff54), ("Page_Up", 0xff55),
    ("Page_Down", 0xff56), ("End", 0xff57), ("Print", 0xff61), ("Insert", 0xff63),
    ("Menu", 0xff67), ("Num_Lock", 0xff7f), ("F1", 0xffbe), ("F2", 0xffbf), ("F3", 0xffc0),
    ("F4", 0xffc1), ("F5", 0xffc2), ("F6", 0xffc3), ("F7", 0xffc4), ("F8", 0xffc5),
    ("F9", 0xffc6), ("F10", 0xffc7), ("F11", 0xffc8), ("F12", 0xffc9), ("Shift_L", 0xffe1),
    ("Shift_R", 0xffe2), ("Control_L", 0xffe3), ("Control_R", 0xffe4), ("Caps_Lock", 0xffe5),
    ("Meta_L", 0xffe7), ("Meta_R", 0xffe8), ("Alt_L", 0xffe9), ("Alt_R", 0xffea),
    ("Super_L", 0xffeb), ("Super_R", 0xffec), ("Delete", 0xffff), ("space", 0x20),
    ("plus", 0x2b), ("minus", 0x2d)]

/-- Alias to canonical name; the aliases are in lower case. -/
def aliases : List (String × String) :=
  [("enter", "Return"), ("ret", "Return"), ("esc", "Escape"), ("del", "Delete"),
    ("ins", "Insert"), ("arrowleft", "Left"), ("arrowright", "Right"), ("arrowup", "Up"),
    ("arrowdown", "Down"), ("pageup", "Page_Up"), ("pagedown", "Page_Down"),
    ("pgup", "Page_Up"), ("pgdn", "Page_Down"), ("pgdown", "Page_Down"),
    ("ctrl", "Control_L"), ("control", "Control_L"), ("alt", "Alt_L"), ("option", "Alt_L"),
    ("opt", "Alt_L"), ("cmd", "Super_L"), ("command", "Super_L"), ("\u2318", "Super_L"),
    ("\u2325", "Alt_L"), ("\u21e7", "Shift_L"), ("\u2303", "Control_L"), ("meta", "Meta_L"),
    ("win", "Super_L"), ("windows", "Super_L"), ("super", "Super_L"), ("shift", "Shift_L"),
    ("spacebar", "space"), ("capslock", "Caps_Lock"), ("numlock", "Num_Lock"),
    ("scrolllock", "Scroll_Lock"), ("printscreen", "Print"), ("prtsc", "Print"),
    ("break", "Pause")]

/-! ## One key -/

/-- A key name bolide does not know. -/
structure UnknownKey where
  name : String
  deriving DecidableEq, Repr

/-- `Display` of an `UnknownKey`. -/
def UnknownKey.display (e : UnknownKey) : String := s!"unknown key name: {e.name}"

def canonicalKeysym (name : String) : Option UInt32 :=
  (canonical.find? (fun e => e.1 = name)).map Prod.snd

/-- `to_ascii_lowercase`. -/
def lowercase (name : String) : String := String.ofList (name.toList.map Char.toLower)

/-- `keysym_for_char`: the keysym for one character, as `type` needs it. -/
def keysymForChar (c : Char) : UInt32 :=
  if c = '\n' ∨ c = '\r' then 0xff0d
  else if c = '\t' then 0xff09
  else if c = '\x08' then 0xff08
  else if c = '\x7f' then 0xffff
  else if c.val < 0x100 then c.val
  else 0x01000000 + c.val

/-- A single character is itself; a longer name is looked up whatever its case. -/
def keysymForRest (name : String) : Option UInt32 :=
  match name.toList with
  | [c] => some (keysymForChar c)
  | _ => (canonical.find? (fun e => lowercase e.1 = lowercase name)).map Prod.snd

/-- `keysym_for`: the keysym for one key name. -/
def keysymFor (name : String) : Option UInt32 :=
  if name = "" then none
  else match canonicalKeysym name with
    | some k => some k
    | none =>
        match (aliases.find? (fun e => e.1 = lowercase name)).bind
            (fun e => canonicalKeysym e.2) with
        | some k => some k
        | none => keysymForRest name

/-! ## Chords -/

/-- The plus key. -/
def plus : UInt32 := (canonicalKeysym "plus").get (by decide)

/-- The loop of `parse_chord`: two empty segments are the plus key. -/
def parseSegments : List (List Char) → Except UnknownKey (List UInt32)
  | [] => .ok []
  | [] :: [] :: rest => do
      let syms ← parseSegments rest
      return plus :: syms
  | [] :: _ => .error ⟨""⟩
  | seg :: rest =>
      match keysymFor (String.ofList seg) with
      | some k => do
          let syms ← parseSegments rest
          return k :: syms
      | none => .error ⟨String.ofList seg⟩

/-- `parse_chord`: the keysyms of a chord, in press order. -/
def parseChord (spec : String) : Except UnknownKey (List UInt32) := do
  let syms ← parseSegments (spec.toList.splitOn '+')
  if syms = [] then .error ⟨spec⟩ else .ok syms

example : parseChord "ctrl++" = .ok [0xffe3, 0x2b] := by decide +kernel

end Bolide.Rfb
