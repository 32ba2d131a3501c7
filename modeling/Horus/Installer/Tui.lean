import Mathlib.Data.List.Basic

/-
  The two widgets of the text interface (`tui.c`), one key at a
  time: a line of input and a menu.

  Each shows what it has and waits for a key. A widget that
  gets no key for a long time is left as if by the escape key.
-/

namespace Horus.Installer

inductive Key where
  | char (c : Nat)
  | enter
  | tab
  | esc
  | backspace
  | up
  | down
  | left
  | right
  | home
  | last
  | idle

/- A line of input, as the bytes before its end. -/
abbrev Text : Type := List Nat

def tuiIdleLimit : Nat := 256

/-
  A widget between two keys: what was typed, the item that is
  highlighted, and for how long no key came.
-/
structure Widget where
  text : Text
  cur : Nat
  idle : Nat

def Widget.fresh (cur : Nat) : Widget := { text := [], cur := cur, idle := 0 }

inductive InputResult where
  | more (w : Widget)
  | entered (text : Text)
  | left

/- A key in `tui_input`; `limit` is the room in the buffer. -/
def tuiInput (limit : Nat) (w : Widget) : Key → InputResult
  | .idle => if tuiIdleLimit ≤ w.idle + 1 then .left else .more { w with idle := w.idle + 1 }
  | .enter => .entered w.text
  | .tab => .entered w.text
  | .esc => .left
  | .backspace => .more { w with text := w.text.dropLast, idle := 0 }
  | .char c =>
    if 0x20 ≤ c ∧ c < 0x7F ∧ w.text.length < limit then
      .more { w with text := w.text ++ [c], idle := 0 }
    else .more { w with idle := 0 }
  | _ => .more { w with idle := 0 }

inductive MenuResult where
  | more (w : Widget)
  | chosen (sel : Nat)
  | left

/- A key in `tui_menu` with `n` items. -/
def tuiMenu (n : Nat) (w : Widget) : Key → MenuResult
  | .idle => if tuiIdleLimit ≤ w.idle + 1 then .left else .more { w with idle := w.idle + 1 }
  | .enter => .chosen w.cur
  | .esc => .left
  | .up => .more { w with cur := w.cur - 1, idle := 0 }
  | .down => .more { w with cur := min (w.cur + 1) (n - 1), idle := 0 }
  | .home => .more { w with cur := 0, idle := 0 }
  | .last => .more { w with cur := n - 1, idle := 0 }
  | _ => .more { w with idle := 0 }

end Horus.Installer
