import Bracescript.SourceFile

/-!
# Cursors

A reading position in a file, with the line and column it has.
-/

namespace Bracescript

/-- A saved reading position. -/
structure Mark where
  off : UInt32
  line : UInt32
  lineStart : UInt32
  /-- The bytes that were unread. -/
  rest : Bytes
  deriving DecidableEq, Inhabited

namespace Mark

def pos (m : Mark) : LineCol := ⟨m.line, m.off - m.lineStart + 1⟩

end Mark

structure Cursor extends Mark where
  file : UInt32
  content : Bytes
  deriving DecidableEq, Inhabited

namespace Cursor

/-- The cursor in front of the first byte. -/
def start (f : SourceFile) : Cursor :=
  { off := 0, line := 1, lineStart := 0, rest := f.content, file := f.id, content := f.content }

def atEnd (c : Cursor) : Bool := c.rest.isEmpty

/-- The byte at the cursor, or zero at the end. -/
def peek (c : Cursor) : UInt8 := c.rest.headD 0

/-- The byte `n` places ahead, or zero past the end; the sum of offset and `n` wraps. -/
def peekAt (c : Cursor) (n : UInt32) : UInt8 := c.content.getD (c.off + n).toNat 0

/-- Moves over one byte, if there is one. -/
def bump (c : Cursor) : Cursor :=
  match c.rest with
  | [] => c
  | b :: rest =>
    if b = 0x0a then { c with off := c.off + 1, line := c.line + 1, lineStart := c.off + 1, rest := rest }
    else { c with off := c.off + 1, rest := rest }

/-- Moves over `n` bytes, as far as there are any. -/
def advance : Nat → Cursor → Cursor
  | 0, c => c
  | n + 1, c => advance n c.bump

/-- Moves over `b` if it comes next, and tells whether it did. -/
def eat (c : Cursor) (b : UInt8) : Bool × Cursor :=
  match c.rest with
  | [] => (false, c)
  | next :: _ => if next = b then (true, c.bump) else (false, c)

/-- Goes back to a saved position. -/
def reset (c : Cursor) (m : Mark) : Cursor := { c with toMark := m }

/-- From a saved position up to the cursor. -/
def spanFrom (c : Cursor) (m : Mark) : Span := ⟨c.file, m.off, c.off⟩

theorem rest_bump (c : Cursor) : c.bump.rest = c.rest.drop 1 := by
  unfold bump
  split
  · simp_all
  · split <;> simp_all

theorem rest_advance (n : Nat) (c : Cursor) : (c.advance n).rest = c.rest.drop n := by
  induction n generalizing c with
  | zero => rfl
  | succ n ih => rw [advance, ih, rest_bump, List.drop_drop, Nat.add_comm]

end Cursor

end Bracescript
