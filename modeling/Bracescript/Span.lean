import Bracescript.Bytes

/-!
# Spans and positions

Places in source files. Offsets are 32-bit words and their arithmetic wraps.
-/

namespace Bracescript

/-- A line and a column, both from 1; columns count bytes. -/
structure LineCol where
  line : UInt32
  col : UInt32
  deriving DecidableEq, Repr, Inhabited

namespace LineCol

def none : LineCol := ⟨0, 0⟩

/-- `line:col`. -/
def render (p : LineCol) : Bytes := Bytes.ofNat p.line.toNat ++ ":" ++ Bytes.ofNat p.col.toNat

end LineCol

/-- The bytes of a file from `start` up to, not including, `stop`. -/
structure Span where
  file : UInt32
  start : UInt32
  stop : UInt32
  deriving DecidableEq, Repr, Inhabited

namespace Span

/-- The empty span at the start of the first file, which stands for no place at all. -/
def none : Span := ⟨0, 0, 0⟩

def isEmpty (s : Span) : Bool := s.start == s.stop

def length (s : Span) : UInt32 := s.stop - s.start

/-- `file:start-stop`. -/
def render (s : Span) : Bytes :=
  Bytes.ofNat s.file.toNat ++ ":" ++ Bytes.ofNat s.start.toNat ++ "-" ++ Bytes.ofNat s.stop.toNat

/-- The least span around both; a span of another file is left out. -/
def cover (s t : Span) : Span :=
  if s.file = t.file then ⟨s.file, min s.start t.start, max s.stop t.stop⟩ else s

def contains (s : Span) (off : UInt32) : Bool := s.start ≤ off && off < s.stop

end Span

end Bracescript
