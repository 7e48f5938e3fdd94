import Bracescript.Bytes

/-!
# Colours

Terminal codes around a text, which are only written on request.
-/

namespace Bracescript.Text

/-- Display attributes by their code. -/
inductive Attribute where
  | bold
  | red
  | green
  | yellow
  | blue
  | cyan
  deriving DecidableEq, Repr

namespace Attribute

def on : Attribute → Bytes
  | bold => "1"
  | red => "31"
  | green => "32"
  | yellow => "33"
  | blue => "34"
  | cyan => "36"

/-- The code that takes the attribute back; a colour goes with everything else. -/
def off : Attribute → Bytes
  | bold => "22"
  | _ => "0"

end Attribute

def terminalCode (codes : List Bytes) : Bytes := "\x1b[" ++ Bytes.join ";" codes ++ "m"

/-- The text with the attributes, or as it is. -/
def paint (enabled : Bool) (attributes : List Attribute) (text : Bytes) : Bytes :=
  if enabled then
    terminalCode (attributes.map Attribute.on) ++ text ++ terminalCode (attributes.map Attribute.off)
  else text

end Bracescript.Text
