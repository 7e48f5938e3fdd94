import Bracescript.Text.Paint

/-!
# Releases of the compiler
-/

namespace Bracescript

/-- What is known of a build of the compiler; an empty text is unknown. -/
structure Release where
  version : Bytes := "0.1.0-dev"
  commit : Bytes := []
  date : Bytes := []
  deriving DecidableEq, Inhabited

namespace Release

/-- The running compiler. -/
def current : Release := {}

/-- The text in front of the first byte that `p` holds of, and the rest. -/
def splitAt (p : UInt8 → Bool) (text : Bytes) : Bytes × Bytes := (text.takeWhile (!p ·), text.dropWhile (!p ·))

/-- The version with its three numbers in different colors; what has no three numbers stays plain. -/
def colored (r : Release) (color : Bool) : Bytes :=
  let (core, tail) := splitAt (fun b => b = Bytes.ascii '-' || b = Bytes.ascii '+') r.version
  match core.cut (Bytes.ascii '.') with
  | none => r.version
  | some (major, rest) =>
    match rest.cut (Bytes.ascii '.') with
    | none => r.version
    | some (minor, patch) =>
      Text.paint color [.yellow, .bold] major ++ "." ++ Text.paint color [.green, .bold] minor ++ "."
        ++ Text.paint color [.blue, .bold] patch ++ tail

/-- One line on the release. -/
def banner (r : Release) (color : Bool) : Bytes :=
  let commit : Bytes := if r.commit.isEmpty then [] else " (" ++ r.commit.take 12 ++ ")"
  let date : Bytes := if r.date.isEmpty then [] else " built " ++ r.date
  "unsure " ++ r.colored color ++ commit ++ date

end Release

end Bracescript
