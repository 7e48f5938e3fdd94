import Bracescript.Token
import Bracescript.Text.Json
import Bracescript.Text.Quoted
import Bracescript.Text.Fixed

/-!
# Listings of tokens
-/

namespace Bracescript

open Text

namespace Token

/-- A line of a listing. -/
def listingLine (n : Nat) (t : Token) : Bytes :=
  let value : Bytes := if t.value.isEmpty || t.value = t.text then [] else " value=" ++ quoted t.value
  let flag : Bytes := if t.flag.isEmpty then [] else " flag=" ++ t.flag
  padFront 4 (Bytes.ofNat n) ++ ": " ++ padBack 14 t.kind.name ++ " " ++ padBack 8 t.pos.render ++ " " ++ quoted t.text
    ++ value ++ flag ++ "\n"

open Json in
def toJson (t : Token) : Json :=
  let unlessEmpty : Bytes → Bytes → List (Bytes × Json) := fun name s => if s.isEmpty then [] else [(name, Json.text s)]
  let kind : List (Bytes × Json) := [("kind", Json.text t.kind.name)]
  let span : List (Bytes × Json) :=
    [("File", nat t.span.file.toNat), ("Start", nat t.span.start.toNat), ("End", nat t.span.stop.toNat)]
  let place : List (Bytes × Json) :=
    [("line", nat t.pos.line.toNat), ("col", nat t.pos.col.toNat), ("span", object span)]
  object (kind ++ unlessEmpty "text" t.text ++ unlessEmpty "value" (if t.value = t.text then [] else t.value)
    ++ unlessEmpty "flag" t.flag ++ place)

end Token

/-- The tokens that a listing shows: all, or those that are not white space. -/
def listed (all : Bool) (tokens : List Token) : List Token := tokens.filter fun t => all || !t.isWhitespace

/-- Lines from number `n` on. -/
def listingFrom : Nat → List Token → Bytes
  | _, [] => []
  | n, t :: ts => t.listingLine n ++ listingFrom (n + 1) ts

/-- A line per token. -/
def tokenListing (all : Bool) (tokens : List Token) : Bytes := listingFrom 1 (listed all tokens)

/-- The tokens as JSON. -/
def tokensJson (all : Bool) (tokens : List Token) : Bytes :=
  Json.document true (.list ((listed all tokens).map Token.toJson))

end Bracescript
