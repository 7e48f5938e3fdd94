import Bracescript.Shell
import Bracescript.Compile.Directory
import Bracescript.Token.Listing
import Bracescript.Tree.Json
import Bracescript.Tree.Outline

/-!
# Looking into sources

The tokens or the tree of one file or of every file of a directory.
-/

namespace Bracescript.Shell

inductive ListingFormat where
  | pretty
  | json
  deriving DecidableEq

def ListingFormat.read (a : Arguments) : Except Complaint ListingFormat :=
  let name := a.text "format" "pretty"
  if name = "pretty" then .ok .pretty else if name = "json" then .ok .json else .error (.unknownFormat name)

/-- The line in front of the listing of a file among others. -/
def fileHeading (format : ListingFormat) (path : Bytes) : Bytes :=
  match format with
  | .pretty => "== " ++ path ++ " ==\n"
  | .json => []

def showTokens (format : ListingFormat) (all : Bool) (tokens : List Token) : Bytes :=
  match format with
  | .pretty => tokenListing all tokens
  | .json => tokensJson all tokens

def showTree (format : ListingFormat) (p : Program) : Bytes :=
  match format with
  | .pretty => p.outline
  | .json => p.toJson

/-- Loads a file for an activity. -/
def loadFor (activity path : Bytes) : Action (SourceFile × FileSet) := do
  let (id, files) ← orStop (fun f : DiskFault => .failed activity f.message) (FileSet.load {} (← get).disk path)
  return ((files.get? id).getD default, files)

/-- Lists the tokens of a file. -/
def tokenizeFile (g : CommonOptions) (render : List Token → Bytes) (path : Bytes) : Action Unit := do
  let (file, files) ← loadFor "tokenization" path
  let (tokens, bag) := file.tokenizeInto (.new g.limit)
  report g files bag
  say (render tokens)
  if bag.hasErrors then throw .told

/-- Lists the tokens of every file of a directory. -/
def tokenizeTree (g : CommonOptions) (render : TokenizedFile → Bytes) (dir : Bytes) : Action Unit := do
  let (files, found) ← orStop (fun f : DiskFault => .failed "tokenization" f.message)
    (tokenizeDirectory (← get).disk dir g.limit)
  for f in found do
    report g files f.bag
    say (render f)
  if found.any fun f => f.bag.hasErrors then throw .told

def tokenize (a : Arguments) (path : Bytes) : Action Unit := do
  let g ← orStop id (CommonOptions.read a)
  let format ← orStop id (ListingFormat.read a)
  let listing := showTokens format (a.switch "all" false)
  let entry ← orStop (.unreachable path) ((← get).disk.stat path)
  if entry = .folder then tokenizeTree g (fun f => fileHeading format f.path ++ listing f.tokens) path
  else tokenizeFile g listing path

/-- Shows the tree of a file. -/
def parseFile (g : CommonOptions) (format : ListingFormat) (path : Bytes) : Action Unit := do
  let (file, files) ← loadFor "parsing" path
  let c := file.parsePhases (.new g.limit)
  report g files c.bag
  match c.program with
  | none => throw .told
  | some p => say (showTree format p)

/-- Shows the tree of every file of a directory. -/
def parseTree (g : CommonOptions) (format : ListingFormat) (dir : Bytes) : Action Unit := do
  let (files, found) ← orStop (fun f : DiskFault => .failed "parsing" f.message) (parseDirectory (← get).disk dir g.limit)
  for f in found do
    report g files f.bag
    match f.program with
    | none => pure ()
    | some p => say (fileHeading format f.path ++ showTree format p)
  if found.any fun f => f.program.isNone then throw .told

def parse (a : Arguments) (path : Bytes) : Action Unit := do
  let g ← orStop id (CommonOptions.read a)
  let format ← orStop id (ListingFormat.read a)
  let entry ← orStop (.unreachable path) ((← get).disk.stat path)
  if entry = .folder then parseTree g format path else parseFile g format path

end Bracescript.Shell
