import Bracescript.Disk
import Bracescript.Manifest.Constraint
import Bracescript.Target.Module
import Bracescript.Text.Trim
import Bracescript.Toml

/-!
# Manifests

The settings of a project, which stand in a file at its root.
-/

namespace Bracescript

/-- The settings of a project; an empty text is not set. -/
structure Config where
  name : Bytes := []
  version : Bytes := []
  requires : Bytes := []
  runtime : Bytes := []
  module : Bytes := []
  debug : Option Bool := none
  src : Bytes := []
  out : Bytes := []
  deriving DecidableEq, Inhabited

namespace Config

/-- A setting by its name. -/
inductive Field where
  | text (set : Bytes → Config → Config)
  | flag (set : Bool → Config → Config)

/-- All settings by section and name. -/
def sections : List (Bytes × List (Bytes × Field)) :=
  let package : List (Bytes × Field) :=
    [("name", .text fun s c => { c with name := s }), ("version", .text fun s c => { c with version := s })]
  let compiler : List (Bytes × Field) :=
    [("requires", .text fun s c => { c with requires := s }), ("runtime", .text fun s c => { c with runtime := s }),
      ("module", .text fun s c => { c with module := s }), ("debug", .flag fun b c => { c with debug := some b })]
  let build : List (Bytes × Field) :=
    [("src", .text fun s c => { c with src := s }), ("out", .text fun s c => { c with out := s })]
  [("package", package), ("compiler", compiler), ("build", build)]

/-- A name in lower case, as far as ASCII names can be spelled with other letters. -/
def fold (name : Bytes) : Bytes :=
  let foldGlyph : Text.Glyph → Bytes := fun
    | .char c =>
      if c.toNat = 0x17f then "s" else if c.toNat = 0x212a then "k" else Bytes.ofChar c.toLower
    | .stray b => [b]
  (Text.glyphs name).flatMap foldGlyph

/-- What has a name, in any letter case. -/
def find? {α : Type} (name : Bytes) (known : List (Bytes × α)) : Option α := known.lookup (fold name)

/-- Whether a key is that of a section or of a setting. -/
def isKnown : Toml.Key → Bool
  | [part] => (find? part sections).isSome
  | [part, name] => ((find? part sections).bind (find? name)).isSome
  | _ => false

/-- Whether a key has a meaning and has kept its value; a list gives way to what is written at its place later. -/
def isUsed (root : Toml.Table) (key : Toml.Key) : Bool := isKnown key && Toml.isPresent key root

/-- Takes the settings of one section in; `none` if one has a value of the wrong kind. -/
def readFields (fields : List (Bytes × Field)) : Config → Toml.Table → Option Config
  | c, [] => some c
  | c, (name, v) :: more =>
    match find? name fields, v with
    | none, _ => readFields fields c more
    | some (.text set), .text s => readFields fields (set s c) more
    | some (.flag set), .bool b => readFields fields (set b c) more
    | _, _ => none

/-- Takes all sections in. -/
def readSections : Config → Toml.Table → Option Config
  | c, [] => some c
  | c, (name, v) :: more =>
    match find? name sections, v with
    | none, _ => readSections c more
    | some fields, .table t =>
      match readFields fields c t with
      | none => none
      | some c => readSections c more
    | some _, _ => none

/-! ## New projects -/

/-- The settings of a new project; an unknown compiler version asks for none. -/
def initial (name compiler : Bytes) : Config :=
  { name, version := "0.1.0", runtime := EmitOptions.defaultRuntime, module := ModuleFormat.esm.name, debug := some true
    src := "src", out := "dist"
    requires := if compiler.isEmpty then [] else ">=" ++ compiler }

/-- A line with a setting, unless it is empty. -/
def settingLine (name : Bytes) (value : Bytes) : Bytes :=
  if value.isEmpty then [] else "  " ++ name ++ " = " ++ Toml.quote value ++ "\n"

def flagLine (name : Bytes) : Option Bool → Bytes
  | none => []
  | some b => "  " ++ name ++ " = " ++ (if b then "true" else "false") ++ "\n"

/-- The text of a settings file. -/
def encode (c : Config) : Bytes :=
  "# unsure project manifest\n[package]\n  name = " ++ Toml.quote c.name ++ "\n" ++ settingLine "version" c.version
    ++ "\n[compiler]\n" ++ settingLine "requires" c.requires ++ settingLine "runtime" c.runtime
    ++ settingLine "module" c.module ++ flagLine "debug" c.debug
    ++ "\n[build]\n" ++ settingLine "src" c.src ++ settingLine "out" c.out

end Config

/-- Why a manifest cannot be used. -/
inductive ManifestFault where
  | malformed
  | noPackage
  | noName
  | unknownKey (key : Toml.Key)
  | badVersion (text : Bytes) (f : SemVer.Fault)
  | badRequires (text : Bytes) (f : Constraint.Fault)
  | badModule (message : Bytes)
  deriving DecidableEq

def ManifestFault.message : ManifestFault → Bytes
  | malformed => "failed to parse TOML"
  | noPackage => "missing [package]"
  | noName => "missing [package].name"
  | unknownKey key => "unknown key " ++ Toml.renderKey key
  | badVersion text f => "[package].version " ++ Text.quoted text ++ ": " ++ f.message
  | badRequires text f => "[compiler].requires " ++ Text.quoted text ++ ": " ++ f.message
  | badModule message => "[compiler].module: " ++ message

structure Manifest where
  /-- The absolute path of the file. -/
  path : Bytes
  config : Config
  version : Option SemVer := none
  requires : Option Constraint := none
  deriving DecidableEq

namespace Manifest

/-- The version of a text; none for a blank one. -/
def versionOf (text : Bytes) : Except ManifestFault (Option SemVer) :=
  let text := Text.trim text
  if text.isEmpty then .ok none
  else
    match SemVer.parse text with
    | .error f => .error (.badVersion text f)
    | .ok v => .ok (some v)

/-- The constraint of a text; none for a blank one. -/
def requiresOf (text : Bytes) : Except ManifestFault (Option Constraint) :=
  let text := Text.trim text
  if text.isEmpty then .ok none
  else
    match Constraint.parse text with
    | .error f => .error (.badRequires text f)
    | .ok c => .ok (some c)

/-- The manifest of a text that stands in the file at `path`. -/
def ofText (path text : Bytes) : Except ManifestFault Manifest :=
  match Toml.Document.read text with
  | none => .error .malformed
  | some doc =>
    match Config.readSections {} doc.root with
    | none => .error .malformed
    | some config =>
      if !Toml.isPresent ["package"] doc.root then .error .noPackage
      else if !Toml.isPresent ["package", "name"] doc.root || (Text.trim config.name).isEmpty then .error .noName
      else
        match doc.keys.find? fun key => !Config.isUsed doc.root key with
        | some key => .error (.unknownKey key)
        | none =>
          match versionOf config.version with
          | .error f => .error f
          | .ok version =>
            match requiresOf config.requires with
            | .error f => .error f
            | .ok requires =>
              match ModuleFormat.parse config.module with
              | .error message => .error (.badModule message)
              | .ok _ => .ok { path, config, version, requires }

/-- Reads the manifest at `path`. A file that cannot be read counts as malformed. -/
def load (d : Disk) (path : Bytes) : Except ManifestFault Manifest :=
  match d.read path with
  | .error _ => .error .malformed
  | .ok text => ofText (Path.absolute d.cwd path) text

def root (m : Manifest) : Bytes := Path.dir m.path

/-- A directory of the project as an absolute path. -/
def directory (m : Manifest) (value fallback : Bytes) : Bytes :=
  let value := Text.trim value
  let value := if value.isEmpty then fallback else value
  if Path.isAbsolute value then Path.clean value else Path.join [m.root, value]

def sourceDir (m : Manifest) : Bytes := m.directory m.config.src "src"

def outputDir (m : Manifest) : Bytes := m.directory m.config.out "dist"

/-- The options of emission; what is not set has its default. -/
def emitOptions (m : Manifest) : EmitOptions :=
  let runtime := Text.trim m.config.runtime
  { runtime := if runtime.isEmpty then EmitOptions.defaultRuntime else runtime
    format := ((ModuleFormat.parse m.config.module).toOption).getD .esm
    debug := m.config.debug.getD true }

end Manifest

/-- Why a compiler may not be used for a project. -/
inductive CompilerFault where
  | noVersion (compiler : Bytes) (f : SemVer.Fault)
  | mismatch (compiler : Bytes) (c : Constraint)
  deriving DecidableEq

def CompilerFault.message : CompilerFault → Bytes
  | noVersion compiler f => "compiler version " ++ Text.quoted compiler ++ ": " ++ f.message
  | mismatch compiler c =>
    "compiler version does not satisfy [compiler].requires: " ++ compiler ++ " is not " ++ c.render

/-- Whether a compiler may be used; a pre-release counts as its release. -/
def Manifest.checkCompiler (m : Manifest) (compiler : Bytes) : Except CompilerFault Unit :=
  match m.requires with
  | none => .ok ()
  | some c =>
    match SemVer.parse compiler with
    | .error f => .error (.noVersion compiler f)
    | .ok v => if c.admits v.core then .ok () else .error (.mismatch compiler c)

end Bracescript
