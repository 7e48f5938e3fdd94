import Bracescript.Cache.Packed
import Bracescript.Disk
import Bracescript.Sha256
import Bracescript.Target.Module
import Bracescript.Version

/-!
# The compile cache

Outputs kept on disk under a digest of everything they depend on.
-/

namespace Bracescript

/-- A SHA-256 digest as a key. -/
abbrev Digest := Bytes

namespace Digest

def isZero (d : Digest) : Bool := d.all (· == 0)

end Digest

/-- The key of what comes of a content under some options. -/
def EmitOptions.digest (o : EmitOptions) (contentHash : Bytes) : Digest :=
  let parts := [Release.current.version, o.runtime, o.format.name].flatMap fun part => part ++ [0]
  Sha256.digest (contentHash ++ parts ++ [if o.debug then 1 else 0])

/-- What is kept of one compilation. -/
structure CacheEntry where
  schema : Nat := 0
  /-- The last path under which the content was compiled. -/
  path : Bytes := []
  compiler : Bytes := []
  output : Bytes := []
  deriving DecidableEq, Inhabited

namespace CacheEntry

/-- The number of the shape that entries have. -/
def currentSchema : Nat := 1

def encode (e : CacheEntry) : Bytes :=
  [0x85] ++ Packed.encodeText "Schema" ++ Packed.encodeWord e.schema ++ Packed.encodeText "Path" ++ Packed.encodeText e.path
    ++ Packed.encodeText "Compiler" ++ Packed.encodeText e.compiler ++ Packed.encodeText "Output" ++ Packed.encodeText e.output
    ++ Packed.encodeText "Created" ++ Packed.encodeSeconds 0

open Packed in
def textOf : Packed → Except Packed.Fault Bytes
  | .text t => .ok t
  | .nil => .ok []
  | _ => .error (.unexpected 0 "string/bytes length")

open Packed in
/-- Sets the field of a name; unknown names are passed over. -/
def setField (e : CacheEntry) (name : Bytes) (v : Packed) : Except Packed.Fault CacheEntry :=
  if name = "Schema" then
    match v with
    | .int n => .ok { e with schema := (n % 65536).toNat }
    | .nil => .ok { e with schema := 0 }
    | _ => .error (.unexpected 0 "uint64")
  else if name = "Path" then (textOf v).map fun t => { e with path := t }
  else if name = "Compiler" then (textOf v).map fun t => { e with compiler := t }
  else if name = "Output" then (textOf v).map fun t => { e with output := t }
  else if name = "Created" then
    match v with
    | .nil => .ok e
    | .custom 0xff b =>
      if b.length = 4 || b.length = 8 || b.length = 12 then .ok e else .error (.unexpected 0 "time")
    | _ => .error (.unexpected 0 "ext header")
  else .ok e

/-- Sets all fields of a table in their order. -/
def setFields (e : CacheEntry) : List (Packed × Packed) → Except Packed.Fault CacheEntry
  | [] => .ok e
  | (key, v) :: fields =>
    match textOf key with
    | .error f => .error f
    | .ok name =>
      match e.setField name v with
      | .error f => .error f
      | .ok e => e.setFields fields

/-- An entry is a table with named fields, or a list with all fields in order. -/
def decode (bs : Bytes) : Except Packed.Fault CacheEntry :=
  match Packed.decode bs with
  | .error f => .error f
  | .ok .nil => .ok {}
  | .ok (.table fields) => setFields {} fields
  | .ok (.list []) => .ok {}
  | .ok (.list items) =>
    if items.length = 5 then
      let names : List Bytes := ["Schema", "Path", "Compiler", "Output", "Created"]
      setFields {} ((names.map Packed.text).zip items)
    else .error .fieldCount
  | .ok _ => .error (.unexpected (bs.headD 0) "map length")

end CacheEntry

/-- A cache in a folder of a disk. -/
structure Cache where
  dir : Bytes
  deriving DecidableEq, Inhabited

namespace Cache

/-- Opens a cache, whose folder is made if there is none. -/
def openAt (d : Disk) (dir : Bytes) : Except DiskFault (Cache × Disk) := (d.makeFolders dir).map fun d => (⟨dir⟩, d)

def folder (c : Cache) : Bytes := Path.join [c.dir, "js"]

def entryPath (c : Cache) (key : Digest) : Bytes := Path.join [c.dir, "js", key.toHex ++ ".mp"]

/-- The entry of a key, if there is one that can be read. -/
def read (c : Cache) (d : Disk) (key : Digest) : Except Bytes (Option CacheEntry) :=
  let path := c.entryPath key
  match d.look true path with
  | .error .missing => .ok none
  | .error r => .error (DiskFault.on "open" path r).message
  | .ok (.file content) =>
    match CacheEntry.decode content with
    | .error f => .error ("decode cache entry: " ++ f.message)
    | .ok e => .ok (some e)
  | .ok _ => .error ("decode cache entry: " ++ (DiskFault.on "read" path .isFolder).message)

/-- The output under a key; entries of another shape do not count. -/
def get (c : Cache) (d : Disk) (key : Digest) : Except Bytes (Option Bytes) :=
  (c.read d key).map fun e => e.bind fun e => if e.schema = CacheEntry.currentSchema then some e.output else none

/-- Puts an entry in: it is written beside its place and then moved there. -/
def put (c : Cache) (d : Disk) (key : Digest) (e : CacheEntry) : Except DiskFault Disk :=
  let path := c.entryPath key
  let draft := Path.join [c.folder, "tmp-0"]
  match d.makeFolders c.folder with
  | .error f => .error f
  | .ok d =>
    match d.write draft { e with schema := CacheEntry.currentSchema }.encode with
    | .error f => .error f
    | .ok d => d.rename draft path

/-- Removes every entry. The folder is moved aside first, so that nobody sees half of it. -/
def dropAll (c : Cache) (d : Disk) : Except DiskFault Disk :=
  let aside := c.dir ++ ".old-0"
  match d.rename c.dir aside with
  | .error f => if f.isMissing then .ok d else .error f
  | .ok d =>
    match d.removeAll aside with
    | .error f => .error f
    | .ok d => d.makeFolders c.dir

end Cache

end Bracescript
