import Bracescript.Toml.Statement

/-!
# Settings

The tables that the statements of a settings file make up. What is defined twice is an error, except that a table which
was only implied may be defined once.
-/

namespace Bracescript

inductive Toml where
  | text (s : Bytes)
  | bool (b : Bool)
  /-- A number or a time. -/
  | measure
  | list
  | table (fields : List (Bytes × Toml))
  /-- Tables that were written one by one, the newest first. -/
  | tables (items : List (List (Bytes × Toml)))

namespace Toml

abbrev Table := List (Bytes × Toml)

namespace Table

/-- Puts a field in, in place of one of that name or at the end. -/
def set (t : Table) (name : Bytes) (v : Toml) : Table :=
  match t with
  | [] => [(name, v)]
  | (n, w) :: more => if n = name then (n, v) :: more else (n, w) :: set more name v

end Table

/-- Works on the table at a path. In a list of tables the newest is meant. -/
def modify? (f : Table → Option Table) : Key → Table → Option Table
  | [], t => f t
  | part :: rest, t =>
    match t.lookup part with
    | some (.table inner) => (modify? f rest inner).map fun inner => Table.set t part (.table inner)
    | some (.tables (newest :: older)) => (modify? f rest newest).map fun inner => Table.set t part (.tables (inner :: older))
    | _ => none

/-- The table at a path. -/
def tableAt? : Key → Table → Option Table
  | [], t => some t
  | part :: rest, t =>
    match t.lookup part with
    | some (.table inner) => tableAt? rest inner
    | some (.tables (newest :: _)) => tableAt? rest newest
    | _ => none

/-- Whether there is a value at a path. Tables of a list are not looked into. -/
def isPresent : Key → Table → Bool
  | [], _ => true
  | part :: rest, t =>
    match t.lookup part with
    | some (.table inner) => isPresent rest inner
    | some _ => rest.isEmpty
    | none => false

/-- The key under which the kind of a value is kept. A value without a name gives its kind to the table it is in, if
it is in one. -/
def kindKey (context : Key) (name : Bytes) : Key :=
  if name.isEmpty && !context.isEmpty then context else context ++ [name]

structure Document where
  root : Table := []
  /-- Tables that are there only because of something in them. -/
  implied : List Key := []
  /-- Keys whose kind is that of a list in brackets. -/
  lists : List Key := []
  /-- All keys in the order of their definition. -/
  keys : List Key := []

namespace Document

def imply (d : Document) (key : Key) : Document := { d with implied := key :: d.implied }

def confirm (d : Document) (key : Key) : Document := { d with implied := d.implied.filter (· ≠ key) }

def isImplied (d : Document) (key : Key) : Bool := d.implied.contains key

def markList (d : Document) (key : Key) : Document := { d with lists := key :: d.lists }

def unmarkList (d : Document) (key : Key) : Document := { d with lists := d.lists.filter (· ≠ key) }

def note (d : Document) (key : Key) : Document := { d with keys := d.keys ++ [key] }

/-- Puts a value at a path. Where something is already, only a list may take its place, and what was implied stays. -/
def put (d : Document) (context : Key) (name : Bytes) (v : Toml) : Option Document :=
  let key := context ++ [name]
  match tableAt? context d.root with
  | none => none
  | some t =>
    let store : Option Document :=
      (modify? (fun t => some (Table.set t name v)) context d.root).map fun root => { d with root }
    match t.lookup name with
    | none => store
    | some _ =>
      if d.lists.contains key then store.map fun d => d.confirm key
      else if d.isImplied key then some (d.confirm key)
      else none

/-- Makes sure that there is a table at every place above the end of a path. -/
def establish (d : Document) (above : Key) : Key → Option Document
  | [] | [_] => some d
  | part :: rest =>
    let here := above ++ [part]
    match tableAt? above d.root with
    | none => none
    | some t =>
      match t.lookup part with
      | none =>
        match modify? (fun t => some (Table.set t part (.table []))) above d.root with
        | none => none
        | some root => ({ d with root }.imply here).establish here rest
      | some (.table _) => d.establish here rest
      | some (.tables _) => d.establish here rest
      | some _ => none

/-- Opens the table at a path. -/
def openTable (d : Document) (key : Key) : Option Document :=
  match d.establish [] key with
  | none => none
  | some d => d.put key.dropLast (key.getLastD []) (.table [])

/-- Opens one more table of the list at a path. -/
def openElement (d : Document) (key : Key) : Option Document :=
  match d.establish [] key with
  | none => none
  | some d =>
    let name := key.getLastD []
    let grow (t : Table) : Option Table :=
      match t.lookup name with
      | none => some (Table.set t name (.tables [[]]))
      | some (.tables ts) => some (Table.set t name (.tables ([] :: ts)))
      | some _ => none
    (modify? grow key.dropLast d.root).map fun root => { d with root }

/-- Opens the tables that the front parts of a key in `context` name. -/
def openParts (d : Document) (context : Key) : Key → Option (Document × Key)
  | [] => some (d, context)
  | part :: rest =>
    let here := context ++ [part]
    match (d.imply here).openTable here with
    | none => none
    | some d => d.openParts here rest

/-- Keeps under a key whether a value is a list. -/
def remember (d : Document) (key : Key) : Value → Document
  | .list _ => d.markList key
  | _ => d.unmarkList key

mutual

/-- Takes a value in that is meant for the key `context ++ [name]`; what a table in braces holds is put at its place
at once, and is also what the table is worth. -/
def absorb (d : Document) (context : Key) (name : Bytes) (inList : Bool) : Value → Option (Document × Toml)
  | .text s => some (d, .text s)
  | .bool b => some (d, .bool b)
  | .measure => some (d, .measure)
  | .list items => (absorbItems (d.markList (kindKey context name)) context name items).map fun d => (d, .list)
  | .record fields =>
    let here := context ++ [name]
    let d := d.imply here
    match (if inList then d.openElement here else d.openTable here) with
    | none => none
    | some d => (absorbFields d here [] fields).map fun (d, own) => (d, .table own)

def absorbItems (d : Document) (context : Key) (name : Bytes) : List Value → Option Document
  | [] => some d
  | v :: vs =>
    match absorb d context name true v with
    | none => none
    | some (d, _) => absorbItems d context name vs

/-- Takes fields in; `own` are their values so far, each under the last part of its key. -/
def absorbFields (d : Document) (context : Key) (own : Table) : List (Key × Value) → Option (Document × Table)
  | [] => some (d, own)
  | (key, v) :: fields =>
    match d.openParts context key.dropLast with
    | none => none
    | some (d, here) =>
      let name := key.getLastD []
      match absorb (d.note (here ++ [name])) here name false v with
      | none => none
      | some (d, t) =>
        match d.put here name t with
        | none => none
        | some d => absorbFields (d.remember (kindKey here name) v) context (Table.set own name t) fields

end

/-- Takes the statements in; `context` is the table that was opened last. -/
def build (d : Document) (context : Key) : List Statement → Option Document
  | [] => some d
  | .header key :: rest =>
    match d.openTable key with
    | none => none
    | some d => ((d.unmarkList key).note key).build key rest
  | .element key :: rest =>
    match d.openElement key with
    | none => none
    | some d => ((d.unmarkList key).note key).build key rest
  | .assign key v :: rest =>
    match d.absorbFields context [] [(key, v)] with
    | none => none
    | some (d, _) => d.build context rest

/-- The document of a settings file, or `none` if it is malformed. -/
def read (text : Bytes) : Option Document :=
  match scan text with
  | none => none
  | some statements => build {} [] statements

end Document

/-! ## Keys and strings as texts -/

/-- A character of a string in double quotes. -/
def quoteByte (b : UInt8) : Bytes :=
  match b.toNat with
  | 0x22 => "\\\""
  | 0x5c => "\\\\"
  | 0x08 => "\\b"
  | 0x09 => "\\t"
  | 0x0a => "\\n"
  | 0x0c => "\\f"
  | 0x0d => "\\r"
  | n => if n < 0x20 || n = 0x7f then "\\u" ++ Bytes.hex 4 n else [b]

def quote (s : Bytes) : Bytes := "\"" ++ s.flatMap quoteByte ++ "\""

/-- A part of a key, in quotes unless it is bare. -/
def renderPart (part : Bytes) : Bytes :=
  let bare (b : UInt8) : Bool := Bytes.isLetter b || Bytes.isDigit b || b = Bytes.ascii '_' || b = Bytes.ascii '-'
  if part.isEmpty || !part.all bare then quote part else part

def renderKey (key : Key) : Bytes := Bytes.join "." (key.map renderPart)

end Toml

end Bracescript
