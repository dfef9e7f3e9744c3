import CodeSearch.Disk.Basic
import CodeSearch.FileType
import CodeSearch.Toml.Reader

/-!
# Configuration

A workspace may have a configuration file. What it does not set keeps its default, and
what it sets besides the known keys is passed over; a known key with a value of another
kind makes the whole file invalid.
-/
namespace CodeSearch

structure Config where
  /-- How long no file may have changed before changes are taken in. -/
  debounceSeconds : Nat := 60
  /-- The floor of a search. Similar chunks have to reach twice this value. -/
  minSimilarity : Single := .ofRatio false 3 10
  maxResults : Nat := 30
  similarMaxResults : Nat := 10
  /-- The types that a search goes through if it names none. -/
  defaultFileTypes : List FileType := [.src, .docs]
  /-- Where the store is kept, seen from the workspace. -/
  storeDirectory : String := ".codescope/db"
  watch : Bool := true
  deriving DecidableEq, Repr

namespace Config

/-- Where the configuration file lies in a workspace. -/
def fileName : String := ".codescope/config.toml"

/-- The variable that names the workspace. -/
def rootVariable : String := "CODE_SEARCH_WORKSPACE_ROOT"

/-- The workspace that the variable names; an empty value names none. -/
def rootOf (value : Option String) : String :=
  match value with
  | some root => if root.isEmpty then "." else root
  | none => "."

/-- A number that is not negative. -/
def natural? : Toml → Option Nat
  | .integer n => if 0 ≤ n then some n.toNat else none
  | _ => none

/-- A number, with or without a point. -/
def single? : Toml → Option Single
  | .integer n => some (Decimal.toSingle ⟨n < 0, n.natAbs, 0⟩)
  | .float x => some x
  | _ => none

def boolean? : Toml → Option Bool
  | .boolean b => some b
  | _ => none

def string? : Toml → Option String
  | .string s => some s
  | _ => none

def isEmpty : Toml → Bool
  | .table _ [] => true
  | .array [] => true
  | _ => false

/-- A type by its name, or by a table in which nothing but this name stands, for nothing. -/
def fileType? : Toml → Option FileType
  | .string s => FileType.ofName? s
  | .table _ [(name, value)] => if isEmpty value then FileType.ofName? name else none
  | _ => none

/-- A list of types. -/
def fileTypes? : Toml → Option (List FileType)
  | .array items => items.mapM fileType?
  | .tables items => items.mapM fun es => fileType? (.table .header es)
  | _ => none

/-- The value of a key, or its default if the key is not there. -/
def value? {α : Type} (es : Toml.Entries) (key : String) (read : Toml → Option α) (default : α) :
    Option α :=
  match es.lookup key with
  | none => some default
  | some v => read v

/-- The settings of a document. -/
def ofEntries? (es : Toml.Entries) : Option Config := do
  let c : Config := {}
  let debounceSeconds ← value? es "debounce_secs" natural? c.debounceSeconds
  let minSimilarity ← value? es "min_similarity" single? c.minSimilarity
  let maxResults ← value? es "max_results" natural? c.maxResults
  let similarMaxResults ← value? es "similar_max_results" natural? c.similarMaxResults
  let defaultFileTypes ← value? es "default_file_types" fileTypes? c.defaultFileTypes
  let storeDirectory ← value? es "store_dir" string? c.storeDirectory
  let watch ← value? es "watch" boolean? c.watch
  return {
    debounceSeconds, minSimilarity, maxResults, similarMaxResults, defaultFileTypes
    storeDirectory, watch }

/-- The settings that a text describes. -/
def ofText? (text : String) : Option Config :=
  (Toml.parse? text).bind ofEntries?

inductive Fault where
  | unreadable (fault : IoFault)
  | invalid
  deriving DecidableEq, Repr

/-- The settings of the workspace that a path leads to. -/
def load (d : Disk) (root : String) : Except Fault Config :=
  let path := Path.join root fileName
  if d.has path then
    match d.readText path with
    | .error fault => .error (.unreadable fault)
    | .ok text =>
        match ofText? text with
        | some c => .ok c
        | none => .error .invalid
  else .ok {}

def storePath (c : Config) (root : String) : String :=
  Path.join root c.storeDirectory

end Config

end CodeSearch
