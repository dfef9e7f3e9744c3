import CodeSearch.Number.Single

/-!
# TOML tables

A table is filled by key paths, by headers and by inline tables, and each of these may
extend only what was begun in its own way. `descend?` goes down a path of tables and
changes the last one; it refuses a path that would reopen a finished table.
-/
namespace CodeSearch

inductive Toml.Origin where
  /-- Its own header, or the whole document. -/
  | header
  /-- A longer header that goes through it. -/
  | path
  /-- A key with dots that goes through it. -/
  | dotted
  /-- Braces. -/
  | braces
  deriving DecidableEq, Repr

/-- A value of a document. Of dates and times it is only known that they are well formed. -/
inductive Toml where
  | string (s : String)
  | integer (n : Int)
  | float (x : Single)
  | boolean (b : Bool)
  | moment
  | array (items : List Toml)
  | table (origin : Toml.Origin) (entries : List (String × Toml))
  | tables (items : List (List (String × Toml)))
  deriving Inhabited, Repr

namespace Toml

abbrev Entries := List (String × Toml)

/-- A table may still be extended by a key with dots. -/
def Origin.isOpen : Origin → Bool
  | header => false
  | path => true
  | dotted => true
  | braces => false

def put (name : String) (value : Toml) : Entries → Entries
  | [] => [(name, value)]
  | e :: es => if e.1 = name then (name, value) :: es else e :: put name value es

/-- Change the entries at the end of a path. Tables that are missing on the way are made
with the origin `made`; `byKey` says that the path is a key with dots, which may not go
through tables with a header or braces. The function sees the origin of the last table. -/
def descend? (made : Origin) (byKey : Bool) (f : Origin → Entries → Option Entries) :
    List String → Origin → Entries → Option Entries
  | [], origin, es => f origin es
  | name :: names, _, es => do
      match es.lookup name with
      | none => return put name (.table made (← descend? made byKey f names made [])) es
      | some (.table origin inner) =>
          if byKey && !origin.isOpen then none
          else return put name (.table origin (← descend? made byKey f names origin inner)) es
      | some (.tables items) =>
          match items.getLast? with
          | none => none
          | some last =>
              let last ← descend? made byKey f names .header last
              return put name (.tables (items.dropLast ++ [last])) es
      | some _ => none

/-- Put a value under a name that is still free. -/
def add? (name : String) (value : Toml) (es : Entries) : Option Entries :=
  match es.lookup name with
  | none => some (es ++ [(name, value)])
  | some _ => none

/-- Put a value under a key, which may have dots. Every table that the key goes through
has to come from keys with dots. -/
def addKey? (made : Origin) (key : List String) (value : Toml) (es : Entries) : Option Entries :=
  match key.getLast? with
  | none => none
  | some name =>
      let way := key.dropLast
      descend? made true (fun origin inner =>
        if !way.isEmpty && origin != .dotted then none else add? name value inner)
        way .header es

end Toml

end CodeSearch
