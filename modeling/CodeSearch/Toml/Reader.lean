import CodeSearch.Toml.Number

/-!
# Reading a TOML document

A document is a sequence of lines: keys with values, and headers that say which table
the keys below them belong to. No key is given twice, and no table is opened twice.
-/
namespace CodeSearch.Toml

open CodeSearch.Toml.Text

mutual

/-- A value, and the rest. `depth` says how deep it may still be nested. -/
def value? (depth : Nat) : Nat → List Char → Option (Toml × List Char)
  | 0, _ => none
  | fuel + 1, cs =>
      match cs, depth with
      | [], _ => none
      | '[' :: _, 0 => none
      | '{' :: _, 0 => none
      | '[' :: cs, depth + 1 => (items? depth fuel cs).map fun r => (.array r.1, r.2)
      | '{' :: cs, depth + 1 =>
          match skipBlanks cs with
          | '}' :: cs => some (.table .braces [], cs)
          | cs => (fields? depth fuel [] cs).map fun r => (.table .braces r.1, r.2)
      | c :: cs, _ =>
          if c = '"' || c = '\'' then (string? (c :: cs)).map fun r => (.string r.1, r.2)
          else if c = 't' then (Json.Reader.word? "rue".toList cs).map fun cs => (.boolean true, cs)
          else if c = 'f' then
            (Json.Reader.word? "alse".toList cs).map fun cs => (.boolean false, cs)
          else Number.value? (c :: cs)

/-- The items of an array up to its closing bracket, and the rest. A comma may stand
behind the last one. -/
def items? (depth : Nat) : Nat → List Char → Option (List Toml × List Char)
  | 0, _ => none
  | fuel + 1, cs =>
      match skipLayout fuel cs with
      | ']' :: cs => some ([], cs)
      | cs => do
          let (item, cs) ← value? depth fuel cs
          match skipLayout fuel cs with
          | ']' :: cs => return ([item], cs)
          | ',' :: cs =>
              let (items, cs) ← items? depth fuel cs
              return (item :: items, cs)
          | _ => none

/-- The entries of a table in braces from one of them to the closing brace, behind those
that are already read, and the rest. -/
def fields? (depth : Nat) : Nat → Entries → List Char → Option (Entries × List Char)
  | 0, _, _ => none
  | fuel + 1, es, cs => do
      let (key, cs) ← key? depthLimit cs
      let (value, cs) ← value? depth fuel (skipBlanks (← Number.mark? '=' cs))
      let es ← addKey? .dotted key value es
      match skipBlanks cs with
      | '}' :: cs => return (es, cs)
      | ',' :: cs => fields? depth fuel es cs
      | _ => none

end

/-- A document that is being read: the tables that are finished, and the one to which
the next keys belong, with its header and whether that adds to an array of tables. -/
structure Draft where
  done : Entries := []
  current : Entries := []
  header : List String := []
  repeated : Bool := false

namespace Draft

/-- The last part of a header is done by `f` in the table that the others lead to. -/
def under (header : List String) (es : Entries) (f : String → Entries → Option Entries) :
    Option Entries :=
  match header.getLast? with
  | none => none
  | some name => descend? .path false (fun _ inner => f name inner) header.dropLast .header es

/-- Put the current table to those that are finished. -/
def finish? (d : Draft) : Option Entries :=
  if d.header.isEmpty then some d.current
  else
    under d.header d.done fun name es =>
      if d.repeated then
        match es.lookup name with
        | none => some (put name (.tables [d.current]) es)
        | some (.tables items) => some (put name (.tables (items ++ [d.current])) es)
        | some _ => none
      else
        match es.lookup name with
        | none => some (put name (.table .header d.current) es)
        | some (.table origin _) =>
            if origin.isOpen then some (put name (.table .header d.current) es) else none
        | some _ => none

/-- Begin the table of a header. A table that only longer headers have gone through is
taken up again. -/
def begin? (d : Draft) (header : List String) : Option Draft := do
  let done ← d.finish?
  let _ ← under header done fun name es =>
    match es.lookup name with
    | none => some es
    | some (.table .path _) => some es
    | some _ => none
  let found := reopened header done
  return { done, current := found, header, repeated := false }
where
  /-- The entries that a table already has. -/
  reopened : List String → Entries → Entries
    | [], es => es
    | name :: names, es =>
        match es.lookup name with
        | some (.table _ inner) => reopened names inner
        | some (.tables items) => reopened names (items.getLast?.getD [])
        | _ => []

/-- Begin a further table of an array. -/
def beginItem? (d : Draft) (header : List String) : Option Draft := do
  let done ← d.finish?
  let _ ← under header done fun name es =>
    match es.lookup name with
    | none => some es
    | some (.tables _) => some es
    | some _ => none
  return { done, current := [], header, repeated := true }

end Draft

def lines? : Nat → Draft → List Char → Option Draft
  | 0, _, _ => none
  | fuel + 1, d, cs =>
      match skipLayout (cs.length + 1) cs with
      | [] => some d
      | '#' :: cs => if (skipComment ('#' :: cs)).isEmpty then some d else none
      | '[' :: '[' :: cs => do
          let (key, cs) ← key? depthLimit cs
          let d ← d.beginItem? key
          match cs with
          | ']' :: ']' :: cs => lines? fuel d (← lineEnd? cs)
          | _ => none
      | '[' :: cs => do
          let (key, cs) ← key? depthLimit cs
          let d ← d.begin? key
          match cs with
          | ']' :: cs => lines? fuel d (← lineEnd? cs)
          | _ => none
      | cs => do
          let (key, cs) ← key? depthLimit cs
          let (value, cs) ← value? depthLimit (2 * cs.length + 2)
            (skipBlanks (← Number.mark? '=' cs))
          let current ← addKey? .dotted key value d.current
          lines? fuel { d with current } (← lineEnd? cs)

/-- The character that some editors put in front of a document. -/
def dropMark : List Char → List Char
  | c :: cs => if c.toNat = 0xFEFF then cs else c :: cs
  | [] => []

def parse? (text : String) : Option Entries :=
  let cs := dropMark text.toList
  (lines? (cs.length + 1) {} cs).bind Draft.finish?

end CodeSearch.Toml
