import CodeSearch.FileType

/-!
# Reading the command line

Arguments are read from left to right, and the first that cannot be right decides, unless
help has been asked for before. Options stand before the command or belong to it; behind
a double dash nothing is an option.
-/
namespace CodeSearch

inductive Command where
  | search (query : String) (types : List FileType)
  | similar (id : String)
  | source (ids : List String)
  | status
  | index
  | watch
  deriving DecidableEq, Repr

structure Invocation where
  root : String
  command : Command
  deriving DecidableEq, Repr

inductive Usage where
  | run (i : Invocation)
  | help
  | version
  | misuse
  deriving DecidableEq, Repr

namespace CommandLine

def commands : List (String × String) := [
  ("search", "Search chunks by free text"),
  ("similar", "Chunks similar to an indexed chunk"),
  ("source", "Print the current source of chunks"),
  ("status", "Show indexing status"),
  ("index", "Reconcile the whole workspace and wait for it"),
  ("watch", "Keep the index up to date until Ctrl-C"),
  ("help", "Print this message or the help of the given subcommand(s)")]

def isCommand (name : String) : Bool :=
  (commands.map (·.1)).contains name

/-- An argument that is read as an option. -/
def isOption (arg : String) : Bool :=
  arg.startsWith "-" && arg != "-"

def asksHelp (arg : String) : Bool :=
  arg == "--help" || (!arg.startsWith "--" && arg.startsWith "-h")

def asksVersion (arg : String) : Bool :=
  arg == "--version" || (!arg.startsWith "--" && arg.startsWith "-V")

/-- The value of an option that is written together with its name. -/
def attached? (option arg : String) : Option String :=
  if (option ++ "=").toList.isPrefixOf arg.toList then
    some (String.ofList (arg.toList.drop (option.length + 1)))
  else none

structure Operands where
  plain : List String := []
  types : List FileType := []

/-- The words behind a command, its option for types being allowed or not, and as many
plain arguments as there is room for. -/
def operands (takesTypes : Bool) (room : Nat) : Operands → List String → Except Usage Operands
  | o, [] => .ok o
  | o, arg :: args =>
      if arg = "--" then
        if o.plain.length + args.length ≤ room then .ok { o with plain := o.plain ++ args }
        else .error .misuse
      else if asksHelp arg then .error .help
      else if takesTypes && arg = "--type" then
        match args with
        | value :: args =>
            if isOption value then .error .misuse
            else match FileType.parse value with
              | .ok t => operands takesTypes room { o with types := o.types ++ [t] } args
              | .error _ => .error .misuse
        | [] => .error .misuse
      else
        match (if takesTypes then attached? "--type" arg else none) with
        | some value =>
            match FileType.parse value with
            | .ok t => operands takesTypes room { o with types := o.types ++ [t] } args
            | .error _ => .error .misuse
        | none =>
            if isOption arg || room ≤ o.plain.length then .error .misuse
            else operands takesTypes room { o with plain := o.plain ++ [arg] } args

def command (name : String) (args : List String) : Except Usage Command :=
  if name = "search" then do
    match ← operands true 1 {} args with
    | ⟨[query], types⟩ => return .search query types
    | _ => throw .misuse
  else if name = "similar" then do
    match ← operands false 1 {} args with
    | ⟨[id], _⟩ => return .similar id
    | _ => throw .misuse
  else if name = "source" then do
    match ← operands false (args.length + 1) {} args with
    | ⟨[], _⟩ => throw .misuse
    | ⟨ids, _⟩ => return .source ids
  else if name = "status" then do
    let _ ← operands false 0 {} args
    return .status
  else if name = "index" then do
    let _ ← operands false 0 {} args
    return .index
  else if name = "watch" then do
    let _ ← operands false 0 {} args
    return .watch
  else if name = "help" then
    match args with
    | [] => throw .help
    | [topic] => throw (if isCommand topic then .help else .misuse)
    | _ => throw .misuse
  else throw .misuse

/-- The arguments from one of them on, the root being given before or not. -/
def invocation (default : Option String) : Option String → List String → Except Usage Invocation
  | _, [] => .error .misuse
  | given, arg :: args =>
      if arg = "--" then .error .misuse
      else if asksHelp arg then .error .help
      else if asksVersion arg then .error .version
      else if arg = "--root" then
        match args with
        | value :: args =>
            if given.isSome || value.isEmpty || isOption value then .error .misuse
            else invocation default (some value) args
        | [] => .error .misuse
      else
        match attached? "--root" arg with
        | some value =>
            if given.isSome || value.isEmpty then .error .misuse
            else invocation default (some value) args
        | none =>
            if isOption arg then .error .misuse
            else do
              let command ← command arg args
              let root := (given.or default).getD "."
              if root.isEmpty then throw .misuse
              return { root, command }

/-- What the arguments come to. The root that is given among them goes before `default`. -/
def parse (default : Option String) (args : List String) : Usage :=
  match invocation default none args with
  | .ok i => .run i
  | .error usage => usage

end CommandLine

end CodeSearch
