import CodeSearch.Analyzer.Session
import CodeSearch.CommandLine.Parser

/-!
# Commands

Each command opens the workspace, brings its index in line with the disk, answers, and
closes it again. Only watching goes on until it is interrupted.
-/
namespace CodeSearch

/-- The errors that an error comes from, the nearest first. -/
def StoreError.causes : StoreError → List String
  | io fault => [fault.message]
  | _ => []

/-- The errors that an error comes from, the nearest first. -/
def ChunkError.causes : ChunkError → List String
  | io fault => [fault.message]
  | _ => []

/-- The errors that an error comes from, the nearest first. -/
def IndexError.causes : IndexError → List String
  | io fault => [fault.message]
  | chunker e => e.message :: e.causes
  | store e => e.message :: e.causes
  | config => [configReason]
  | _ => []

namespace CommandLine

structure Outcome where
  code : Nat
  output : String := ""
  report : String := ""
  deriving DecidableEq, Repr

/-- The lines of a text with something in front of all but the first. -/
def indentRest (indent text : String) : String :=
  String.ofList (text.toList.flatMap fun c => if c = '\n' then '\n' :: indent.toList else [c])

/-- An error with what it comes from. Several causes are numbered. -/
def report (message : String) (causes : List String) : String :=
  "Error: " ++ message ++
    match causes with
    | [] => ""
    | [cause] => "\n\nCaused by:\n    " ++ indentRest "    " cause
    | causes =>
        "\n\nCaused by:" ++ String.join (causes.zipIdx.map fun (cause, n) =>
          "\n    " ++ n.repr ++ ": " ++ indentRest "       " cause)

def failure (message : String) (causes : List String) : Outcome where
  code := 1
  report := report message causes

/-- A command that failed while something was being done. -/
def failureWhile (doing : String) (e : IndexError) : Outcome :=
  failure doing (e.message :: e.causes)

def hits : Except IndexError (List Hit) → Outcome
  | .error e => failure e.message e.causes
  | .ok [] => { code := 0, output := "No results\n" }
  | .ok found => { code := 0, output := Hit.listing found ++ "\n" }

/-- The name of the program and its version. -/
def versionText : String := "codescope 0.1.0\n"

/-- How the program is used. -/
def helpText : String :=
  "Incremental code chunk index and search\n\nUsage: codescope [OPTIONS] <COMMAND>\n\nCommands:\n" ++
    String.join (commands.map fun c =>
      "  " ++ c.1 ++ "".pushn ' ' (9 - c.1.length) ++ c.2 ++ "\n") ++
    "\nOptions:\n      --root <ROOT>  Workspace root [env: " ++ Config.rootVariable ++
    "=] [default: .]\n  -h, --help         Print help\n  -V, --version      Print version\n"

/-- What a command comes to at first: it is finished, or it watches from now on. -/
inductive Reply where
  | finished (o : Outcome)
  | watching (x : Session)

variable [QueryCompiler]

/-- Do a command other than watching in an open workspace. -/
def answer (s : Surroundings) (x : Session) : Command → Outcome × Session
  | .search query types =>
      let r := x.analyzer.search s query types
      (hits r.1, { x with analyzer := r.2 })
  | .similar id =>
      let r := x.analyzer.findSimilar s id
      (hits r.1, { x with analyzer := r.2 })
  | .source ids =>
      let r := x.analyzer.sources s ids
      ({ code := 0, output := r.1 }, { x with analyzer := r.2 })
  | .status => ({ code := 0, output := x.analyzer.status.line s.now ++ "\n" }, x)
  | .index =>
      ({ code := 0
         output := "Indexed " ++ x.analyzer.index.files.length.repr ++ " files. " ++
           x.analyzer.status.line s.now ++ "\n" }, x)
  | .watch => ({ code := 0 }, x)

def settings (s : Surroundings) (root : String) : Except IndexError Config :=
  match Config.load s.disk (Path.join s.here.path root) with
  | .ok c => .ok c
  | .error (.unreadable fault) => .error (.io fault)
  | .error .invalid => .error .config

/-- Do what the arguments ask for, and tell what has become of the disk. -/
def invoke (s : Surroundings) (i : Invocation) : Reply × Disk :=
  match settings s i.root with
  | .error e => (.finished (failureWhile ("loading config under " ++ i.root) e), s.disk)
  | .ok config =>
      let config := { config with watch := i.command = .watch }
      match Session.start s i.root config with
      | (.error e, disk) => (.finished (failureWhile ("opening workspace " ++ i.root) e), disk)
      | (.ok x, disk) =>
          let s := { s with disk }
          if i.command = .watch then (.watching x, disk)
          else
            let (o, x) := answer s x i.command
            (.finished o, x.save s)

/-- Do what the arguments ask for. The workspace is `default` unless they name one. -/
def run (s : Surroundings) (default : Option String) (args : List String) : Reply × Disk :=
  match parse default args with
  | .run i => invoke s i
  | .help => (.finished { code := 0, output := helpText }, s.disk)
  | .version => (.finished { code := 0, output := versionText }, s.disk)
  | .misuse =>
      (.finished {
        code := 2
        report := "error: the arguments cannot be used\n\nFor more information, try '--help'." },
        s.disk)

end CommandLine

end CodeSearch
