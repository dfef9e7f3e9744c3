import Std.Time.DateTime.Timestamp
import CodeSearch.CommandLine.Run
import CodeSearch.Disk.Difference
import CodeSearch.Syntax.Listing

/-!
# The program

The workspace is read from the disk, the command is done, and what has changed is written
back. Syntax trees are made by other programs and found below `.codescope/trees`, each
under the name of its language and the digest of its text. Only queries of the built-in
tables are asked, and the plain reader knows all their forms.
-/
namespace CodeSearch.Program

attribute [local instance] QueryCompiler.plain

/-- The names of a path from the top. -/
def locationOf (path : String) : Location :=
  (Path.components path).filterMap fun
    | .normal name => some name
    | _ => none

/-- Where the trees of a workspace are found. -/
def treesName : Location := [".codescope", "trees"]

/-- The content of a file matters. -/
def matters (l : Location) : Bool :=
  let name := l.getLastD ""
  (Language.ofPath? l.path).isSome || isHidden name || l.any isHidden ||
    name == LogFile.fileName || name == LogFile.draftName

/-- Add a file of the real disk. -/
def readFile (l : Location) (d : Disk) : IO Disk := do
  try
    let path ← IO.FS.realPath l.path
    let metadata ← path.metadata
    let bytes ← if matters l then IO.FS.readBinFile path else pure .empty
    return d.set l (.file bytes metadata.modified.sec)
  catch _ => return d

/-- Add a directory of the real disk with all that is in it. Of directories that hold no
sources only the list of ignored files is read. -/
partial def readDirectory (l : Location) (d : Disk) : IO Disk := do
  let mut d := d.set l .directory
  let path ← IO.FS.realPath l.path
  for entry in ← path.readDir do
    let inner := l ++ [entry.fileName]
    let metadata ← entry.path.metadata
    match metadata.type with
    | .dir =>
        if entry.fileName == ".git" then
          d := d.set inner .directory
          d := d.set (inner ++ ["info"]) .directory
          d ← readFile (inner ++ ["info", "exclude"]) d
        else if unscannedNames.contains entry.fileName then d := d.set inner .directory
        else d ← readDirectory inner d
    | .file => d ← readFile inner d
    | _ => pure ()
  return d

/-- Add the ignore files of the directories around a workspace. -/
def readAround (l : Location) (d : Disk) : IO Disk := do
  let mut d := d
  for dir in Disk.way l.dropLast do
    d := d.set dir .directory
    for name in [".ignore", gitignoreName] do
      d ← readFile (dir ++ [name]) d
  return d

/-- The real disk as far as it matters to a workspace. -/
def readDisk (path : String) : IO Disk := do
  let real := (← IO.FS.realPath path).toString
  let l := locationOf real
  let d ← readAround l {}
  if ← (← IO.FS.realPath path).isDir then readDirectory l d
  else readFile l d

/-- The grammars that the trees of a workspace stand for. -/
def grammarOf (d : Disk) (root : Location) : Grammar := fun l text =>
  let name := l.name ++ "-" ++ Digest.ofText text
  let listing := d.bytes? (root ++ treesName ++ [name])
  ((listing.bind String.fromUTF8?).bind Node.ofText?).getD
    { kind := "", start := 0, stop := text.utf8ByteSize }

/-- Bring the real disk in line with what a command has made of it. -/
def writeBack (before after : Disk) : IO Unit := do
  for change in before.changesTo after do
    match change with
    | .makeDirectory l => IO.FS.createDirAll l.path
    | .write l bytes _ => IO.FS.writeBinFile l.path bytes
    | _ => pure ()

/-- The world around a workspace. -/
def surroundings (root : String) : IO Surroundings := do
  let disk ← readDisk root
  let now := (← Std.Time.Timestamp.now).toSecondsSinceUnixEpoch.val
  let place := locationOf (← IO.FS.realPath root).toString
  return { disk, now, grammar := grammarOf disk place, here := locationOf (← IO.currentDir).toString }

/-- How long to wait between two looks at a watched workspace, in milliseconds. -/
def pause : UInt32 := 500

/-- Keep the index of a workspace up to date until the program is interrupted. -/
partial def keepWatching (root : String) (x : Session) (last : Disk) : IO Unit := do
  IO.sleep pause
  let s ← surroundings root
  let step := fun (acc : Session × Disk) (c : DiskChange) =>
    let next := (acc.2.change c).toOption.getD acc.2
    ({ acc.1 with analyzer := acc.1.analyzer.observe { s with disk := next } acc.2 c }, next)
  let (x, _) := (last.changesTo s.disk).foldl step (x, last)
  let x := { x with analyzer := x.analyzer.tick s }
  let disk := x.save s
  writeBack s.disk disk
  keepWatching root x disk

def run (args : List String) : IO UInt32 := do
  let default ← IO.getEnv Config.rootVariable
  let root := match CommandLine.parse default args with
    | .run i => i.root
    | _ => "."
  let s ← surroundings root
  let (reply, disk) := CommandLine.run s default args
  writeBack s.disk disk
  match reply with
  | .watching x =>
      keepWatching root x disk
      return 0
  | .finished o =>
      IO.print o.output
      if !o.report.isEmpty then IO.eprintln o.report
      return o.code.toUInt32

end CodeSearch.Program

def main (args : List String) : IO UInt32 :=
  CodeSearch.Program.run args
