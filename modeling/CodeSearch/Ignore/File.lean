import CodeSearch.Disk.Basic
import CodeSearch.Ignore.Pattern

/-!
# Ignore files

An ignore file speaks about everything below its directory. Of several files the one
nearest to a path is asked first, and the first that has an opinion decides.
-/
namespace CodeSearch

structure IgnoreFile where
  directory : Location
  patterns : List Ignore.Pattern

namespace IgnoreFile

/-- The steps from the directory to a location below it. -/
def below? (f : IgnoreFile) (l : Location) : Option Location :=
  if f.directory.isPrefixOf l && f.directory.length < l.length then
    some (l.drop f.directory.length)
  else none

def judge (f : IgnoreFile) (steps : Location) (isDirectory : Bool) : Option Ignore.Verdict :=
  Ignore.verdict? f.patterns ("/".intercalate steps) isDirectory

def verdict? (f : IgnoreFile) (l : Location) (isDirectory : Bool) : Option Ignore.Verdict :=
  (f.below? l).bind fun steps => f.judge steps isDirectory

/-- What the file says of the directories that `steps` come from, the nearest first and
its own directory last. -/
def judgeParents (f : IgnoreFile) : Nat → Location → Option Ignore.Verdict
  | 0, _ => none
  | n + 1, steps => (f.judge steps.dropLast true).or (judgeParents f n steps.dropLast)

/-- What the file says of a location or, failing that, of a directory around it. -/
def verdictUpwards? (f : IgnoreFile) (l : Location) (isDirectory : Bool) :
    Option Ignore.Verdict :=
  (f.below? l).bind fun steps =>
    (f.judge steps isDirectory).or (f.judgeParents steps.length steps)

/-- Deeper directories come first. -/
def deeper (a b : IgnoreFile) : Bool :=
  b.directory.length ≤ a.directory.length

def inDirectory? (d : Disk) (name : Location) (directory : Location) : Option IgnoreFile :=
  (d.bytes? (directory ++ name)).map fun bytes => ⟨directory, Ignore.patternsOfFile bytes⟩

/-- The files of a name in some directories, the deepest first. -/
def collect (d : Disk) (name : Location) (directories : List Location) : List IgnoreFile :=
  (directories.filterMap (inDirectory? d name)).mergeSort deeper

end IgnoreFile

/-- The name of the files whose rules also hold while the disk is watched. -/
def gitignoreName : String := ".gitignore"

structure IgnoreRules where
  files : List IgnoreFile := []

namespace IgnoreRules

/-- The nearest file with an opinion on a location or a directory around it ignores it. -/
def isIgnored (rules : IgnoreRules) (l : Location) (isDirectory : Bool) : Bool :=
  (rules.files.findSome? fun f => f.verdictUpwards? l isDirectory) = some .ignored

end IgnoreRules

end CodeSearch
