import CodeSearch.Ignore.File
import CodeSearch.Language.Basic

/-!
# Scanning a workspace

A scan goes down from a root and leaves out what is hidden, ignored, excluded or known
not to hold sources, with everything below it. Three kinds of ignore files are heard:
`.ignore` before `.gitignore` before `.git/info/exclude`, each from the directory of the
entry upwards, beyond the root if need be.
-/
namespace CodeSearch

/-- Names of directories that never hold sources to be indexed. -/
def unscannedNames : List String :=
  [".git", ".hg", ".svn", "node_modules", "target", "dist", "build", "coverage", "__pycache__"]

/-- A name that starts with a dot. -/
def isHidden (name : String) : Bool :=
  name.toList.head? = some '.'

structure Scanner where
  root : Location
  excluded : List String := []

/-- All ignore files of a disk, by kind, each with the deepest first. -/
structure IgnoreFiles where
  plain : List IgnoreFile
  versioned : List IgnoreFile
  unshared : List IgnoreFile

namespace IgnoreFiles

def ofDisk (d : Disk) : IgnoreFiles where
  plain := IgnoreFile.collect d [".ignore"] d.directories
  versioned := IgnoreFile.collect d [gitignoreName] d.directories
  unshared := IgnoreFile.collect d [".git", "info", "exclude"] d.directories

def verdict? (files : IgnoreFiles) (l : Location) (isDirectory : Bool) : Option Ignore.Verdict :=
  let ask := fun (fs : List IgnoreFile) => fs.findSome? fun f => f.verdict? l isDirectory
  (ask files.plain).or ((ask files.versioned).or (ask files.unshared))

end IgnoreFiles

namespace Scanner

/-- A location lies in an excluded directory. -/
def excludes (s : Scanner) (l : Location) : Bool :=
  s.excluded.any fun dir => Path.isUnder l.path dir

/-- A location below the root is not left out on its own account. What is hidden is left
out unless an ignore file takes it back. -/
def admits (s : Scanner) (files : IgnoreFiles) (l : Location) (isDirectory : Bool) : Bool :=
  let name := l.getLastD ""
  let shown := match files.verdict? l isDirectory with
    | some .ignored => false
    | some .kept => true
    | none => !isHidden name
  shown && !s.excludes l && !unscannedNames.contains name

/-- The scan gets to a location: neither it nor a directory between it and the root is
left out. -/
def reaches (s : Scanner) (files : IgnoreFiles) (l : Location) (isDirectory : Bool) : Bool :=
  s.root.isPrefixOf l &&
    (List.range' (s.root.length + 1) (l.length - s.root.length)).all fun n =>
      s.admits files (l.take n) (n < l.length || isDirectory)

/-- The supported files that the scan gets to, in the order of their paths. -/
def files (s : Scanner) (d : Disk) : List Location :=
  let ignores := IgnoreFiles.ofDisk d
  (d.files.filter fun l =>
    s.reaches ignores l false && (Language.ofPath? l.path).isSome).mergeSort Location.precedes

/-- The directories that the scan gets to, in the order of their paths. -/
def directories (s : Scanner) (d : Disk) : List Location :=
  let ignores := IgnoreFiles.ofDisk d
  (d.directories.filter fun l => s.reaches ignores l true).mergeSort Location.precedes

/-- The rules of the directories that the scan gets to. -/
def ignoreRules (s : Scanner) (d : Disk) : IgnoreRules where
  files := IgnoreFile.collect d [gitignoreName] (s.directories d)

end Scanner

end CodeSearch
