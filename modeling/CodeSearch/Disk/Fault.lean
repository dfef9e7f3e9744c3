/-!
# Faults of files

The operating system refuses some uses of a path; each refusal has a fixed wording.
-/
namespace CodeSearch

/-- What the operating system answers when a file cannot be used. -/
inductive IoFault where
  | notFound
  | fileExists
  | notDirectory
  | isDirectory
  | notText
  | other (reason : String)
  deriving DecidableEq, Repr

def IoFault.message : IoFault → String
  | notFound => "No such file or directory (os error 2)"
  | fileExists => "File exists (os error 17)"
  | notDirectory => "Not a directory (os error 20)"
  | isDirectory => "Is a directory (os error 21)"
  | notText => "stream did not contain valid UTF-8"
  | other reason => reason

end CodeSearch
