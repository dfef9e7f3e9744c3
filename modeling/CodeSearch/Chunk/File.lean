import CodeSearch.Chunk.Chunker
import CodeSearch.Disk.Basic

/-!
# Chunks of files on disk

Grammars are not part of this library: a function that gives the tree of a text is
supplied from outside, one for each language.
-/
namespace CodeSearch

/-- The tree of a text in a language. -/
abbrev Grammar := Language → String → Node

namespace Chunker

/-- Read a file of a workspace and cut it into chunks. A file that is ignored is not even
read. -/
def chunkFile (k : Chunker) (parse : String → Node) (d : Disk) (root : Location) (file : String)
    (now : Int) : Except ChunkError ChunkedFile × Chunker :=
  match k.classify file with
  | .ignored => (.error (.ignored file), k)
  | _ =>
      match d.readText (Path.join root.path file) with
      | .error fault => (.error (.io fault), k)
      | .ok source => k.chunkSource file source (parse source) now

end Chunker

end CodeSearch
