import CodeSearch.Chunk.Naming
import CodeSearch.Chunk.Summary

/-!
# Extraction of chunks

The chunks of a file are the sections of its outline in order, each one before those
nested in it. A chunk reaches from its first folded node to the end of its own node.
-/
namespace CodeSearch

/-- What an extraction works on: the file with its type, the time, the table, the
source text, and the patterns of queries. -/
structure Extraction where
  table : Table
  compile : Naming.Compiler
  source : List Char
  file : String
  fileType : FileType
  parsedAt : Int

namespace Extraction

/-- The label of a group. A folded node on its own goes by its content. -/
def labelOf (x : Extraction) (g : Group) : Label :=
  if g.alone then .byContent else Naming.labelOf x.compile x.table x.source g.node

def summaryNode (x : Extraction) (g : Group) : Node :=
  if g.alone then g.node else Naming.summaryNode x.compile x.table x.source g.node

def chunkOf (x : Extraction) (g : Group) (path : String) : Chunk where
  file := x.file
  fileType := x.fileType
  path := path
  summary := Summary.summarize (Naming.textOf x.source (x.summaryNode g))
  source := String.ofList (Text.slice x.source g.first.start g.node.stop)
  start := Text.positionAt x.source g.first.start
  stop := Text.positionAt x.source g.node.stop
  parsedAt := x.parsedAt

mutual

/-- The chunks of a section in a scope, and all paths taken behind it. -/
def ofSection (x : Extraction) (scope : String) (taken : List String) :
    Section → List Chunk × List String
  | .mk g nested =>
      let label := x.labelOf g
      let path := Naming.freePath taken (Naming.basePath label x.source scope g.node)
      let inner := ofSections x (Naming.innerScope label scope path) (path :: taken) nested
      (x.chunkOf g path :: inner.1, inner.2)

/-- The chunks of neighbouring sections in a scope, and all paths taken behind them. -/
def ofSections (x : Extraction) (scope : String) (taken : List String) :
    List Section → List Chunk × List String
  | [] => ([], taken)
  | s :: ss =>
      let front := ofSection x scope taken s
      let back := ofSections x scope front.2 ss
      (front.1 ++ back.1, back.2)

end

def chunks (x : Extraction) (root : Node) : List Chunk :=
  (x.ofSections "" [] (x.table.outline root)).1

end Extraction

end CodeSearch
