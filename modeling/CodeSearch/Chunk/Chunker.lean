import CodeSearch.Chunk.Extraction
import CodeSearch.Disk.Fault
import CodeSearch.Language.Basic
import CodeSearch.Syntax.Pattern.Reader

/-!
# Chunkers

A chunker cuts the files of one language into chunks. It is made once and used for
many files: the globs of its rules are read when it is made, and what became of a
query is remembered from its first use on, also when it is not well formed.
-/
namespace CodeSearch

/-- What makes patterns of the queries for a language. Like its trees, these come with its
grammar: which kinds and fields there are, and what else a query may ask, is known there. -/
class QueryCompiler where
  compile : Language → Naming.Compiler

/-- Queries as the reader takes them, whatever the language. -/
@[reducible] def QueryCompiler.plain : QueryCompiler where
  compile _ := Pattern.parse?

inductive ChunkError where
  | io (fault : IoFault)
  | unsupportedLanguage
  | ignored (file : String)
  | invalidRule (rule : InvalidRule)
  deriving DecidableEq, Repr

def ChunkError.message : ChunkError → String
  | io fault => "IO error: " ++ fault.message
  | unsupportedLanguage => "Unsupported language: " ++ Language.nameOrUnknown none
  | ignored file => "File " ++ file ++ " is classified as ignore"
  | invalidRule rule => rule.message

/-- A chunker: its table, the rules read from it, what makes patterns of a new query, and what
became of the queries used. -/
structure Chunker where
  table : Table
  classifier : Classifier
  compileNew : Naming.Compiler
  known : List (String × Option (List Pattern)) := []

namespace Chunker

def ofTable (compile : Naming.Compiler) (t : Table) : Except ChunkError Chunker :=
  match Classifier.ofRules t.rules with
  | .ok k => .ok { table := t, classifier := k, compileNew := compile }
  | .error rule => .error (.invalidRule rule)

/-- The chunker of a language that may not be supported, with the table of the
language or another one. -/
def create [QueryCompiler] (language : Option Language) (custom : Option Table := none) :
    Except ChunkError Chunker :=
  match language with
  | none => .error .unsupportedLanguage
  | some l => ofTable (QueryCompiler.compile l) (custom.getD l.table)

def classify (k : Chunker) (path : String) : FileType :=
  k.classifier.classify path

/-- The patterns of a query: what is remembered of it, or what is made of it anew. -/
def compile (k : Chunker) (query : String) : Option (List Pattern) :=
  match k.known.lookup query with
  | some outcome => outcome
  | none => k.compileNew query

def remember (k : Chunker) (query : String) : Chunker :=
  if (k.known.lookup query).isSome then k
  else { k with known := (query, k.compileNew query) :: k.known }

/-- The queries that a node of a kind is asked. -/
def queriesOf (t : Table) (kind : String) : List String :=
  match t.namedKind? kind with
  | none => []
  | some k => k.name :: (k.parent.toList ++ k.summary.toList)

mutual

def queriesOfSection (t : Table) : Section → List String
  | .mk g nested => (if g.alone then [] else queriesOf t g.node.kind) ++ queriesOfSections t nested

/-- The queries that the nodes of some sections are asked. -/
def queriesOfSections (t : Table) : List Section → List String
  | [] => []
  | s :: ss => queriesOfSection t s ++ queriesOfSections t ss

end

/-- Cut a source with its tree into chunks. The chunker comes back with what it has
learned of its queries. -/
def chunkSource (k : Chunker) (path source : String) (tree : Node) (now : Int) :
    Except ChunkError ChunkedFile × Chunker :=
  match k.classify path with
  | .ignored => (.error (.ignored path), k)
  | fileType =>
      let k := (queriesOfSections k.table (k.table.outline tree)).foldl remember k
      let x : Extraction := {
        table := k.table, compile := k.compile, source := source.toList
        file := path, fileType := fileType, parsedAt := now }
      (.ok ⟨path, x.chunks tree⟩, k)

end Chunker

end CodeSearch
