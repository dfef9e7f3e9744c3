import CodeSearch.Catalog
import CodeSearch.Embedding.Basic

/-!
# Documents

A document is a text with an identifier and metadata. A filter is metadata as well: a
document matches it if it has every entry of the filter.
-/
namespace CodeSearch

/-- Texts under names. -/
abbrev Metadata := Catalog String

structure Document where
  id : String
  content : String
  metadata : Metadata

structure StoredDocument extends Document where
  embedding : Embedding

/-- Every entry of the filter is one of the document. -/
def Document.matchesFilter (d : Document) (filter : Metadata) : Bool :=
  filter.entries.all fun e => d.metadata.get? e.1 == some e.2

end CodeSearch
