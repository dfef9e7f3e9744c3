import CodeSearch.Catalog
import CodeSearch.Embedding.Basic

/-!
# Embedding by a table

An embedder can know some texts by heart. Every other text gets a vector without length.
-/
namespace CodeSearch.Embedder

/-- The embedder of a table. The size that it promises is not checked against the table. -/
def ofTable (table : Catalog Embedding) (dimensions : Nat) : Embedder where
  model := "table"
  dimensions
  embedBatch texts :=
    .ok (texts.map fun t => (table.get? t).getD (List.replicate dimensions .zero))

end CodeSearch.Embedder
