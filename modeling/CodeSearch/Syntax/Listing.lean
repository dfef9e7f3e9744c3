import CodeSearch.Number.Integer
import CodeSearch.Syntax.Tree

/-!
# Written syntax trees

Grammars live in other programs, which hand trees over as text. A tree is written in
preorder, one node on a line: its depth, its kind, its field or a dash, its first byte, the
byte behind its last one, and the sum of its marks, with tabs between them. The marks are
1 for a named node, 2 for an extra one, 4 for a missing one and 8 for an error.
-/
namespace CodeSearch.Node

def number? (text : String) : Option Nat :=
  (Integer.parseNat text.toList).toOption

def ofRow? (row : String) : Option (Nat × Node) :=
  match row.splitOn "\t" with
  | [depth, kind, field, start, stop, marks] => do
      let marks ← number? marks
      return (← number? depth, {
        kind
        field := if field = "-" then none else some field
        start := ← number? start
        stop := ← number? stop
        named := marks.testBit 0
        extra := marks.testBit 1
        missing := marks.testBit 2
        error := marks.testBit 3 })
  | _ => none

/-- The tree of a text with a row for each node. -/
def ofText? (text : String) : Option Node := do
  let rows ← ((text.splitOn "\n").filter (!·.isEmpty)).mapM ofRow?
  ofPreorder? rows

end CodeSearch.Node
