import CodeSearch.Json.Reader
import CodeSearch.Json.Writer
import CodeSearch.Store.Document

/-!
# Records of the document log

A record puts a document or deletes an identifier. It is written as JSON on one line:
an object whose only member is named for what is done. When a document is read, each
of its four members has to be there once; members with other names are passed over.
-/
namespace CodeSearch

inductive Record where
  | put (d : StoredDocument)
  | delete (id : String)

namespace Record

/-- The member of a name that occurs once. -/
def only? (name : String) (members : List (String × Json)) : Option Json :=
  match members.filter fun m => m.1 == name with
  | [m] => some m.2
  | _ => none

def metadata? : Json → Option Metadata
  | .object members => do
      let entries ← members.mapM fun m => (m.2.string?).map fun s => (m.1, s)
      return .ofList entries
  | _ => none

def embedding? : Json → Option Embedding
  | .array items => items.mapM fun
      | .number d => some d.toSingle
      | _ => none
  | _ => none

def document? : Json → Option StoredDocument
  | .object members => do
      let id ← (only? "id" members).bind Json.string?
      let content ← (only? "content" members).bind Json.string?
      let metadata ← (only? "metadata" members).bind metadata?
      let embedding ← (only? "embedding" members).bind embedding?
      return { id, content, metadata, embedding }
  | _ => none

def ofJson? : Json → Option Record
  | .object [(what, value)] =>
      if what = "put" then (document? value).map put
      else if what = "delete" then value.string?.map delete
      else none
  | _ => none

def parse? (line : List Char) : Option Record :=
  (Json.Reader.parse? line).bind ofJson?

open Json.Writer in
def ofDocument (d : StoredDocument) : List Char :=
  ofMembers [
    ("id", ofString d.id),
    ("content", ofString d.content),
    ("metadata", ofMembers (d.metadata.entries.map fun e => (e.1, ofString e.2))),
    ("embedding", ofItems (d.embedding.map ofSingle))]

open Json.Writer in
/-- A record as it is written, without the end of its line. -/
def print : Record → List Char
  | put d => ofMembers [("put", ofDocument d)]
  | delete id => ofMembers [("delete", ofString id)]

def apply (c : Catalog StoredDocument) : Record → Catalog StoredDocument
  | put d => c.insert d.id d
  | delete id => c.erase id

end Record

end CodeSearch
