import CommentStrip.Text.Basic

/-! The values of YAML documents. Scalars are texts; whether one was written without quotes
decides if it can also be read as something else. -/
namespace CommentStrip.Yaml

inductive Node where
  | scalar (text : List Char) (plain : Bool)
  | sequence (items : List Node)
  /-- Pairs in the order of the document; a key may come again. -/
  | mapping (entries : List (Node × Node))

def Node.blank : Node := .scalar [] true

end CommentStrip.Yaml
