import CommentStrip.Markup.Scan

/-! Which rules a text is read by. The extension of a file name decides; its content never
does. -/
namespace CommentStrip

inductive Family where
  | python
  | script (jsx : Bool)
  | stylesheet (lineComments : Bool)
  | php
  | markup (variant : MarkupVariant)
  deriving DecidableEq, Repr

namespace Family

def name : Family → String
  | .python => "python"
  | .script false => "script"
  | .script true => "script+jsx"
  | .stylesheet false => "css"
  | .stylesheet true => "scss"
  | .php => "php"
  | .markup .html => "html"
  | .markup .blade => "blade"
  | .markup .jinja => "jinja"

def all : List Family :=
  [.python, .script false, .script true, .stylesheet false, .stylesheet true, .php,
    .markup .html, .markup .blade, .markup .jinja]

def ofName? (name : String) : Option Family := all.find? (·.name = name)

def table : List (String × Family) :=
  [("py", .python), ("js", .script false), ("ts", .script false), ("jsx", .script true),
    ("tsx", .script true), ("css", .stylesheet false), ("scss", .stylesheet true), ("php", .php),
    ("blade.php", .markup .blade), ("html", .markup .html), ("htm", .markup .html),
    ("jinja", .markup .jinja), ("jinja2", .markup .jinja), ("j2", .markup .jinja),
    ("twig", .markup .jinja)]

def ofExtension? (extension : String) : Option Family :=
  (table.find? (·.1 = extension)).map (·.2)

end Family
end CommentStrip
