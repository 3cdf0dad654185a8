import CommentStrip.Console
import CommentStrip.Json
import CommentStrip.Tally

/-! What a scan found, file by file and in all. -/
namespace CommentStrip
open Console

structure FileScan where
  path : List Char
  grammar : String
  tally : Tally
  deriving DecidableEq, Repr

structure Report where
  files : List FileScan
  scanned : Nat
  /-- Files that are no text. -/
  skipped : List (List Char)
  total : Tally
  deriving DecidableEq, Repr

namespace Report

def empty : Report := ⟨[], 0, [], .zero⟩

def add (r : Report) (file : FileScan) : Report :=
  ⟨r.files ++ [file], r.scanned + 1, r.skipped, r.total.merge file.tally⟩

def skip (r : Report) (path : List Char) : Report :=
  ⟨r.files, r.scanned, r.skipped ++ [path], r.total⟩

def exceeds (r : Report) (threshold : Option Nat) : Bool :=
  threshold.any fun limit => decide (limit < r.total.removed)

def fileLine (file : FileScan) : String :=
  line ("  " ++ String.ofList file.path ++ " (" ++ file.grammar ++ "): " ++
    toString file.tally.removed ++ " removable, " ++ toString file.tally.kept ++ " kept")

def view (colored : Bool) (r : Report) : String :=
  line (Style.header.paint colored "Comment scan") ++
    String.join ((r.files.filter fun file => file.tally.total ≠ 0).map fileLine) ++
    line ("Total: " ++ toString r.total.removed ++ " removable comment(s), " ++
      toString r.total.kept ++ " kept, in " ++ toString r.scanned ++ " file(s).")

def fileJson (file : FileScan) : Json.Value :=
  .object [("path", .text file.path), ("grammar", .text file.grammar.toList),
    ("comments_removed", .number file.tally.removed), ("comments_kept", .number file.tally.kept)]

def json (r : Report) : Json.Value :=
  .object [("files", .array (r.files.map fileJson)), ("files_scanned", .number r.scanned),
    ("skipped", .array (r.skipped.map .text)), ("total_removable", .number r.total.removed),
    ("total_kept", .number r.total.kept)]

def prettyJson (r : Report) : String := Json.pretty 0 r.json

end Report
end CommentStrip
