import CommentStrip.Run.Command

/-! The program. It reads the directory it is started in, carries out the command line and
writes back what changed. -/
namespace CommentStrip.Main
open Text

partial def readTree (entry : IO.FS.DirEntry) : IO FileTree := do
  let info ← entry.path.metadata
  if info.type == .dir then
    let mut tree := FileTree.empty
    for below in ← entry.path.readDir do
      tree := FileTree.plant (← readTree below) [below.fileName.toList] tree
    return tree
  else
    let content := (← IO.FS.readBinFile entry.path).toList
    return .file content (startsWith ['#', '!'] (Utf8.decodeLossy (content.take 2)))

partial def readInput (stream : IO.FS.Stream) (read : ByteArray) : IO ByteArray := do
  let more ← stream.read 65536
  if more.isEmpty then return read else readInput stream (read ++ more)

def writeChanges (before now : FileTree) : IO Unit := do
  for (place, content) in FileTree.changes before now do
    IO.FS.writeBinFile (String.ofList (joinWith ['/'] place)) ⟨content.toArray⟩

def wantsInput (arguments : List (List Char)) : Bool :=
  match CommandLine.read arguments with
  | .ok ⟨_, .filter _⟩ => true
  | _ => false

def usageText : String :=
  "Usage: decomment [-q] [-d] [--disable-debug] <strip|scan|filter> [OPTIONS] [TARGET]\n"

def say (root : FileTree) : Run.Answer → IO UInt32
  | .usage .versionWanted => do
    IO.print "decomment 0.1.0\n"
    return 0
  | .usage .helpWanted => do
    IO.print usageText
    return 0
  | .usage _ => do
    IO.eprint usageText
    return 2
  | .failure failure => do
    IO.eprint ("Error: " ++ failure.message ++ "\n")
    return 1
  | .completion done => do
    writeChanges root done.tree
    IO.eprint done.errors
    IO.print done.output
    return if done.success then 0 else 1

end CommentStrip.Main

def main (arguments : List String) : IO UInt32 := do
  let words := arguments.map String.toList
  let root ← CommentStrip.Main.readTree ⟨".", ""⟩
  let input ← if CommentStrip.Main.wantsInput words then
    CommentStrip.Main.readInput (← IO.getStdin) .empty else pure .empty
  CommentStrip.Main.say root (CommentStrip.Run.answer root input.toList words)
