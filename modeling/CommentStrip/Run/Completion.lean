import CommentStrip.FileTree

/-! What a run leaves behind when it comes to its end. -/
namespace CommentStrip.Run

structure Completion where
  output : String
  errors : String
  success : Bool
  tree : FileTree

end CommentStrip.Run
