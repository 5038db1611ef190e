import Montage.Progress
import Montage.Text.Aligned

/- Progress as a terminal shows it: each stage has one line that is written over. -/
namespace Montage.Console

def stageTitle : Stage → String
  | .preparing => "Preparing"
  | .rendering => "Rendering"
  | .encoding => "Encoding"
  | .finalizing => "Finalizing"
  | .complete => "Complete"
  | .failed => "Failed"

/-- Blanks that cover what an earlier message left. -/
def cover : String := String.ofList (List.replicate 10 ' ')

def reportText (r : Report) : String :=
  match r.stage with
  | .complete => "  " ++ r.message ++ "\n"
  | .failed => "  Failed: " ++ r.message ++ "\n"
  | stage =>
    "\r  " ++ stageTitle stage ++ ": " ++ Text.toRight 3 (toString r.percent) ++ "% " ++ r.message ++
      cover

/-- A new stage begins on a new line. -/
def progressText : Option Stage → List Report → String
  | _, [] => ""
  | last, r :: rest =>
    let lineBreak := match last with
      | some s => if s = r.stage then "" else "\n"
      | none => ""
    lineBreak ++ reportText r ++ progressText (some r.stage) rest

end Montage.Console
