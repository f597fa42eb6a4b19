import Workbench.Json.Basic
import Workbench.Text.Lines
set_option autoImplicit false

namespace Workbench.PlainText

def measure (text : List Char) : Json :=
  .object [("bytes", .ofNat (text.foldl (fun n c => n + c.utf8Size) 0)),
    ("line_count", .ofNat (Text.lines text).length)]

end Workbench.PlainText
