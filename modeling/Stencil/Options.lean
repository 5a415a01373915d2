import Stencil.Calendar.Pattern
import Stencil.Error

/-! How values are rendered and which parts of a document are filled. -/

namespace Stencil

structure FlowOptions where
  headers : Bool := true
  footers : Bool := true
  /-- Whether header and footer tables are expanded. Body tables always are. -/
  expandPartTables : Bool := false
  deriving DecidableEq, Repr

structure FillOptions where
  dateFormat : String := "%Y-%m-%d %H:%M:%S"
  /-- Stands between the items of a sequence that is written as text. -/
  sequenceSeparator : String := ", "
  flow : FlowOptions := {}
  deriving DecidableEq, Repr

namespace FillOptions

def validate (options : FillOptions) : Except FillError Unit :=
  if Calendar.isPattern options.dateFormat then .ok ()
  else .error (.invalidDateFormat options.dateFormat)

end FillOptions

end Stencil
