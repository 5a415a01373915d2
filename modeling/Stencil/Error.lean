/-! Why reading, configuring or filling fails. -/

namespace Stencil

inductive FillError where
  | io (reason : String)
  | configParse (reason : String)
  | dataFile (path reason : String)
  | unsupportedDataFormat (format : String)
  | serialize (reason : String)
  | invalidDateFormat (pattern : String)
  | fragmentOutOfRange (index count : Nat)
  | rowOutOfRange (row count : Nat)
  | cancelled
  deriving DecidableEq, Repr

namespace FillError

def message : FillError → String
  | .io reason => reason
  | .configParse reason => "failed to parse config file: " ++ reason
  | .dataFile path reason => "failed to load data file `" ++ path ++ "`: " ++ reason
  | .unsupportedDataFormat format => "unsupported data file format: `" ++ format ++ "`"
  | .serialize reason => "failed to convert data into a fill value: " ++ reason
  | .invalidDateFormat pattern => "invalid date format: `" ++ pattern ++ "`"
  | .fragmentOutOfRange index count =>
      "alignment references fragment " ++ toString index ++ " but the paragraph only has "
        ++ toString count
  | .rowOutOfRange row count =>
      "row " ++ toString row ++ " is out of range for a table with " ++ toString count ++ " rows"
  | .cancelled => "the fill operation was cancelled"

/-- The stable name that an error is looked up by. -/
def code : FillError → String
  | .io _ => "docfill::io_error"
  | .configParse _ => "docfill::config_parse"
  | .dataFile _ _ => "docfill::data_file"
  | .unsupportedDataFormat _ => "docfill::unsupported_format"
  | .serialize _ => "docfill::serialize"
  | .invalidDateFormat _ => "docfill::invalid_date_format"
  | .fragmentOutOfRange _ _ => "docfill::fragment_out_of_range"
  | .rowOutOfRange _ _ => "docfill::row_out_of_range"
  | .cancelled => "docfill::cancelled"

def help : FillError → Option String
  | .configParse _ => some ("check that docfill.toml is valid TOML with top level options " ++
      "and an optional [flow] section")
  | .unsupportedDataFormat _ => some "supported formats: text, json, toml, yaml, yml"
  | .invalidDateFormat _ => some "use chrono strftime specifiers such as `%Y-%m-%d %H:%M:%S`"
  | _ => none

end FillError

end Stencil
