import Rollup.Key
import Rollup.Text.Quoted

namespace Rollup

def Term.inspect : Term → String
  | .int v => "Int(" ++ toString v ++ ")"
  | .text s => "Str(" ++ Text.Quoted.text s ++ ")"

def Key.inspect (k : Key) : String := "[" ++ ", ".intercalate (k.terms.map Term.inspect) ++ "]"

end Rollup
