import SchemeCore.Session.Source
import SchemeCore.Text.Utf8

/-! What a quiet session shows of its input, told without cutting it into lines: all of it decoded at
once, after the carriage returns that belong to line endings were taken out. -/

namespace SchemeCore.Session

/-- Bytes without one carriage return directly before each line feed and without one at the end. -/
def withoutReturns : List UInt8 → List UInt8
  | [] => []
  | b :: rest =>
    if b = carriageReturn ∧ (rest.head? = some lineFeed ∨ rest = []) then withoutReturns rest
    else b :: withoutReturns rest

def lastEnding (bytes : List UInt8) : String :=
  if bytes = [] ∨ bytes.getLast? = some lineFeed then "" else "\n"

def echoed (bytes : List UInt8) : String := Utf8.decode (withoutReturns bytes) ++ lastEnding bytes

end SchemeCore.Session
