import SchemeCore.Written

/-! The forms in which objects and cells are inspected: the variant of an object with its written
form, and the contents of a cell with each item inspected in turn. -/

namespace SchemeCore

def Immediate.inspected : Immediate → String
  | .null => "Null"
  | .true => "True"
  | .false => "False"
  | .eof => "Eof"
  | .undefined => "Undefined"
  | .unspecified => "Unspecified"

namespace Heap

def inspected? (table : Interner) (h : Heap) (o : Object) : Option String :=
  match o with
  | .immediate i => some i.inspected
  | .character c => some ("Character(" ++ String.ofList (Literal.quoted c) ++ ")")
  | .flonum x => some ("Flonum(" ++ x.inspected ++ ")")
  | .symbol s => some (s.inspected table)
  | .inputPort _ | .outputPort _ => some o.variant
  | o => (h.written? table o).map fun text => o.variant ++ "(" ++ text ++ ")"

def bracketed (items : List String) : String := "([" ++ ", ".intercalate items ++ "])"

def inspectedCell? (table : Interner) (h : Heap) (c : Cell) : Option String :=
  match c with
  | .pair car cdr => do
    return "Pair(" ++ (← h.inspected? table car) ++ ", " ++ (← h.inspected? table cdr) ++ ")"
  | .string chars =>
    some ("string" ++ bracketed (chars.toList.map fun c => String.ofList (Literal.quoted c)))
  | .vector items => do
    return "vector" ++ bracketed (← items.toList.mapM (h.inspected? table))
  | .bytes bytes => some ("byte-vector" ++ bracketed (bytes.toList.map fun b => toString b.toNat))
  | .inputPort _ => some "InputPort"
  | .outputPort _ => some "OutputPort"
  | .freed => none

end Heap

end SchemeCore
