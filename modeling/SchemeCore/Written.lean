import SchemeCore.Flonum.Text
import SchemeCore.Sequence
import SchemeCore.Text.Literal

/-! The written form of an object, which a reader would take back: strings as literals, lists and
vectors in parentheses with blanks between the items, a point before the end of a chain that is
not the empty list. What no reader takes back is written between `#<` and `>`. An object whose
cells lead back to themselves has no written form. -/

namespace SchemeCore

def Immediate.written : Immediate → String
  | .null => "()"
  | .true => "#t"
  | .false => "#f"
  | .eof => "#<eof>"
  | .undefined => "#<undefined>"
  | .unspecified => "#<unspecified>"

def Object.atom? (table : Interner) : Object → Option String
  | .immediate i => some i.written
  | .fixnum n => some (toString n.toInt)
  | .character c => some (String.ofList (Literal.character c))
  | .flonum x => some x.written
  | .symbol s => some (s.text table)
  | .inputPort _ => some "#<input-port>"
  | .outputPort _ => some "#<output-port>"
  | _ => none

namespace Heap

def writeSeparated (write : String → Object → Option String) (done : String) :
    List Object → Option String
  | [] => some done
  | item :: items => do
    let done ← write done item
    items.foldlM (fun done item => write (done.push ' ') item) done

def writtenString (chars : Array Char) : String := String.ofList (Literal.string chars.toList)

def writtenBytes (bytes : Array UInt8) : String :=
  "#u8(" ++ " ".intercalate (bytes.toList.map fun b => toString b.toNat) ++ ")"

mutual

/-- Add an object to the text written so far, along paths of at most the given length. -/
def writeWithin (table : Interner) (h : Heap) : Nat → String → Object → Option String
  | 0, _, _ => none
  | depth + 1, done, o =>
    match o with
    | .pair _ =>
      match h.pair? o with
      | none => none
      | some (car, cdr) =>
        match writeWithin table h depth (done.push '(') car with
        | none => none
        | some done => writeTail table h depth done cdr
    | .string _ => (h.sequence? .string o).map fun (_, chars) => done ++ writtenString chars
    | .vector _ =>
      match h.sequence? .vector o with
      | none => none
      | some (_, items) =>
        (writeSeparated (writeWithin table h depth) (done ++ "#(") items.toList).map (·.push ')')
    | .bytes _ => (h.sequence? .bytes o).map fun (_, bytes) => done ++ writtenBytes bytes
    | o => (o.atom? table).map (done ++ ·)

def writeTail (table : Interner) (h : Heap) : Nat → String → Object → Option String
  | 0, _, _ => none
  | depth + 1, done, o =>
    match o with
    | .immediate .null => some (done.push ')')
    | .pair _ =>
      match h.pair? o with
      | none => none
      | some (car, cdr) =>
        match writeWithin table h depth (done.push ' ') car with
        | none => none
        | some done => writeTail table h depth done cdr
    | o => (writeWithin table h depth (done ++ " . ") o).map (·.push ')')

end

/-- Each object on a path takes at most two levels, one at the end of a chain and one of its own; a
path that does not come back passes each cell once and may end in an object without a cell. -/
def writingDepth (h : Heap) : Nat := 2 * (h.size + 1)

def written? (table : Interner) (h : Heap) (o : Object) : Option String :=
  writeWithin table h h.writingDepth "" o

def displayed? (table : Interner) (h : Heap) (o : Object) : Option String :=
  match h.sequence? .string o with
  | some (_, chars) => some (String.ofList chars.toList)
  | none => h.written? table o

end Heap

end SchemeCore
