import SchemeCore.Condition
import SchemeCore.Interner

/-! A symbol is the name of an interned text, so symbols are equal exactly when their texts are. -/

namespace SchemeCore

structure Symbol where
  name : Name
deriving DecidableEq, Repr

namespace Symbol

def tableFull (o : Overflow) : Condition :=
  (Condition.unexpected "symbol table is full").withIrritant "cause" o.message

def intern (table : Interner) (text : String) : Except Condition (Symbol × Interner) :=
  match table.intern text with
  | .ok (name, table) => .ok (⟨name⟩, table)
  | .error o => .error (tableFull o)

def text? (table : Interner) (s : Symbol) : Option String := table.lookup? s.name

def text (table : Interner) (s : Symbol) : String := (s.text? table).getD ""

def textOf (table : Interner) : Option Symbol → Except Condition String
  | some s => .ok (s.text table)
  | none => .error (Condition.absent "sym")

def inspected (table : Interner) (s : Symbol) : String := "Symbol(" ++ s.text table ++ ")"

end Symbol

end SchemeCore
