import SchemeCore.Interning
import SchemeCore.Object

/-! Requests to a table, each answered by the table that all requests before it have left. A shard
without a free slot refuses a text, which panics where a refusal cannot be told, and so does a lookup
of a name that stands for nothing; the table stays as it was. The symbols come from one table in
three ways, which differ in how they tell of a symbol and of a refusal. -/

namespace SchemeCore

inductive Request where
  | intern (text : String)
  | tryIntern (text : String)
  | lookup (name : Name)
deriving DecidableEq, Repr

namespace Request

inductive Outcome where
  | named (name : Name)
  | refused (o : Overflow)
  | found (text : String)
  | panics
deriving DecidableEq, Repr

def text? : Request → Option String
  | .intern s | .tryIntern s => some s
  | .lookup _ => none

def serve (t : Interner) : Request → Outcome × Interner
  | .intern s =>
    match t.intern s with
    | .ok (name, t) => (.named name, t)
    | .error _ => (.panics, t)
  | .tryIntern s =>
    match t.intern s with
    | .ok (name, t) => (.named name, t)
    | .error o => (.refused o, t)
  | .lookup name =>
    match t.lookup? name with
    | some s => (.found s, t)
    | none => (.panics, t)

def table (requests : List Request) : Interner :=
  requests.foldl (fun t r => (r.serve t).2) Interner.empty

def outcome? (requests : List Request) (k : Nat) : Option Outcome :=
  requests[k]?.map fun r => (r.serve (table (requests.take k))).1

def HandsOut (requests : List Request) (k : Nat) (name : Name) (s : String) : Prop :=
  requests[k]?.bind text? = some s ∧ outcome? requests k = some (.named name)

end Request

namespace Symbol

inductive Entry where
  | intern
  | tryIntern
  | object
deriving DecidableEq, Repr

inductive Outcome where
  | symbol (s : Symbol)
  | object (o : Object)
  | refused (c : Condition)
  | panics

namespace Entry

def gives : Entry → Symbol → Outcome
  | .object, s => .object (.symbol s)
  | _, s => .symbol s

def fails : Entry → Condition → Outcome
  | .tryIntern, c => .refused c
  | _, _ => .panics

end Entry

structure Call where
  entry : Entry
  text : String
deriving DecidableEq, Repr

namespace Call

def enter (table : Interner) (c : Call) : Outcome × Interner :=
  match Symbol.intern table c.text with
  | .ok (s, table) => (c.entry.gives s, table)
  | .error e => (c.entry.fails e, table)

def table (calls : List Call) : Interner := calls.foldl (fun t c => (c.enter t).2) Interner.empty

def Gives (calls : List Call) (k : Nat) (s : Symbol) (text : String) : Prop :=
  ∃ c, calls[k]? = some c ∧ c.text = text ∧
    (c.enter (table (calls.take k))).1 = c.entry.gives s

end Call

end Symbol

end SchemeCore
