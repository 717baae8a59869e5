import SchemeCore.Interner

/-! Texts interned one after another, and what their list alone tells: which texts a shard holds, in
the order in which they came first, and so the name of each. -/

namespace SchemeCore.Interner

def internAll (t : Interner) : List String → Except Overflow (List Name × Interner)
  | [] => .ok ([], t)
  | s :: texts =>
    match t.intern s with
    | .error o => .error o
    | .ok (name, t) =>
      match t.internAll texts with
      | .error o => .error o
      | .ok (names, t) => .ok (name :: names, t)

def members (texts : List String) (shard : Fin Name.shardCount) : List String :=
  texts.eraseDups.filter fun s => shardOf s = shard

/-- How many different texts came to the shard of a text before it did. -/
def rank (texts : List String) (s : String) : Nat :=
  (members (texts.takeWhile (· != s)) (shardOf s)).length

def nameIn (texts : List String) (s : String) : Name := nameAt (shardOf s) (rank texts s)

def capacity : Nat := Nat.pow 2 28

/-- No shard gets more texts than it has slots for. -/
def Fits (texts : List String) : Prop := ∀ shard, (members texts shard).length ≤ capacity

end SchemeCore.Interner
