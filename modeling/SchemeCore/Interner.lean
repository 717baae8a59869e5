import Std.Data.HashMap
import SchemeCore.Name

/-! The interner keeps every text it has seen once. A text goes to one of sixteen shards, chosen by
its first eight bytes, and takes the next free slot there; the table only grows. -/

namespace SchemeCore

/-- The texts of a shard in the order of their first interning, with the slot of each. -/
structure Shard where
  slots : Std.HashMap String Nat
  texts : Array String

structure Interner where
  shards : Vector Shard Name.shardCount
  count : Nat

structure Overflow where
  shard : Nat
  count : Nat
deriving DecidableEq, Repr

def Overflow.message (o : Overflow) : String :=
  "interner shard " ++ toString o.shard ++ " exceeded capacity: " ++ toString o.count
    ++ " strings, max is " ++ toString Name.maxSlot.toNat

namespace Interner

def empty : Interner := ⟨Vector.replicate _ ⟨∅, #[]⟩, 0⟩

/-- The bytes that choose the shard of a text; a character may be cut at the eighth. -/
def leadingBytes (s : String) : List UInt8 := s.toUTF8.data.toList.take 8

def digest (bytes : List UInt8) : UInt32 :=
  bytes.foldl (fun h b => h * 31 + b.toUInt32) 0

def shardOf (s : String) : Fin Name.shardCount :=
  Fin.ofNat Name.shardCount (digest (leadingBytes s)).toNat

def nameAt (shard : Fin Name.shardCount) (slot : Nat) : Name :=
  Name.ofParts (UInt32.ofNat shard) (UInt32.ofNat slot)

def intern (t : Interner) (s : String) : Except Overflow (Name × Interner) :=
  let i := shardOf s
  let shard := t.shards[i]
  match shard.slots[s]? with
  | some slot => .ok (nameAt i slot, t)
  | none =>
    let slot := shard.texts.size
    if slot ≤ Name.maxSlot.toNat then
      .ok (nameAt i slot,
        ⟨t.shards.set i ⟨shard.slots.insert s slot, shard.texts.push s⟩, t.count + 1⟩)
    else
      .error ⟨i, slot⟩

def lookup? (t : Interner) (n : Name) : Option String := do
  let shard ← t.shards[n.shard]?
  shard.texts[n.slot]?

def isEmpty (t : Interner) : Bool := t.count == 0

end Interner

end SchemeCore
