/-! A name stands for an interned text in one 32-bit word: the shard in the top four bits, the slot
within the shard in the other twenty-eight. -/

namespace SchemeCore

structure Name where
  raw : UInt32
deriving DecidableEq, Repr

namespace Name

abbrev shardCount : Nat := 16

def maxSlot : UInt32 := 0x0FFFFFFF

def ofParts (shard slot : UInt32) : Name := ⟨shard <<< 28 ||| slot⟩

def shard (n : Name) : Nat := (n.raw >>> 28).toNat

def slot (n : Name) : Nat := (n.raw &&& maxSlot).toNat

instance : Ord Name := ⟨fun a b => compare a.raw b.raw⟩

def inspected (n : Name) : String :=
  "Name(shard=" ++ toString n.shard ++ ", local=" ++ toString n.slot ++ ")"

end Name

end SchemeCore
