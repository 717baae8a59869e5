import SchemeCore.Session.Sink

/-! A writer takes bytes call by call. It may have room for a number of bytes only, take only a few
of them in one call, be interrupted, and fail at one of its flushes. Writing a text goes on until
all of it was taken or a call fails. -/

namespace SchemeCore.Session

inductive Shortage where
  | fails (cause : String)
  | takesNothing
deriving DecidableEq, Repr

structure Writer where
  room : Option Nat
  shortage : Shortage
  chunk : Option Nat
  interrupts : Bool
  flushFailure : Option (Nat × String)
  interruptNext : Bool
  accepted : Array UInt8
  flushes : Nat
deriving DecidableEq, Repr

inductive Acceptance where
  | took (n : Nat)
  | interrupted
  | failed (cause : String)
deriving DecidableEq, Repr

namespace Writer

def unlimited : Writer := ⟨none, .takesNothing, none, false, none, true, #[], 0⟩

def portion (w : Writer) (bytes : List UInt8) : Nat :=
  min bytes.length (min (w.chunk.getD bytes.length) (w.room.getD bytes.length))

/-- One call. Of a writer that interrupts, every other call is interrupted, the first included. -/
def write (w : Writer) (bytes : List UInt8) : Acceptance × Writer :=
  if w.interrupts && w.interruptNext then
    (.interrupted, { w with interruptNext := false })
  else
    let w := { w with interruptNext := true }
    match w.room, w.shortage with
    | some 0, .fails cause => (.failed cause, w)
    | _, _ =>
      let n := w.portion bytes
      (.took n, { w with room := w.room.map (· - n), accepted := w.accepted ++ bytes.take n })

theorem interruptNext_of_interrupted {w v : Writer} {bytes : List UInt8}
    (h : w.write bytes = (.interrupted, v)) : w.interruptNext = true ∧ v.interruptNext = false := by
  unfold write at h
  split at h
  · rename_i both
    cases h
    simp only [Bool.and_eq_true] at both
    exact ⟨both.2, rfl⟩
  · simp only at h
    split at h <;> cases h

/-- Write all bytes: interrupted calls are made again, and a call that takes nothing fails. -/
def writeAll (w : Writer) (bytes : List UInt8) : Except String Unit × Writer :=
  match bytes with
  | [] => (.ok (), w)
  | b :: bs =>
    match _h : w.write (b :: bs) with
    | (.interrupted, w) => w.writeAll (b :: bs)
    | (.failed cause, w) => (.error cause, w)
    | (.took 0, w) => (.error "failed to write whole buffer", w)
    | (.took (n + 1), w) => w.writeAll (bs.drop n)
termination_by 2 * bytes.length + w.interruptNext.toNat
decreasing_by
  · obtain ⟨before, after⟩ := interruptNext_of_interrupted _h
    simp [before, after]
  · have : (bs.drop n).length ≤ bs.length := by simp
    have : Bool.toNat (by assumption : Writer).interruptNext ≤ 1 := Bool.toNat_le _
    simp only [List.length_cons]
    omega

def flush (w : Writer) : Except String Unit × Writer :=
  let w := { w with flushes := w.flushes + 1 }
  match w.flushFailure with
  | some (n, cause) => if w.flushes = n then (.error cause, w) else (.ok (), w)
  | none => (.ok (), w)

instance : Sink Writer where
  send w bytes :=
    match w.writeAll bytes with
    | (.ok (), w) => w.flush
    | failed => failed

end Writer

end SchemeCore.Session
