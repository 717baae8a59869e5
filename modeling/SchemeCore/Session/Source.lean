/-! What a session reads. A source plays its events one after another and is at its end for ever
after the last: data to be read byte by byte, a call that was interrupted and is made again, a mark
that ends the input for one call, or a call that fails. A line goes up to a line feed or an end of
input, and nothing beyond it is taken. -/

namespace SchemeCore.Session

inductive Event where
  | data (bytes : List UInt8)
  | interrupted
  | endMark
  | fail (cause : String)
deriving DecidableEq, Repr

abbrev Source := List Event

inductive Reading where
  | line (bytes : List UInt8) (rest : Source)
  | ended (rest : Source)
  | failed (cause : String) (rest : Source)
deriving DecidableEq, Repr

def lineFeed : UInt8 := 0x0A

def carriageReturn : UInt8 := 0x0D

namespace Source

def stopped (taken : List UInt8) (rest : Source) : Reading :=
  if taken.isEmpty then .ended rest else .line taken rest

def readOn (taken : List UInt8) : Source → Reading
  | [] => stopped taken []
  | .interrupted :: rest => readOn taken rest
  | .endMark :: rest => stopped taken rest
  | .fail cause :: rest => .failed cause rest
  | .data bytes :: rest =>
    match bytes.dropWhile (· != lineFeed) with
    | [] => readOn (taken ++ bytes) rest
    | _ :: after => .line (taken ++ bytes.takeWhile (· != lineFeed)) (.data after :: rest)

def readLine (source : Source) : Reading := readOn [] source

def unread : Source → List UInt8
  | [] => []
  | .data bytes :: rest => bytes ++ unread rest
  | _ :: rest => unread rest

def weight : Source → Nat
  | [] => 0
  | .data bytes :: rest => bytes.length + 1 + weight rest
  | _ :: rest => 1 + weight rest

theorem weight_of_stopped {taken bytes : List UInt8} {source rest : Source}
    (h : stopped taken source = .line bytes rest) : weight rest < weight source + taken.length := by
  unfold stopped at h
  split at h
  · cases h
  · rename_i nonempty
    cases h
    have : 0 < taken.length := List.length_pos_iff.mpr (by simpa using nonempty)
    omega

theorem weight_of_readOn {taken bytes : List UInt8} {source rest : Source}
    (h : readOn taken source = .line bytes rest) : weight rest < weight source + taken.length := by
  induction source generalizing taken with
  | nil => exact weight_of_stopped h
  | cons event source ih =>
    cases event with
    | interrupted =>
      have := ih h
      simp only [weight]
      omega
    | endMark =>
      have := weight_of_stopped h
      simp only [weight]
      omega
    | fail cause => cases h
    | data chunk =>
      simp only [readOn] at h
      split at h
      · have := ih h
        simp only [weight, List.length_append] at this ⊢
        omega
      · rename_i b after cut
        cases h
        have : (chunk.dropWhile (· != lineFeed)).length ≤ chunk.length :=
          (List.dropWhile_sublist _).length_le
        simp only [cut, List.length_cons] at this
        simp only [weight]
        omega

theorem weight_of_readLine {bytes : List UInt8} {source rest : Source}
    (h : source.readLine = .line bytes rest) : rest.weight < source.weight := by
  simpa using weight_of_readOn h

/-! Reading through a buffer. -/

def capacity : Nat := 8192

/-- Bytes in portions of which each but the last fills the buffer. -/
def portions (capacity : Nat) : List UInt8 → List (List UInt8)
  | [] => []
  | b :: bytes =>
    (b :: bytes.take (capacity - 1)) :: portions capacity (bytes.drop (capacity - 1))
termination_by bytes => bytes.length
decreasing_by
  simp only [List.length_drop, List.length_cons]
  omega

def buffered (capacity : Nat) : Source → Source
  | [] => []
  | .data bytes :: rest => (portions capacity bytes).map .data ++ buffered capacity rest
  | event :: rest => event :: buffered capacity rest

end Source

/-- A carriage return at the end of a line belongs to its ending. -/
def trimReturn (bytes : List UInt8) : List UInt8 :=
  if bytes.getLast? = some carriageReturn then bytes.dropLast else bytes

end SchemeCore.Session
