import SchemeCore.Text.Literal

/-! A program that cannot go on breaks off, and says on its standard error in which thread it did and
at which place, why, and, where this is asked for, through which calls it came there. All but the
reason depends on how the program was built and is run. -/

namespace SchemeCore

inductive Breakdown where
  | undecodable (word : List UInt8)
  | unprinted (cause : String)
deriving DecidableEq, Repr

def Breakdown.message : Breakdown → String
  | .undecodable word =>
    "called `Result::unwrap()` on an `Err` value: \"" ++ String.ofList (Literal.inspectedBytes word)
      ++ "\""
  | .unprinted cause => "failed printing to stdout: " ++ cause

structure Trace where
  thread : Nat
  place : String
  calls : Option (List String)

namespace Trace

def lines (calls : List String) : String :=
  String.join (calls.mapIdx fun i call =>
    "".pushn ' ' (4 - (toString i).length) ++ toString i ++ ": " ++ call ++ "\n")

def callsText : Option (List String) → String
  | some calls => "stack backtrace:\n" ++ lines calls
      ++ "note: Some details are omitted, run with `RUST_BACKTRACE=full` for a verbose backtrace.\n"
  | none => "note: run with `RUST_BACKTRACE=1` environment variable to display a backtrace\n"

def report (t : Trace) (message : String) : String :=
  "\nthread 'main' (" ++ toString t.thread ++ ") panicked at " ++ t.place ++ ":\n" ++ message ++ "\n"
    ++ callsText t.calls

/-- Where the usage text is printed, in the program as it was built for its tests. -/
def ofUsage : Trace where
  thread := 3
  place :=
    "/rustc/b940084d7eb6a299eb4bfeb8e34901bc051e7ac4/library/std/src/io/stdio.rs:1168:9"
  calls := some ["__rustc::rust_begin_unwind", "core::panicking::panic_fmt", "std::io::stdio::_print",
    "scm::main"]

end Trace

end SchemeCore
