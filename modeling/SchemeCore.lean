import SchemeCore.Inspect
import SchemeCore.Release
import SchemeCore.Operation
import SchemeCore.Session.Writer
import SchemeCore.Main
import SchemeCore.Proofs.Equality
import SchemeCore.Proofs.Chain
import SchemeCore.History
import SchemeCore.Proofs.Run
import SchemeCore.Proofs.Source
import SchemeCore.Proofs.Transcript
import SchemeCore.Proofs.Comparison
import SchemeCore.Proofs.Equivalence
import SchemeCore.Interning
import SchemeCore.Proofs.Name
import SchemeCore.Proofs.Interning
import SchemeCore.Session.Script
import SchemeCore.Proofs.Script
import SchemeCore.Proofs.Fault
import SchemeCore.Datum
import SchemeCore.Proofs.Datum
import SchemeCore.Proofs.Written
import SchemeCore.Proofs.Literal
import SchemeCore.Proofs.Unambiguous
import SchemeCore.Proofs.Chunking
import SchemeCore.Reachable
import SchemeCore.Request
import SchemeCore.Proofs.Congruence
import SchemeCore.Drop
import SchemeCore.Proofs.Request
import SchemeCore.Proofs.Surrender
import SchemeCore.Proofs.Exact
import SchemeCore.Proofs.Teardown
import SchemeCore.Proofs.Ending
import SchemeCore.Datum.Written
import SchemeCore.Proofs.Layout
import SchemeCore.Circle
import SchemeCore.Proofs.Acyclic
import SchemeCore.Proofs.Effect
import SchemeCore.Proofs.Circle
import SchemeCore.Proofs.Pipe
import SchemeCore.Proofs.Shell
import SchemeCore.Proofs.Command
import SchemeCore.Proofs.Access
import SchemeCore.Proofs.Utf8
import SchemeCore.Session.Echo
import SchemeCore.Proofs.Echo
import SchemeCore.Unwinding
import SchemeCore.Proofs.Unwinding
import SchemeCore.Proofs.Shard
import SchemeCore.Proofs.Status
import SchemeCore.Proofs.Items
