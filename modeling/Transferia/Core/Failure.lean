import Mathlib

/-!
# Data plane failures

The errors that end a source or a sink: a retryable failure restarts the
attempt, a fatal one ends the transfer.
-/

namespace Transferia.Core

inductive Severity
  | retryable
  | fatal
  deriving DecidableEq

structure DataPlaneFailure where
  severity : Severity
  message : String
  deriving DecidableEq

end Transferia.Core
