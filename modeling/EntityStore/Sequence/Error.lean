import EntityStore.Fault

/-!
# Sequences

A *sequence* is a line of work: its tasks run one at a time and in order.  Every sequence has a
number of its own, and this module has the numbers and the things that can go wrong between
sequences.
-/

namespace EntityStore

/-- The identity of a sequence. -/
structure SequenceId where
  /-- Its number. -/
  number : Nat
deriving DecidableEq

namespace SequenceId

/-- Sequences are ordered by their numbers. -/
instance : LT SequenceId := ⟨fun a b => a.number < b.number⟩

instance (a b : SequenceId) : Decidable (a < b) :=
  inferInstanceAs (Decidable (a.number < b.number))

/-- The short form, `seq#` with the number. -/
def display (q : SequenceId) : String := "seq#" ++ toString q.number

/-- The form used inside records, which names the type. -/
def debug (q : SequenceId) : String := Text.wrapped "SequenceId" (toString q.number)

end SequenceId

/-! ## Refusals -/

/-- Why a runner or a guarded store refuses. -/
inductive SequenceError where
  /-- The runner takes no more tasks. -/
  | runnerShutDown (sequence : SequenceId)
  /-- The sequence that is current is not the owner. -/
  | wrongSequence (expected : SequenceId) (current : Option SequenceId)
  /-- The sequence of the token is not current. -/
  | staleToken (token : SequenceId) (current : Option SequenceId)
  /-- The runner makes no progress while its caller waits. -/
  | blockingWaitUnsupported (sequence : SequenceId)
  /-- The task was taken and never gave a result. -/
  | taskAbandoned (sequence : SequenceId)
  /-- The worker ended by a failure. -/
  | workerFailed (sequence : SequenceId)
  /-- The worker could not be started. -/
  | spawn (name : String)
deriving DecidableEq

/-- The refusal in words. -/
def SequenceError.message : SequenceError → String
  | runnerShutDown q => "sequence " ++ q.display ++ " has shut down"
  | wrongSequence expected current =>
    "must run on sequence " ++ expected.display ++ ", but current is " ++
      Text.optional SequenceId.debug current
  | staleToken token current =>
    "token for sequence " ++ token.display ++ " outlived its scope, current is " ++
      Text.optional SequenceId.debug current
  | blockingWaitUnsupported q =>
    "sequence " ++ q.display ++
      " only runs tasks when drained; a blocking wait would never return"
  | taskAbandoned q => "task on sequence " ++ q.display ++ " was abandoned before completing"
  | workerFailed q => "worker thread of sequence " ++ q.display ++ " panicked"
  | spawn name => "failed to spawn sequence thread '" ++ name ++ "'"

/-! ## Failures -/

/-- Why an operation between sequences fails. -/
inductive SequenceFault where
  /-- An operation on a store fails. -/
  | store (f : Fault)
  /-- An access that must be allowed is refused. -/
  | refused (e : SequenceError)
  /-- A scope is left while another is current. -/
  | scopeOrder (current : Option SequenceId) (left : SequenceId)
  /-- A sequence would wait for itself. -/
  | waitsForItself (sequence : SequenceId)
  /-- A worker would wait for its own end, or for the end of a worker that waits for its end. -/
  | endNeverComes
  /-- The name of a worker has the null character, which a thread name cannot have. -/
  | nullInName (name : String)
  /-- A task gives up with a message. -/
  | raised (message : String)
  /-- More steps were taken than there are commands. -/
  | unbounded
deriving DecidableEq

/-- The report of a name with a null: the position of the first, and all bytes. -/
def nullReport (name : String) : String :=
  let bytes := name.toUTF8.toList
  let place := (bytes.takeWhile (· ≠ 0)).length
  "thread name may not contain interior null bytes: NulError(" ++ toString place ++ ", " ++
    Text.list (bytes.map fun b => toString b.toNat) ++ ")"

/-- The failure in words. -/
def SequenceFault.message : SequenceFault → String
  | store f => f.message
  | refused e => e.message
  | scopeOrder current left =>
    Text.failedComparison "==" (some "sequence scopes dropped out of order")
      (Text.optional SequenceId.debug current) (Text.optional SequenceId.debug (some left))
  | waitsForItself q =>
    "run_and_wait on " ++ q.display ++ " from inside that sequence would deadlock"
  | endNeverComes => "failed to join thread: Resource deadlock avoided (os error 35)"
  | nullInName name => nullReport name
  | raised message => message
  | unbounded => "more steps than commands"

end EntityStore
