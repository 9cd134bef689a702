import LogIntake.IoError.Number

/-!
# Input and output errors

What the operating system answers when an operation on a file or a socket fails: a number of its own, or a
kind of failure, with or without a text. Some kinds make a listening socket useless.
-/

namespace LogIntake

/-- An input or output error. -/
inductive IoError where
  /-- A failure of which only the kind is known. -/
  | simple (kind : IoError.Kind)
  /-- A failure with a text of its own. -/
  | custom (kind : IoError.Kind) (text : String)
  /-- An error number of the operating system. -/
  | os (number : Nat)
  deriving DecidableEq, Repr

namespace IoError

def kind : IoError → Kind
  | .simple kind => kind
  | .custom kind _ => kind
  | .os number => numberKind number

def message : IoError → String
  | .simple kind => kind.message
  | .custom _ text => text
  | .os number => s!"{numberText number} (os error {number})"

/-- Whether a listening socket that fails so can accept nothing any more. -/
def endsListening (e : IoError) : Bool :=
  match e.kind with
  | .invalidInput | .notConnected | .unsupported => true
  | _ => false

end IoError

end LogIntake
