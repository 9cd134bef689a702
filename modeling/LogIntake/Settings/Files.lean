import LogIntake.Settings.Load

/-!
# Files

A path is walked name by name from a directory, the root or the current one alike. What it comes to depends
on what stands at the paths that are known; elsewhere there is nothing.
-/

namespace LogIntake.Settings

/-- The known paths with what stands there, each as a list of names. -/
abbrev Files := List (List String × FileState)

namespace Files

/-- The longest name in a directory, in bytes. -/
def maxName : Nat := 255

/-- The longest path, in bytes. -/
def maxPath : Nat := 4095

/-- What stands at a place; a path begins in a directory. -/
def stateAt (files : Files) (place : List String) : FileState :=
  if place.isEmpty then .directory else (files.lookup place).getD .missing

/-- Follows names from a place. Only a directory leads on, also by the names for itself and for the one
above it. -/
def walk (files : Files) (place : List String) : List String → FileState
  | [] => files.stateAt place
  | name :: rest =>
    match files.stateAt place with
    | .missing => .missing
    | .directory =>
      if name = "" ∨ name = "." then files.walk place rest
      else if name = ".." then files.walk place.dropLast rest
      else if maxName < name.utf8ByteSize then .unreadable (.os 36)
      else files.walk (place ++ [name]) rest
    | .unreadable _ => .unreadable (.os 20)
    | .content _ => .unreadable (.os 20)

/-- What a path comes to. -/
def find (files : Files) (path : String) : FileState :=
  if maxPath < path.utf8ByteSize then .unreadable (.os 36) else files.walk [] (path.splitOn "/")

end Files

end LogIntake.Settings
