/-!
# Health

What a service answers when it is asked how it fares.
-/

namespace LogIntake

inductive Health where
  | healthy
  /-- It works, but something asks for attention. -/
  | degraded (reason : String)
  | unhealthy (reason : String)
  deriving DecidableEq, Repr

def Health.isHealthy : Health → Bool
  | .healthy => true
  | _ => false

def Health.isUnhealthy : Health → Bool
  | .unhealthy _ => true
  | _ => false

end LogIntake
