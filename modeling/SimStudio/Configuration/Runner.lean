import SimStudio.Project

/-!
# Managers and Runners

Every kind of manager is paired with one kind of runner, which gets what it
needs to know: the game, the server, and for a hybrid manager the phases and
delays.

## Main definitions

* `Setting`: A value of a manager or runner.
* `RunnerKind.forManager`: The runner of a manager.
* `managerSettings`, `runnerSettings`: What the two are told.
-/

namespace SimStudio

/-- A value of a manager or runner. -/
inductive Setting
  | text (s : String)
  | int (i : Int)
  | float (x : Binary64)
  | words (ns : List UInt32)
  deriving DecidableEq, Inhabited

/-- The kinds of runner. -/
inductive RunnerKind
  | turnBased
  | hybrid
  deriving DecidableEq, Inhabited

namespace RunnerKind

/-- The name of a kind of runner. -/
def typeName : RunnerKind → String
  | turnBased => "TurnBasedGameRunner"
  | hybrid => "HybridGameRunner"

/-- The runner of a manager. -/
def forManager : Manager → RunnerKind
  | .turnBased => turnBased
  | .hybrid .. => hybrid

end RunnerKind

/-- What the manager is told. -/
def managerSettings (m : Manager) : List (String × Setting) := [("type", .text m.typeName)]

/-- What the runner is told. A game without an id has the id zero. -/
def runnerSettings (m : Manager) (gameId : Option Int64) (server : Server) :
    List (String × Setting) :=
  [("type", .text (RunnerKind.forManager m).typeName),
    ("game_id", .int ((gameId.map Int64.toInt).getD 0)),
    ("hostname", .text server.hostname),
    ("port", .int server.port.toNat),
    ("path", .text server.path)] ++
    match m with
    | .turnBased => []
    | .hybrid phases maxDelay minDelay =>
        [("continuous_phases", .words phases), ("max_action_delay", .float maxDelay),
          ("min_action_delay", .float minDelay)]

end SimStudio
