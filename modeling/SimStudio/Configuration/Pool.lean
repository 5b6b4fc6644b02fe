import SimStudio.Fault

/-!
# The Pool of Agents

Every agent of a simulation has a number of its own. The agents of the first
role are numbered from 1 on, those of the next role follow, and so on. The number
after the last one is a word, too, or there is no pool.

## Main definitions

* `idsFrom`: A run of consecutive ids.
* `poolFrom`: The ids of several roles, from a given one on.
* `pool`: The ids of all agents.
-/

namespace SimStudio

/-- As many consecutive ids as `count` says. -/
def idsFrom (next count : UInt32) : List UInt32 :=
  (List.range' next.toNat count.toNat).map UInt32.ofNat

/-- The ids of roles with the given counts, of which the first is `next`. -/
def poolFrom (next : UInt32) : List UInt32 → Except Fault (List UInt32)
  | [] => .ok []
  | count :: counts => do
      let after ← addWords next count
      let others ← poolFrom after counts
      pure (idsFrom next count ++ others)

/-- The ids of all agents, role by role. -/
def pool (counts : List UInt32) : Except Fault (List UInt32) := poolFrom 1 counts

end SimStudio
