import Mathlib.Data.List.Sort
import SparkPulse.Runtime.Persistence

/-!
# Reaping, confirmation and teardown

The functions that remove containers and look whether they are gone. A wait with a deadline is a
bounded number of polls, since every poll but the last is followed by a sleep of the interval; the
deadline may pass earlier, when the node is slow.
-/

namespace SparkPulse.Runtime

open Program Prog

/-! ## Confirmation -/

/-- Whether an answer is evidence the container is not there. -/
def isConfirmedGone (p : Presence) : Bool := p = .missing

/-- Sixty sleeps of half a second reach the deadline of thirty seconds. -/
def confirmGonePolls : Nat := 61

/-- `_confirm_gone`, with the polls that are left before the deadline has passed for certain. -/
def confirmGone (phase : Phase) (address name : String) : Nat → Op Bool
  | 0 => return false
  | polls + 1 => do
    if isConfirmedGone (← node phase address (.containerStatus name)) then
      return true
    if ← deadlinePassed then
      return false
    confirmGone phase address name polls

/-! ## Reaping -/

/-- Remove one leftover container and wait for the evidence it is gone. -/
def reap (address name : String) : Op Unit := do
  node .reap address (.stopContainer name)
  if !(← confirmGone .reap address name confirmGonePolls) then
    .raise (.native
      (s!"container {name} on {orThisMachine address} did not go away " ++
        "within 30s; a rank of an earlier attempt " ++
        "is still holding the GPU, so this one will not be started"))

/-- The names of containers of another generation. -/
def otherGenerations (generation : Nat) (containers : List (Container × String)) : List String :=
  (containers.filter fun c ↦ c.1.labels.generation ≠ some generation).map fun c ↦ c.1.name

/-- Containers of this deployment on this node that must not survive. -/
def staleNames (plan : DeployPlan) (rankPlan : RankPlan) : Op (List String) := do
  match ← (node .reap rankPlan.node (.listManaged (some plan.deploymentId))).attempt with
  | .error x => .raise (.native
      (s!"could not list containers on {orThisMachine rankPlan.node} " ++
        s!"to reap earlier attempts: {x.text}"))
  | .ok containers =>
    let names := otherGenerations plan.generation containers
    let target := rankPlan.container.name
    if target ∈ names then
      return names
    -- anything short of confirmed gone counts as present
    match ← (node .reap rankPlan.node (.containerStatus target)).attempt with
    | .error _ => return names
    | .ok p => return if isConfirmedGone p then names else names ++ [target]

def reapAll (address : String) : List String → Op Unit
  | [] => return
  | name :: names => do
    reap address name
    reapAll address names

/-- One round of `_reap_earlier_generations` for each rank. -/
def reapRanks (plan : DeployPlan) : List RankPlan → Op Unit
  | [] => return
  | rankPlan :: ranks => do
    node .reap rankPlan.node .services
    reapAll rankPlan.node (← staleNames plan rankPlan)
    reapRanks plan ranks

/-- Confirm every container of an earlier generation is gone. -/
def reapEarlierGenerations (plan : DeployPlan) : Op Unit := reapRanks plan plan.rankPlans

/-! ## Teardown -/

/-- `_orphan`: an outstanding rank, asked to stop and never confirmed gone. -/
def orphan (entry : RankEntry) (reason : String) : Op Orphan := do
  return {
    rank := entry.rank
    node := entry.node
    containerName := entry.containerName
    reason := reason
    since := ← now }

/-- The container's output, read while there is still a container. -/
def finalLogs (phase : Phase) (address name : String) : Op String := do
  match ← (node phase address (.getLogs name)).attempt with
  | .error _ => return ""
  | .ok text => return if s!"Container '{name}' not found".isPrefixOf text then "" else text

/-- `_teardown_entry`: stop one rank, and answer an orphan when it cannot be confirmed, with the
container's last output. -/
def teardownEntry (entry : RankEntry) : Op (Option Orphan × String) := do
  let name := entry.containerName
  if name = "" then
    return (none, "")
  let logs ← finalLogs .teardown entry.node name
  match ← (node .teardown entry.node (.stopContainer name)).attempt with
  | .error x => return (some (← orphan entry s!"the node could not be reached: {x.text}"), logs)
  | .ok _ =>
    match ← (confirmGone .teardown entry.node name confirmGonePolls).attempt with
    | .error x => return (some (← orphan entry s!"removal could not be confirmed: {x.text}"), logs)
    | .ok true => return (none, logs)
    | .ok false =>
      return (some (← orphan entry "the container was still present after being stopped"), logs)

/-- Reaching the node of a rank and tearing it down. -/
def teardownRank (entry : RankEntry) : Op (Option Orphan × String) := do
  match ← (node .teardown entry.node .services).attempt with
  | .error x => return (some (← orphan entry s!"the node could not be reached: {x.text}"), "")
  | .ok _ => teardownEntry entry

/-- What a teardown leaves: the ranks outstanding, and the last output of each. -/
structure Remains where
  orphans : List Orphan := []
  logs : List (Nat × String) := []
  deriving DecidableEq, Repr

def teardownInOrder : List RankEntry → Op Remains
  | [] => return {}
  | entry :: entries => do
    let (left, text) ← teardownRank entry
    let rest ← teardownInOrder entries
    return {
      orphans := left.toList ++ rest.orphans
      logs := if text = "" then rest.logs else (entry.rank, text) :: rest.logs }

/-- `_teardown_entries`: tear ranks down head first, collecting the ones left outstanding. -/
def teardownEntries (entries : List RankEntry) : Op Remains :=
  teardownInOrder (entries.insertionSort fun a b ↦ a.rank ≤ b.rank)

/-- `_fail_launched_gang`: settle a gang that launched and never became ready. -/
def failLaunchedGang (plan : DeployPlan) (message : String) : Op (Option Record) := do
  let remains ← teardownEntries (plan.rankPlans.map rankRecord)
  recordError plan.deploymentId message
    { orphans := some remains.orphans, finalLogs := some remains.logs }

end SparkPulse.Runtime
