import Rollup.Grouping.Collect

namespace Rollup

structure Stage where
  grouping : Grouping
  phase : Phase

namespace Stage

def new (g : Grouping) : Stage := ⟨g, .unexecuted⟩

/-- Refuses a request that the phase does not allow. -/
def permit (request : Request) : Action (Stage × Session) Unit := do
  let (stage, _) ← get
  if request.allowedIn stage.phase then return ()
  else throw (.invalidPhase stage.grouping.display request stage.phase)

def enter (phase : Phase) : Action (Stage × Session) Unit :=
  modify fun (stage, session) => ({ stage with phase := phase }, session)

/-- The phase changes only when the groups have been split. -/
def regroup (keys : KeyMap) : Action (Stage × Session) KeyMap := do
  permit .regroup
  let (stage, _) ← get
  let children ← Action.second (stage.grouping.regroup keys)
  enter .regrouped
  return children

/-- The phase changes only when there are rows to list. -/
def collect (keys : KeyMap) (refs : List StatRef) (deadline : Deadline) :
    Action (Stage × Session) (List (Except Fault ResultRow)) := do
  permit .collect
  let (stage, _) ← get
  let rows ← Action.second (stage.grouping.collect keys refs deadline)
  enter .collected
  return rows

end Stage
end Rollup
