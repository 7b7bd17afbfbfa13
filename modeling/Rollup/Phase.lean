namespace Rollup

inductive Phase where
  | unexecuted
  | regrouped
  | collected
  deriving DecidableEq

def Phase.name : Phase → String
  | unexecuted => "Unexecuted"
  | regrouped => "Regrouped"
  | collected => "Collected"

inductive Request where
  | regroup
  | collect
  deriving DecidableEq

def Request.name : Request → String
  | regroup => "regroup"
  | collect => "collect group stats"

/-- A stage may be regrouped when nothing was done with it, and collected until it has been. -/
def Request.allowedIn : Request → Phase → Bool
  | regroup, phase => phase == .unexecuted
  | collect, phase => phase != .collected

end Rollup
