import Rollup.Number.Shortest
import Rollup.Phase
import Rollup.Stat.Operator

namespace Rollup

inductive SettingFault where
  | groupLimitZero
  | checkIntervalZero
  | percentileOutOfRange (percentile : Float) (field : String)
  | positionTaken (position : Nat)
  | positionsShared
  | positionBeyondRow (position width : Nat)
  deriving DecidableEq

def SettingFault.message : SettingFault → String
  | groupLimitZero => "group limit must be positive"
  | checkIntervalZero => "a query timeout needs a positive deadline check interval"
  | percentileOutOfRange percentile field =>
    let shown := Number.Shortest.text percentile
    s!"percentile {shown} for field {field} is outside 0..=100"
  | positionTaken position => s!"two percentiles projected at column {position}"
  | positionsShared => "percentile columns share a projection position"
  | positionBeyondRow position width =>
    s!"percentile projected at column {position} but rows have {width} columns"

inductive SessionFault where
  | assignments (expected got : Nat)
  | metricValues (name : String) (values documents : Nat)
  | leftover (values width : Nat)
  | reported (text : String)
  deriving DecidableEq

def SessionFault.message : SessionFault → String
  | assignments expected got => s!"expected {expected} group assignments, got {got}"
  | metricValues name values documents =>
    s!"dynamic metric {name} has {values} values for {documents} documents"
  | leftover values width => s!"instructions left {values} values, expected {width}"
  | reported text => text

/-- Why a grouping refuses a request. -/
inductive Refusal where
  | percentileNotLast
  | diffNotRewritten
  deriving DecidableEq

def Refusal.message : Refusal → String
  | percentileNotLast => "percentiles must be used as the last group"
  | diffNotRewritten => "diff groupings must be rewritten before execution"

inductive Fault where
  | topKExceedsLimit (field : String) (requested limit : Nat)
  | aggregateOperand (op : AggregateOp)
  | emptyOperands (op : StatOp)
  | invalidSetting (cause : SettingFault)
  | staleReference (depth : Nat)
  | staleMetric (name : String)
  | unsupported (grouping : String) (request : Request) (reason : Refusal)
  | textTermUnsupported (field : String)
  | invalidPhase (grouping : String) (request : Request) (phase : Phase)
  | streamAborted (field reason : String)
  | deadlineExceeded
  | stackUnderflow
  | unknownReference (offset : Nat)
  | groupLimitExceeded (groups limit : Nat)
  | session (cause : SessionFault)
  deriving DecidableEq

def Fault.message : Fault → String
  | topKExceedsLimit field requested limit =>
    s!"number of requested top terms ({requested}) for field {field} exceeds the limit ({limit}); " ++
      "please simplify the query"
  | aggregateOperand op =>
    let symbol := op.symbol
    s!"result of aggregate operation `{symbol}` can't be used as input for further calculations"
  | emptyOperands op =>
    let symbol := op.symbol
    s!"operator `{symbol}` needs at least one operand"
  | invalidSetting cause => "invalid configuration: " ++ cause.message
  | staleReference depth => s!"stat reference pushed at depth {depth} is no longer valid"
  | staleMetric name => s!"dynamic metric {name} is not valid anymore"
  | unsupported grouping request reason =>
    grouping ++ " does not support " ++ request.name ++ ": " ++ reason.message
  | textTermUnsupported field => s!"percentiles do not work with string fields ({field})"
  | invalidPhase grouping request phase =>
    "cannot " ++ request.name ++ " " ++ grouping ++ " in state " ++ phase.name
  | streamAborted field reason => s!"term stream over {field} aborted: {reason}"
  | deadlineExceeded => "query deadline exceeded"
  | stackUnderflow => "evaluation stack underflow"
  | unknownReference offset => s!"back-reference {offset} points below the evaluation stack"
  | groupLimitExceeded groups limit =>
    s!"regroup would create {groups} groups, exceeding the limit of {limit}"
  | session cause => "session error: " ++ cause.message

end Rollup
