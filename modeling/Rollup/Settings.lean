import Rollup.Number.Reading
import Rollup.Stat.Basic
import Rollup.Text.Blank

namespace Rollup

structure Settings where
  groupLimit : Nat
  /-- Ranks the terms of a best-K grouping that names no statistic of its own. -/
  sortStat : Stat
  /-- Milliseconds. -/
  timeout : Option Nat
  /-- Records read between two looks at the clock. -/
  checkInterval : Nat

namespace Settings

def standard : Settings := ⟨1000000, .count, none, 4096⟩

def groupLimitVariable : String := "IQL_GROUP_LIMIT"

def timeoutVariable : String := "IQL_QUERY_TIMEOUT_MS"

/-- A count may stand between blanks and hold underscores anywhere. -/
def count? (raw : String) : Option Nat :=
  Number.Reading.count? ((Text.Blank.trim raw.toList).filter (· != '_'))

/-- A group limit that is no positive count is ignored; so is a timeout that is no count, and a timeout
of zero means none. -/
def ofLookup (lookup : String → Option String) : Settings :=
  let limit := ((lookup groupLimitVariable).bind count?).filter (0 < ·)
  let timeout := ((lookup timeoutVariable).bind count?).filter (0 < ·)
  { standard with groupLimit := limit.getD standard.groupLimit, timeout := timeout }

def validate (s : Settings) : Except Fault Unit :=
  if s.groupLimit = 0 then .error (.invalidSetting .groupLimitZero)
  else if s.checkInterval = 0 ∧ s.timeout.isSome then .error (.invalidSetting .checkIntervalZero)
  else .ok ()

theorem validate_ofLookup (lookup : String → Option String) :
    (ofLookup lookup).validate = .ok () := by
  have positive : (ofLookup lookup).groupLimit ≠ 0 := by
    show (((lookup groupLimitVariable).bind count?).filter (0 < ·)).getD 1000000 ≠ 0
    cases h : ((lookup groupLimitVariable).bind count?).filter (0 < ·) with
    | none => simp
    | some n =>
      have := (Option.filter_eq_some_iff.1 h).2
      simp only [decide_eq_true_eq] at this
      simp only [Option.getD_some]
      omega
  have interval : (ofLookup lookup).checkInterval = 4096 := rfl
  simp [validate, positive, interval]

end Settings
end Rollup
