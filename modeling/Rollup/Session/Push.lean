import Rollup.Session.Basic

namespace Rollup

/-- Runs instructions for one document and adds the values they leave, which must be `width` many. -/
def Entry.load (tokens : List Token) (width : Nat) (e : Entry) : Except Fault Entry := do
  let values ← Token.evaluate e.toReading tokens
  if values.length = width then return { e with slots := e.slots ++ values }
  else throw (.session (.leftover values.length width))

namespace Session

/-- Evaluates instructions for every document before any value is added. -/
def load (tokens : List Token) (width : Nat) : Action Session Unit := do
  let s ← get
  let entries ← Action.ofExcept (s.entries.mapM (Entry.load tokens width))
  set { s with entries := entries, width := s.width + width }

/-- Drops the values of the topmost `width` slots. -/
def unload (width : Nat) : Action Session Unit := do
  let s ← get
  if s.width < width then throw .stackUnderflow
  else
    let kept := s.width - width
    set { s with
      entries := s.entries.map fun (e : Entry) => { e with slots := e.slots.take kept }
      width := kept }

/-- Takes the handles of a statistic whose values have been loaded. -/
def occupy (shape : Shape) : Action Session StatRef := do
  let s ← get
  let (ref, stack) := s.stack.push shape
  set { s with stack := stack }
  return ref

/-- Gives up the handles of the innermost statistic and tells its width. -/
def release : Action Session Nat := do
  let s ← get
  let (width, stack) ← Action.ofExcept s.stack.pop
  set { s with stack := stack }
  return width

def push (stat : Stat) : Action Session StatRef := do
  let tokens ← Action.ofExcept (stat.compile (← get).scope)
  load tokens stat.width
  occupy stat.shape

/-- The handles go before the values: they are given up even when there are too few values to drop. -/
def pop : Action Session Unit := do
  let width ← release
  unload width

end Session
end Rollup
