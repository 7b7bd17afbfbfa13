import Rollup.Action
import Rollup.Key
import Rollup.Settings
import Rollup.Stat.Compile

namespace Rollup

/-- A document in a session: what it offers to statistics, and its group. -/
structure Entry extends Reading where
  group : GroupId
  deriving DecidableEq

structure Session where
  entries : List Entry
  /-- One more than the highest group id in use, group zero counted. -/
  groupCount : Nat
  /-- How many slots every entry holds a value for. -/
  width : Nat
  stack : StatStack
  registry : MetricRegistry
  groupLimit : Nat
  /-- Breaks every term stream after so many records. -/
  failAfter : Option Nat
  deriving DecidableEq

namespace Session

/-- Opens a session with every document in group one. The number names its stack and its registry. -/
def new (id : Nat) (docs : List Document) (settings : Settings) : Session where
  entries := docs.map fun d => ⟨⟨d, [], []⟩, 1⟩
  groupCount := 2
  width := 0
  stack := .new id
  registry := .new id
  groupLimit := settings.groupLimit
  failAfter := none

/-- The group of each document, in document order. -/
def groups (s : Session) : List GroupId := s.entries.map (·.group)

/-- What compilation looks at in this session. -/
def scope (s : Session) : Scope := ⟨s.stack, s.registry⟩

/-- Puts each document into a given group; zero drops it. -/
def assign (groups : List GroupId) : Action Session Unit := do
  let s ← get
  if groups.length = s.entries.length then
    set { s with
      entries := s.entries.zipWith (fun (e : Entry) g => { e with group := g }) groups
      groupCount := groups.foldl Nat.max 0 + 1 }
  else throw (.session (.assignments s.entries.length groups.length))

/-- Registers a metric with one value per document. The values stay readable by name until they are
replaced; only the handle tells whether they are still meant. -/
def registerMetric (name : String) (values : List Int64) : Action Session MetricHandle := do
  let s ← get
  if values.length = s.entries.length then
    let (handle, registry) := s.registry.register name
    set { s with
      entries := s.entries.zipWith (fun (e : Entry) v => { e with metrics := (name, v) :: e.metrics }) values
      registry := registry }
    return handle
  else throw (.session (.metricValues name values.length s.entries.length))

end Session
end Rollup
