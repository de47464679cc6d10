import BoundSql.Statement
import BoundSql.Text.Cut

/-!
# `BoundSql.Trace` — events about prepared statements

Preparing a statement emits one event, and none if the statement is faulty. What is prepared does not
depend on how events are configured.

## Contents
- **`TraceConfig`** with its defaults; **`TraceConfig.shorten`** cuts long texts.
- **`TraceEvent`** and **`TraceConfig.event`**.
- **`Statement.prepareTraced`** prepares a statement and lists the emitted events.
-/

namespace BoundSql

/-- The level of an event. -/
inductive TraceLevel where
  | error
  | warn
  | info
  | debug
  | trace
  deriving DecidableEq, Repr

/-- The name of the level. -/
def TraceLevel.name : TraceLevel → String
  | .error => "ERROR"
  | .warn => "WARN"
  | .info => "INFO"
  | .debug => "DEBUG"
  | .trace => "TRACE"

/-- At which level events are emitted, and how many bytes of the text they show. Without a number they
    show all of it. -/
structure TraceConfig where
  level : TraceLevel := .debug
  maxBytes : Option Nat := some 200
  deriving DecidableEq, Repr

/-- What is reported about a prepared statement. -/
structure TraceEvent where
  level : TraceLevel
  statement : StatementKind
  paramCount : Nat
  sql : String
  deriving DecidableEq, Repr

/-- The channel on which events are emitted. -/
def TraceEvent.target : String := "oraqb.sql"

namespace TraceConfig

/-- A change of the configuration. -/
inductive Step where
  | level (l : TraceLevel)
  | maxBytes (n : Nat)
  | unlimited

/-- The configuration after a change. -/
def apply (c : TraceConfig) : Step → TraceConfig
  | .level l => { c with level := l }
  | .maxBytes n => { c with maxBytes := some n }
  | .unlimited => { c with maxBytes := none }

/-- The default configuration after changes in order. -/
def ofSteps (steps : List Step) : TraceConfig :=
  steps.foldl apply {}

/-- A text as an event shows it: whole if it is short enough, else its beginning and three dots. -/
def shorten (c : TraceConfig) (sql : String) : String :=
  match c.maxBytes with
  | none => sql
  | some room =>
    if sql.utf8ByteSize ≤ room then sql
    else String.ofList (fitting room sql.toList) ++ "..."

/-- The event for a prepared statement. -/
def event (c : TraceConfig) (kind : StatementKind) (p : Prepared) : TraceEvent where
  level := c.level
  statement := kind
  paramCount := p.params.length
  sql := c.shorten p.sql

end TraceConfig

/-- The prepared statement, and the events that preparing it emits. -/
def Statement.prepareTraced (c : TraceConfig) (s : Statement) :
    Except Fault Prepared × List TraceEvent :=
  match s.prepare with
  | .ok p => (.ok p, [c.event s.kind p])
  | .error f => (.error f, [])

/-- Tracing changes nothing about what is prepared. -/
@[simp] theorem Statement.prepareTraced_fst (c : TraceConfig) (s : Statement) :
    (s.prepareTraced c).1 = s.prepare := by
  unfold prepareTraced
  split <;> simp [*]

end BoundSql
