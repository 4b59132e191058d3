import Formula.Grammar
import Formula.Lowering
import Formula.Program.Rendering
import Formula.Program.Substitution
import Formula.Program.Symbols
import Formula.Simplification

/-!
Sessions: the state of evaluation together with the graphs lowered so far.
-/

namespace Formula

/-- What a graph is kept under: all that it depends on. -/
structure CacheKey where
  dialect : Nat
  /-- The simplified program as source text. -/
  text : Text
  arguments : List Text
  /-- The names of the dialect's functions. -/
  functions : List Text
  deriving Inhabited

/-- Whether two keys agree. The order of the functions does not matter. -/
def CacheKey.agrees (left right : CacheKey) : Bool :=
  left.dialect == right.dialect && left.text == right.text && left.arguments == right.arguments &&
    left.functions.all right.functions.contains && right.functions.all left.functions.contains

/-- The graphs lowered so far, and how often one was found or missed. -/
structure GraphCache where
  entries : List (CacheKey × Graph) := []
  hits : Nat := 0
  misses : Nat := 0
  deriving Inhabited

namespace GraphCache

def find? (cache : GraphCache) (key : CacheKey) : Option Graph :=
  (cache.entries.find? fun entry => entry.1.agrees key).map (·.2)

def size (cache : GraphCache) : Nat := cache.entries.length

/-- The share of hits; zero before the first search. -/
def hitRate (cache : GraphCache) : Float :=
  let searches := cache.hits + cache.misses
  if searches = 0 then 0.0 else Double.ofQuotient false cache.hits searches

end GraphCache

/-- What is told of a cache. -/
structure CacheStatistics where
  hits : Nat
  misses : Nat
  size : Nat
  hitRate : Float

def GraphCache.statistics (cache : GraphCache) : CacheStatistics where
  hits := cache.hits
  misses := cache.misses
  size := cache.size
  hitRate := cache.hitRate

structure Session where
  state : State := {}
  cache : GraphCache := {}
  deriving Inhabited

/-- The statistics of the cache, which a reset then empties. -/
def Session.statistics (session : Session) (reset : Bool) : CacheStatistics × Session :=
  let after := if reset then { session with cache := {} } else session
  (session.cache.statistics, after)

/-- A computation on a session. -/
abbrev Work := ExceptT Failure (StateT Session Option)

namespace Work

/-- A computation on the state of evaluation. -/
def ofEval {α : Type} (computation : Eval α) : Work α := fun session => do
  let (result, state) ← computation session.state
  some (result, { session with state := state })

end Work

/-- A program with the dialect whose tables it sees. -/
structure Expression where
  program : Program
  dialect : Nat
  deriving Inhabited

namespace Expression

/-- The expression that a source text denotes. -/
def parse (dialect : Nat) (source : Text) : Work Expression := do
  match Formula.parse ((← get).state.dialect dialect) source with
  | .ok term => return ⟨term.code, dialect⟩
  | .error failure => throw (.parse failure)

/-- The value of an expression in a scope, with requests nested up to a depth. -/
def evaluate (depth : Nat) (expression : Expression) (scope : Nat) : Work Value :=
  .ofEval (Machine.perform depth (.run expression.dialect expression.program scope))

/-- The expression with known values in place of names and with operators on literals worked out. -/
def simplify (depth : Nat) (expression : Expression) (values : Entries) : Work Expression := do
  let program ← Work.ofEval
    (expression.program.simplify (Machine.perform depth) expression.dialect values)
  return { expression with program := program }

/-- The expression with another program in place of a name. -/
def substitute (expression : Expression) (sought : Text) (replacement : Program) : Expression :=
  { expression with program := expression.program.substitute sought replacement }

/-- Source text for the expression. -/
def render (expression : Expression) : Work Text := do
  expression.program.render (← get).state.heap

/-- The names of an expression, or its dotted paths, that are no functions of its dialect. -/
def freeNames (session : Session) (expression : Expression) (withMembers : Bool) : List Text :=
  let names := if withMembers then expression.program.paths else expression.program.names
  let functions := (session.state.dialect expression.dialect).functions
  names.filter fun name => !functions.holds name

/-- The graph of a program that is simplified already. -/
def lowerSimplified (session : Session) (expression : Expression) (arguments : List Text) :
    Except Failure Graph :=
  expression.program.lower session.state.heap
    (session.state.dialect expression.dialect).functions arguments

/-- The graph of an expression, from the cache if it is allowed to come from there. The names of
arguments stay arguments, even if a value is known for them. -/
def lower (depth : Nat) (expression : Expression) (arguments : List Text) (values : Entries)
    (cached : Bool) : Work Graph := do
  let known := values.filter fun entry => !isArgument entry.1
  let expression ← expression.simplify depth known
  let text ← expression.render
  let session ← get
  if !cached then expression.lowerSimplified session arguments
  else
    let key : CacheKey :=
      { dialect := expression.dialect
        text := text
        arguments := arguments
        functions := (session.state.dialect expression.dialect).functions.map (·.1) }
    let cache := session.cache
    match cache.find? key with
    | some graph =>
      set { session with cache := { cache with hits := cache.hits + 1 } }
      return graph
    | none =>
      let missed := { cache with misses := cache.misses + 1 }
      set { session with cache := missed }
      let graph ← expression.lowerSimplified session arguments
      set { session with cache := { missed with entries := (key, graph) :: missed.entries } }
      return graph
where
  isArgument : Value → Bool
    | .text name => arguments.contains name
    | _ => false

/-- The graph of an expression that is kept together with its source text. -/
def compile (depth : Nat) (expression : Expression) (arguments : List Text) (values : Entries)
    (cached : Bool) : Work Graph := do
  let graph ← expression.lower depth arguments values cached
  let _ ← expression.render
  return graph

end Expression

end Formula
