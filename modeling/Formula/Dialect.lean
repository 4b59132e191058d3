import Formula.Value

/-!
Dialects: the operators, functions and constants an expression may use, and the features switched
off. The tables of a dialect are the border of trust: a callable is trusted if one of them holds it.
-/

namespace Formula

/-- Values by name, in order of first insertion. -/
abbrev Table := List (Text × Value)

namespace Table

def get? (table : Table) (name : Text) : Option Value := List.lookup name table

def holds (table : Table) (name : Text) : Bool := (table.get? name).isSome

def insert (table : Table) (name : Text) (value : Value) : Table :=
  match table with
  | [] => [(name, value)]
  | (key, old) :: rest =>
    if key = name then (name, value) :: rest else (key, old) :: insert rest name value

def erase (table : Table) (name : Text) : Table := table.filter (·.1 ≠ name)

/-- The first name under which the table holds a callable. -/
def nameOf? (table : Table) (callable : Value) : Option Text :=
  (table.find? fun entry => entry.2.sameCallable callable).map (·.1)

def ofBuiltins (entries : List (String × Builtin)) : Table :=
  entries.map fun (name, function) => (Text.ofString name, .builtin function)

end Table

/-- Features switched on and off. An operator is on unless its feature is listed as off. -/
structure Options where
  memberAccess : Bool := true
  features : List (Text × Bool) := []
  deriving Inhabited

structure Dialect where
  options : Options := {}
  unary : Table
  binary : Table
  ternary : Table
  functions : Table
  constants : Table
  deriving Inhabited

/-- Features that are not named like their operators. -/
def featureNames : List (String × String) :=
  [("+", "add"), ("-", "subtract"), ("*", "multiply"), ("/", "divide"), ("%", "remainder"),
   ("^", "power"), ("!", "factorial"), ("<", "comparison"), (">", "comparison"),
   ("<=", "comparison"), (">=", "comparison"), ("==", "comparison"), ("!=", "comparison"),
   ("||", "concatenate"), ("and", "logical"), ("or", "logical"), ("not", "logical"),
   ("?", "conditional"), (":", "conditional"), ("=", "assignment"), ("[", "array"),
   ("()=", "fndef")]

/-- The feature that an operator belongs to. -/
def featureOf (symbol : Text) : Text :=
  match featureNames.find? fun (operator, _) => Text.ofString operator == symbol with
  | some (_, feature) => Text.ofString feature
  | none => symbol

namespace Dialect

/-- Whether an operator is switched on. -/
def enables (dialect : Dialect) (symbol : Text) : Bool :=
  (dialect.options.features.lookup (featureOf symbol)).getD true

/-- Whether one of the tables holds this very callable. -/
def trusts (dialect : Dialect) (callable : Value) : Bool :=
  [dialect.functions, dialect.unary, dialect.ternary, dialect.binary].any fun table =>
    table.any fun entry => entry.2.sameCallable callable

def isPrefixOperator (dialect : Dialect) (symbol : Text) : Bool := dialect.unary.holds symbol

/-- Whether a word is an operator of any kind. -/
def isOperatorWord (dialect : Dialect) (word : Text) : Bool :=
  dialect.binary.holds word || dialect.unary.holds word || dialect.ternary.holds word

end Dialect

def standardUnary : Table := .ofBuiltins
  [("sin", .sin), ("cos", .cos), ("tan", .tan), ("asin", .asin), ("acos", .acos), ("atan", .atan),
   ("sinh", .sinh), ("cosh", .cosh), ("tanh", .tanh), ("asinh", .asinh), ("acosh", .acosh),
   ("atanh", .atanh), ("sqrt", .sqrt), ("cbrt", .cbrt), ("log", .log), ("log2", .log2),
   ("ln", .log), ("lg", .log10), ("log10", .log10), ("expm1", .expm1), ("log1p", .log1p),
   ("abs", .abs), ("ceil", .ceil), ("floor", .floor), ("round", .round), ("trunc", .trunc),
   ("-", .negate), ("+", .positive), ("exp", .exp), ("not", .not), ("length", .length),
   ("!", .factorial), ("sign", .sign)]

def standardBinary : Table := .ofBuiltins
  [("+", .add), ("-", .subtract), ("*", .multiply), ("/", .divide), ("%", .remainder),
   ("^", .pow), ("||", .concat), ("==", .equal), ("!=", .notEqual), (">", .greater),
   ("<", .less), (">=", .greaterEqual), ("<=", .lessEqual), ("and", .conjunction),
   ("or", .disjunction), ("in", .contains), ("=", .assign), ("[", .index)]

def standardTernary : Table := .ofBuiltins [("?", .choose), ("=", .assignMember)]

def standardFunctions : Table := .ofBuiltins
  [("random", .random), ("fac", .factorial), ("min", .min), ("max", .max), ("hypot", .hypot),
   ("pyt", .hypot), ("pow", .pow), ("atan2", .atan2), ("if", .choose), ("gamma", .gamma),
   ("roundTo", .roundTo), ("map", .map), ("fold", .fold), ("filter", .filter),
   ("indexOf", .indexOf), ("join", .join), ("sum", .sum)]

def standardConstants : Table :=
  [(Text.ofString "E", .float (Float.ofBits 0x4005BF0A8B145769)),
   (Text.ofString "PI", .float (Float.ofBits 0x400921FB54442D18)),
   (Text.ofString "true", .bool true),
   (Text.ofString "false", .bool false)]

/-- The dialect with every operator and function and the given features switched off. -/
def Dialect.standard (options : Options) : Dialect :=
  { options := options
    unary := standardUnary
    binary := standardBinary
    ternary := standardTernary
    functions := standardFunctions
    constants := standardConstants }

end Formula
