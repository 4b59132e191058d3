import Formula.Text

/-!
The built-in functions. Each is one object: two names for one function share its constructor, so
trust in a function can be decided by comparing constructors.
-/

namespace Formula

inductive Builtin where
  | sin | cos | tan | asin | acos | atan | sinh | cosh | tanh | asinh | acosh | atanh
  | sqrt | cbrt | log | log2 | log10 | expm1 | log1p | exp
  | abs | ceil | floor | round | trunc | negate | positive | not | length | factorial | sign
  | add | subtract | multiply | divide | remainder | pow | exactPower | concat
  | equal | notEqual | greater | less | greaterEqual | lessEqual | conjunction | disjunction
  | contains | assign | index
  | choose | assignMember
  | random | min | max | hypot | atan2 | gamma | roundTo | map | fold | filter | indexOf | join | sum
  | toText
  deriving DecidableEq, Repr

/-- How many arguments a function takes, and whether a traversal may add the element's index. -/
structure Arity where
  least : Nat
  most : Option Nat
  takesIndex : Bool := true
  deriving DecidableEq, Repr

namespace Arity

def exactly (count : Nat) : Arity := ⟨count, some count, true⟩

def atLeast (count : Nat) : Arity := ⟨count, none, true⟩

def between (least most : Nat) : Arity := ⟨least, some most, true⟩

/-- Functions whose parameters are not on record never receive an index. -/
def withoutIndex (arity : Arity) : Arity := { arity with takesIndex := false }

def accepts (arity : Arity) (count : Nat) : Bool :=
  arity.least ≤ count && arity.most.all (count ≤ ·)

end Arity

namespace Builtin

def arity : Builtin → Arity
  | .log => (Arity.between 1 2).withoutIndex
  | .hypot => (Arity.atLeast 0).withoutIndex
  | .min | .max => .atLeast 0
  | .random => .between 0 1
  | .roundTo => .between 1 2
  | .assign => .between 2 3
  | .choose | .assignMember | .fold => .exactly 3
  | .add | .subtract | .multiply | .divide | .remainder | .pow | .exactPower | .concat
  | .equal | .notEqual | .greater | .less | .greaterEqual | .lessEqual | .conjunction
  | .disjunction | .contains | .index | .atan2 | .map | .filter | .indexOf | .join => .exactly 2
  | _ => .exactly 1

/-- Whether the function belongs to the mathematics library rather than to this language; the two
kinds have different type names. -/
def isMathematical : Builtin → Bool
  | .sin | .cos | .tan | .asin | .acos | .atan | .sinh | .cosh | .tanh | .asinh | .acosh | .atanh
  | .sqrt | .log | .log2 | .expm1 | .log1p | .exp | .abs | .ceil | .floor | .pow | .hypot
  | .atan2 => true
  | _ => false

end Builtin

end Formula
