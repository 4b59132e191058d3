import Formula.Program

/-!
Terms: expressions as trees, and the postfix program that each stands for.
-/

namespace Formula

inductive Term where
  | literal (value : Value)
  | name (name : Text)
  | unary (symbol : Text) (operand : Term)
  /-- An operator that takes the values of both sides. Indexing is one, with the symbol `[`. -/
  | binary (symbol : Text) (left right : Term)
  /-- An operator whose right side may stay unevaluated. -/
  | shortCircuit (symbol : Text) (left right : Term)
  | conditional (condition yes no : Term)
  | assign (name : Text) (value : Term)
  | assignMember (object : Term) (member : Text) (value : Term)
  | define (name : Text) (parameters : List Text) (body : Term)
  | call (callee : Term) (arguments : List Term)
  | member (object : Term) (name : Text)
  | array (items : List Term)
  /-- A statement with nothing after its semicolon. -/
  | statement (body : Term)
  | sequence (first rest : Term)
  deriving Inhabited

namespace Term

def conditionSymbol : Text := Text.ofString "?"

def assignSymbol : Text := Text.ofString "="

def indexSymbol : Text := Text.ofString "["

mutual

/-- The postfix program of a term. What may stay unevaluated or runs later is a program of its
own. -/
def code : Term → Program
  | .literal value => [.literal value]
  | .name word => [.name word]
  | .unary symbol operand => operand.code ++ [.unary symbol]
  | .binary symbol left right => left.code ++ right.code ++ [.binary symbol]
  | .shortCircuit symbol left right => left.code ++ [.nested right.code, .binary symbol]
  | .conditional condition yes no =>
    condition.code ++ [.nested yes.code, .nested no.code, .ternary conditionSymbol]
  | .assign target value => [.target target, .nested value.code, .binary assignSymbol]
  | .assignMember object key value =>
    object.code ++ [.target key, .nested value.code, .ternary assignSymbol]
  | .define function parameters body =>
    .target function :: parameters.map .target ++ [.nested body.code, .define parameters.length]
  | .call callee arguments => callee.code ++ codeAll arguments ++ [.call arguments.length]
  | .member object key => object.code ++ [.member key]
  | .array items => codeAll items ++ [.array items.length]
  | .statement body => [.nested body.code]
  | .sequence first rest => [.nested (first.code ++ .discard :: rest.code)]

def codeAll : List Term → Program
  | [] => []
  | term :: rest => term.code ++ codeAll rest

end

/-- The name, if the term is nothing else. -/
def name? : Term → Option Text
  | .name word => some word
  | _ => none

end Term

end Formula
