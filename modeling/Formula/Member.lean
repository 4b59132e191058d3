import Formula.Heap
import Formula.Operation.Comparison

/-!
Members of values: what stands after a dot.
-/

namespace Formula

/-- What a name means as a member of a value. -/
inductive Member where
  | value (value : Value)
  /-- A callable of the host that belongs to the value. No table can hold it. -/
  | method

namespace Member

def ofBool (isMethod : Bool) : Member := if isMethod then .method else .value .null

/-- Whether a name is one of a list of words. -/
def isAmong (names : List String) (name : Text) : Bool :=
  names.any fun known => Text.ofString known == name

def integerMethods : List String :=
  ["as_integer_ratio", "bit_count", "bit_length", "conjugate", "from_bytes", "to_bytes"]

def floatMethods : List String := ["as_integer_ratio", "conjugate", "fromhex", "hex", "is_integer"]

def textMethods : List String :=
  ["capitalize", "casefold", "center", "count", "encode", "endswith", "expandtabs", "find",
   "format", "format_map", "index", "isalnum", "isalpha", "isascii", "isdecimal", "isdigit",
   "isidentifier", "islower", "isnumeric", "isprintable", "isspace", "istitle", "isupper", "join",
   "ljust", "lower", "lstrip", "maketrans", "partition", "removeprefix", "removesuffix", "replace",
   "rfind", "rindex", "rjust", "rpartition", "rsplit", "rstrip", "split", "splitlines",
   "startswith", "strip", "swapcase", "title", "translate", "upper", "zfill"]

def listMethods : List String :=
  ["append", "clear", "copy", "count", "extend", "index", "insert", "pop", "remove", "reverse",
   "sort"]

def tupleMethods : List String := ["count", "index"]

/-- An integer is a fraction and a complex number of its own. -/
def ofInteger (value : Int) (name : Text) : Member :=
  if isAmong ["real", "numerator"] name then .value (.int value)
  else if isAmong ["imag"] name then .value (.int 0)
  else if isAmong ["denominator"] name then .value (.int 1)
  else ofBool (isAmong integerMethods name)

def ofFloat (value : Value) (name : Text) : Member :=
  if isAmong ["real"] name then .value value
  else if isAmong ["imag"] name then .value (.float 0.0)
  else ofBool (isAmong floatMethods name)

end Member

/-- The member of a value under a name. What a mapping or an object lacks is null. -/
def Heap.member (heap : Heap) (value : Value) (name : Text) : Member :=
  match value with
  | .map place | .object place =>
    .value ((heap.lookup (.text name) (heap.entries place)).getD .null)
  | .int value => .ofInteger value name
  | .bool value => .ofInteger value.toInt name
  | .float _ | .notANumber _ => .ofFloat value name
  | .text _ => .ofBool (Member.isAmong Member.textMethods name)
  | .list _ => .ofBool (Member.isAmong Member.listMethods name)
  | .tuple _ => .ofBool (Member.isAmong Member.tupleMethods name)
  | .null | .builtin _ | .defined _ | .host _ _ => .value .null

end Formula
