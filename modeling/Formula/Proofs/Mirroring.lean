import Formula.Proofs.Compilation
import Formula.Proofs.Imitation
import Formula.Proofs.Pairing
import Formula.Proofs.Veiling

/-!
Worlds that mirror each other: their heaps do, their tables name and trust the same, and behind places
that correspond stand functions with bodies that come to the same.
-/

namespace Formula

/-- Only a dialect in its place has the standard operators. -/
theorem State.inside_of_operates {state : State} {dialect : Nat}
    (operates : (state.dialect dialect).Operates) : dialect < state.dialects.size := by
  by_contra outside
  have unary := operates.unary
  rw [State.dialect, Array.getD_eq_getD_getElem?, Array.getElem?_eq_none (Nat.le_of_not_lt outside)]
    at unary
  cases unary

/-- A function that joins those of a dialect is all that is trusted from then on besides. -/
theorem Dialect.trusts_insert {dialect : Dialect} {name : Text}
    (fresh : ∀ entry ∈ dialect.functions, entry.1 ≠ name) (function callable : Value) :
    Dialect.trusts { dialect with functions := dialect.functions.insert name function } callable =
      (dialect.trusts callable || function.sameCallable callable) := by
  simp only [trusts, Table.insert_fresh fresh, List.any_cons, List.any_append, List.any_nil,
    Bool.or_false]
  ac_rfl

theorem Recursion.World.define_dialect (world : World) (closure : Closure) {dialect : Nat}
    (own : closure.dialect = dialect) (inside : dialect < world.state.dialects.size) :
    (world.define closure).state.dialect dialect =
      { world.state.dialect dialect with
        functions := (world.state.dialect dialect).functions.insert
          (registeredName world.state.definitions) (.defined world.closures.size) } := by
  subst own
  exact (State.dialect_register ..).trans (if_pos ⟨rfl, inside⟩)

namespace Mirror

open Recursion (Closure)

/-- What has come up so far: data, and how many functions. -/
structure Stage (mirror : Mirror) extends mirror.World where
  functions : Nat
  functions_based : mirror.moves.functions.base ≤ functions

variable {mirror : Mirror}

namespace Stage

structure Reaches (before after : mirror.Stage) : Prop where
  data : before.toWorld.Reaches after.toWorld
  functions : before.functions ≤ after.functions

theorem Reaches.refl (stage : mirror.Stage) : stage.Reaches stage := ⟨.refl _, Nat.le_refl _⟩

theorem Reaches.trans {first second third : mirror.Stage} (left : first.Reaches second)
    (right : second.Reaches third) : first.Reaches third :=
  ⟨left.data.trans right.data, Nat.le_trans left.functions right.functions⟩

variable (stage : mirror.Stage)

/-- Functions that the dialect trusts. -/
def HasFunction (place : Nat) : Prop :=
  mirror.trusted place ∨ mirror.moves.functions.base ≤ place ∧ place < stage.functions

def Trusts (function : Value) : Prop := ∀ place, function = .defined place → stage.HasFunction place

/-- Functions that stand at places that correspond. -/
structure Pairs (one two : Closure) : Prop where
  name : two.name = one.name
  parameters : two.parameters = one.parameters
  dialect : one.dialect = mirror.dialect
  dialectTwo : two.dialect = mirror.dialect
  scope : stage.HasScope one.scope
  scopeTwo : two.scope = mirror.moves.maps.place one.scope
  opens : ∀ parameter ∈ one.parameters,
    mirror.Binds (mirror.inner (stage.veiled one.scope)) parameter
  bodies : mirror.Twins (mirror.inner (stage.veiled one.scope)) one.body two.body

/-- Dialects that name and trust the same. -/
structure Tables (one two : Dialect) : Prop where
  operates : one.Operates
  operatesTwo : two.Operates
  options : one.options = mirror.options
  optionsTwo : two.options = mirror.options
  named : ∀ word, mirror.Reads word →
    two.functions.get? word = (one.functions.get? word).map (·.move mirror.moves)
  standards : ∀ word, standardFunctions.get? word ≠ none → one.functions.get? word ≠ none
  entries : ∀ entry ∈ one.functions, entry ∈ standardFunctions ∨
    ∃ serial place, entry = (registeredName serial, .defined place) ∧ stage.HasFunction place
  entriesTwo : ∀ entry ∈ two.functions, entry ∈ standardFunctions ∨
    ∃ place serial, entry = (registeredName serial, .defined place)
  trusts : ∀ value, value.isCallable = true → stage.Knows value →
    two.trusts (value.move mirror.moves) = one.trusts value

structure Mirrors (one two : Recursion.World) : Prop where
  heaps : stage.Reflects one.state.heap two.state.heap
  tables : stage.Tables (one.state.dialect mirror.dialect) (two.state.dialect mirror.dialect)
  fresh : ∀ entry ∈ (one.state.dialect mirror.dialect).functions, ∀ serial,
    one.state.definitions ≤ serial → entry.1 ≠ registeredName serial
  freshTwo : ∀ entry ∈ (two.state.dialect mirror.dialect).functions, ∀ serial,
    two.state.definitions ≤ serial → entry.1 ≠ registeredName serial
  seeds : two.state.seed = one.state.seed
  definitions : two.state.definitions = one.state.definitions + mirror.definitions
  size : one.closures.size = stage.functions
  sizeTwo : two.closures.size = mirror.moves.functions.place stage.functions
  closures : ∀ place, stage.HasFunction place → ∃ closure other, one.closures[place]? = some closure ∧
    two.closures[mirror.moves.functions.place place]? = some other ∧ stage.Pairs closure other

variable {stage} {after : mirror.Stage} {one two : Recursion.World}

theorem HasFunction.later (reaches : stage.Reaches after) {place : Nat} (has : stage.HasFunction place) :
    after.HasFunction place :=
  has.imp_right fun new => ⟨new.1, Nat.lt_of_lt_of_le new.2 reaches.functions⟩

theorem HasFunction.knows {place : Nat} (has : stage.HasFunction place) : stage.Knows (.defined place) :=
  has.imp (mirror.trusted_known place) (·.1)

theorem Trusts.later (reaches : stage.Reaches after) {function : Value} (trusted : stage.Trusts function) :
    after.Trusts function :=
  fun place same => (trusted place same).later reaches

theorem Pairs.later (reaches : stage.Reaches after) {left right : Closure} (pairs : stage.Pairs left right) :
    after.Pairs left right := by
  have veil := reaches.data.veiled left.scope pairs.scope.below
  exact ⟨pairs.name, pairs.parameters, pairs.dialect, pairs.dialectTwo, pairs.scope.later reaches.data,
    pairs.scopeTwo, veil ▸ pairs.opens, veil ▸ pairs.bodies⟩

/-- Whether a callable is known does not depend on what has come up. -/
theorem knows_callable {value : Value} (callable : value.isCallable = true) (known : after.Knows value) :
    stage.Knows value := by
  cases value <;> first | exact known | cases callable

theorem Tables.later (reaches : stage.Reaches after) {left right : Dialect}
    (tables : stage.Tables left right) : after.Tables left right where
  operates := tables.operates
  operatesTwo := tables.operatesTwo
  options := tables.options
  optionsTwo := tables.optionsTwo
  named := tables.named
  standards := tables.standards
  entries entry member := (tables.entries entry member).imp_right fun ⟨serial, place, same, has⟩ =>
    ⟨serial, place, same, has.later reaches⟩
  entriesTwo := tables.entriesTwo
  trusts value callable known := tables.trusts value callable (knows_callable callable known)

namespace Tables

variable {left right : Dialect} (tables : stage.Tables left right)

include tables

/-- What a table of operators names calls nothing that it is given, and is the assignment at most under
its own symbol. -/
theorem operator_plain {table : Dialect → Table} {symbol : Text} {function : Value}
    (kind : table = Dialect.unary ∨
      (table = Dialect.binary ∨ table = Dialect.ternary) ∧ symbol ≠ Text.ofString "=")
    (found : (table left).get? symbol = some function) :
    function.rebinds = false ∧ function.isDirect = true := by
  refine @Setting.operator_plain symbol function ?_
  rcases kind with rfl | ⟨rfl | rfl, other⟩
  · exact .inl (tables.operates.unary ▸ found)
  · exact .inr ⟨other, .inl (tables.operates.binary ▸ found)⟩
  · exact .inr ⟨other, .inr (tables.operates.ternary ▸ found)⟩

/-- What the table of functions names may be given out. -/
theorem knows_function {word : Text} {function : Value} (found : left.functions.get? word = some function) :
    stage.Knows function := by
  rcases tables.entries _ (Table.mem_of_get? found) with standard | ⟨serial, place, same, has⟩
  · have rebinds := (by decide : ∀ value ∈ standardFunctions.map (·.2), value.rebinds = false)
      function (List.mem_map_of_mem standard)
    obtain ⟨builtin, rfl⟩ := Table.builtin_of_mem (List.mem_map_of_mem standard)
    exact .inr rebinds
  · cases same
    exact has.knows

/-- The functions that the first dialect trusts have come up. -/
theorem trusts_of_trusts {function : Value} (trusts : left.trusts function = true) :
    stage.Trusts function := by
  rintro place rfl
  obtain ⟨entry, member, same⟩ := (Dialect.trusts_iff ..).mp trusts
  have builtin {value : Value} (standard : value ∈ standardUnary.map (·.2) ∨
      value ∈ standardBinary.map (·.2) ∨ value ∈ standardTernary.map (·.2)) :
      value.sameCallable (.defined place) = false := by
    obtain ⟨builtin, rfl, -⟩ := direct_of_mem standard
    rfl
  rcases member with inside | inside | inside | inside
  · rcases tables.entries entry inside with standard | ⟨serial, known, rfl, has⟩
    · obtain ⟨builtin, equal⟩ := Table.builtin_of_mem (List.mem_map_of_mem standard)
      rw [equal] at same
      cases same
    · have places : known = place := by simpa [Value.sameCallable] using same
      exact places ▸ has
  · rw [builtin (.inl (List.mem_map_of_mem (tables.operates.unary ▸ inside)))] at same
    cases same
  · rw [builtin (.inr (.inr (List.mem_map_of_mem (tables.operates.ternary ▸ inside))))] at same
    cases same
  · rw [builtin (.inr (.inl (List.mem_map_of_mem (tables.operates.binary ▸ inside))))] at same
    cases same

end Tables

/-- The stage at which data has come up. -/
def withData (stage : mirror.Stage) (data : mirror.World) : mirror.Stage := { stage with toWorld := data }

theorem reaches_withData {data : mirror.World} (reaches : stage.toWorld.Reaches data) :
    stage.Reaches (stage.withData data) := ⟨reaches, Nat.le_refl _⟩

/-- The stage at which one more function has come up. -/
def define (stage : mirror.Stage) : mirror.Stage :=
  { stage with
    functions := stage.functions + 1
    functions_based := Nat.le_succ_of_le stage.functions_based }

theorem reaches_define (stage : mirror.Stage) : stage.Reaches stage.define :=
  ⟨.refl _, Nat.le_succ _⟩

theorem define_hasFunction (stage : mirror.Stage) : stage.define.HasFunction stage.functions :=
  .inr ⟨stage.functions_based, Nat.lt_succ_self _⟩

theorem hasFunction_of_define {place : Nat} (has : stage.define.HasFunction place)
    (other : place ≠ stage.functions) : stage.HasFunction place := by
  refine has.imp_right fun new => ⟨new.1, ?_⟩
  have below : place < stage.functions + 1 := new.2
  omega

namespace Mirrors

variable (mirrors : stage.Mirrors one two)

include mirrors

/-- Other data on both sides. -/
theorem data {later : mirror.World} (reaches : stage.toWorld.Reaches later) {left right : Heap}
    (reflects : later.Reflects left right) :
    (stage.withData later).Mirrors ⟨{ one.state with heap := left }, one.closures⟩
      ⟨{ two.state with heap := right }, two.closures⟩ where
  heaps := reflects
  tables := mirrors.tables.later (reaches_withData reaches)
  fresh := mirrors.fresh
  freshTwo := mirrors.freshTwo
  seeds := mirrors.seeds
  definitions := mirrors.definitions
  size := mirrors.size
  sizeTwo := mirrors.sizeTwo
  closures place has := by
    obtain ⟨closure, other, found, foundTwo, pairs⟩ := mirrors.closures place has
    exact ⟨closure, other, found, foundTwo, pairs.later (reaches_withData reaches)⟩

/-- The same number to draw from on both sides. -/
theorem seed (seed : Nat) :
    stage.Mirrors ⟨{ one.state with seed := seed }, one.closures⟩
      ⟨{ two.state with seed := seed }, two.closures⟩ where
  heaps := mirrors.heaps
  tables := mirrors.tables
  fresh := mirrors.fresh
  freshTwo := mirrors.freshTwo
  seeds := rfl
  definitions := mirrors.definitions
  size := mirrors.size
  sizeTwo := mirrors.sizeTwo
  closures := mirrors.closures

theorem place_functions : mirror.moves.functions.place one.closures.size = two.closures.size := by
  rw [mirrors.size, mirrors.sizeTwo]

/-- A function that is defined on both sides. -/
theorem define {closure other : Closure} (pairs : stage.Pairs closure other)
    (binds : mirror.Binds (stage.veiled closure.scope) closure.name) :
    stage.define.Mirrors (one.define closure) (two.define other) := by
  have place := mirrors.place_functions
  have knownNew : stage.Knows (.defined one.closures.size) :=
    .inr (mirrors.size ▸ stage.functions_based)
  have tablesOne := one.define_dialect closure pairs.dialect
    (State.inside_of_operates mirrors.tables.operates)
  have tablesTwo := two.define_dialect other pairs.dialectTwo
    (State.inside_of_operates mirrors.tables.operatesTwo)
  have freshOne (entry : Text × Value) (member : entry ∈ (one.state.dialect mirror.dialect).functions) :
      entry.1 ≠ registeredName one.state.definitions := mirrors.fresh entry member _ (Nat.le_refl _)
  have freshTwo (entry : Text × Value) (member : entry ∈ (two.state.dialect mirror.dialect).functions) :
      entry.1 ≠ registeredName two.state.definitions := mirrors.freshTwo entry member _ (Nat.le_refl _)
  constructor
  · have bound := mirrors.heaps.bindName pairs.scope binds knownNew
    rw [Value.move_defined, place, ← pairs.scopeTwo] at bound
    change stage.Reflects _ (two.state.heap.setEntries other.scope
      (two.state.heap.bind (.text other.name) _ (two.state.heap.entries other.scope)))
    rw [pairs.name]
    exact bound
  · rw [tablesOne, tablesTwo]
    constructor
    · exact ⟨mirrors.tables.operates.unary, mirrors.tables.operates.binary, mirrors.tables.operates.ternary⟩
    · exact ⟨mirrors.tables.operatesTwo.unary, mirrors.tables.operatesTwo.binary,
        mirrors.tables.operatesTwo.ternary⟩
    · exact mirrors.tables.options
    · exact mirrors.tables.optionsTwo
    · intro word reads
      have names : word = registeredName two.state.definitions ↔
          word = registeredName one.state.definitions := by
        rcases reads with aligned | other
        · rw [mirrors.definitions, mirror.uncounted aligned, Nat.add_zero]
        · exact ⟨fun same => (other _ same).elim, fun same => (other _ same).elim⟩
      simp only [Table.get?_insert, names]
      split
      · rw [← place]
        rfl
      · exact mirrors.tables.named word reads
    · intro word standard
      rw [Table.get?_insert]
      split
      · exact nofun
      · exact mirrors.tables.standards word standard
    · intro entry member
      rcases Table.mem_insert member with rfl | old
      · exact .inr ⟨_, _, rfl, mirrors.size ▸ stage.define_hasFunction⟩
      · refine (mirrors.tables.entries entry old).imp_right fun ⟨serial, known, same, has⟩ => ?_
        exact ⟨serial, known, same, has.later stage.reaches_define⟩
    · intro entry member
      rcases Table.mem_insert member with rfl | old
      · exact .inr ⟨_, _, rfl⟩
      · exact mirrors.tables.entriesTwo entry old
    · intro value callable known
      have same := @Value.sameCallable_move mirror.moves (.defined one.closures.size) value
      rw [Value.move_defined, place] at same
      rw [Dialect.trusts_insert freshTwo, Dialect.trusts_insert freshOne, same,
        mirrors.tables.trusts value callable (knows_callable callable known)]
  · intro entry member serial later
    rw [tablesOne] at member
    rcases Table.mem_insert member with rfl | old
    · intro same
      have equal := registeredName_injective same
      have later : one.state.definitions + 1 ≤ serial := later
      omega
    · exact mirrors.fresh entry old serial (Nat.le_of_succ_le later)
  · intro entry member serial later
    rw [tablesTwo] at member
    rcases Table.mem_insert member with rfl | old
    · intro same
      have equal := registeredName_injective same
      have later : two.state.definitions + 1 ≤ serial := later
      omega
    · exact mirrors.freshTwo entry old serial (Nat.le_of_succ_le later)
  · exact mirrors.seeds
  · have counted := mirrors.definitions
    change two.state.definitions + 1 = one.state.definitions + 1 + mirror.definitions
    omega
  · exact (Array.size_push ..).trans (congrArg (· + 1) mirrors.size)
  · refine (Array.size_push ..).trans ?_
    rw [mirrors.sizeTwo]
    exact (Shift.place_succ stage.functions_based).symm
  · intro known has
    by_cases new : known = one.closures.size
    · subst new
      refine ⟨closure, other, Array.getElem?_push_size, ?_, pairs.later stage.reaches_define⟩
      rw [place]
      exact Array.getElem?_push_size
    · obtain ⟨old, oldOther, found, foundTwo, fits⟩ := mirrors.closures known
        (hasFunction_of_define has (mirrors.size ▸ new))
      refine ⟨old, oldOther, ?_, ?_, fits.later stage.reaches_define⟩
      · exact (Array.getElem?_push_lt (Array.getElem?_eq_some_iff.mp found).1).trans
          ((Array.getElem?_eq_getElem _).symm.trans found)
      · exact (Array.getElem?_push_lt (Array.getElem?_eq_some_iff.mp foundTwo).1).trans
          ((Array.getElem?_eq_getElem _).symm.trans foundTwo)

end Mirrors

end Stage

end Mirror

end Formula
