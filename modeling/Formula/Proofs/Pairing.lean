import Formula.Proofs.Exchange

/-!
The pairs of states in which a program and its simplified form run, and what keeps them.
-/

namespace Formula

open Machine

/-- What is seen of a function that an expression defined: all but its body. -/
def DefinedFunction.signature (function : DefinedFunction) : Text × List Value × Nat × Nat :=
  (function.name, function.parameters, function.dialect, function.scope)

/-- States that differ in the bodies of functions only. -/
structure State.Resembles (one two : State) : Prop where
  alike : two = one.withFunctions two.heap.functions
  signatures : two.heap.functions.map (·.signature) = one.heap.functions.map (·.signature)

theorem State.Resembles.refl (state : State) : state.Resembles state := ⟨rfl, rfl⟩

theorem State.Resembles.size {one two : State} (resembles : one.Resembles two) :
    two.heap.functions.size = one.heap.functions.size := by
  simpa using congrArg Array.size resembles.signatures

theorem State.define_withFunctions {state : State} {functions : Array DefinedFunction}
    (size : functions.size = state.heap.functions.size) (one two : DefinedFunction)
    (same : two.signature = one.signature) (scope : Nat) :
    (state.withFunctions functions).define scope two =
      (state.define scope one).withFunctions (functions.push two) := by
  obtain ⟨name, parameters, left, dialect, own⟩ := one
  obtain ⟨_, _, right, _, _⟩ := two
  cases same
  have heaps : ((state.withFunctions functions).define scope
      ⟨name, parameters, right, dialect, own⟩).heap =
        ((state.define scope ⟨name, parameters, left, dialect, own⟩).withFunctions
          (functions.push ⟨name, parameters, right, dialect, own⟩)).heap := by
    rw [define_heap]
    change _ = (State.heap _).withFunctions _
    rw [define_heap]
    change ((state.heap.withFunctions functions).setEntries scope
      ((state.heap.withFunctions functions).bind _ (.defined functions.size) _)).withFunctions _ = _
    rw [Heap.withFunctions_bind, size]
    rfl
  have tables : ((state.withFunctions functions).define scope
      ⟨name, parameters, right, dialect, own⟩).dialects =
        (state.define scope ⟨name, parameters, left, dialect, own⟩).dialects := by
    change state.dialects.setIfInBounds dialect { state.dialect dialect with
      functions := (state.dialect dialect).functions.insert (registeredName state.definitions)
        (.defined functions.size) } = _
    rw [size]
    rfl
  rw [State.mk.injEq]
  exact ⟨heaps, tables, rfl, rfl⟩
/-- What stays as it is while a program and its simplified form run: the known values, the dialect, the
context and how many mappings there were at first. Good values are those that may be stored: none is a
context of the runs, or none is one of the functions behind `=`. -/
structure Setting where
  values : Entries
  options : Options
  dialect : Nat
  scope : Nat
  size : Nat
  good : Value → Prop
  knowable : Knowable options values
  made : ∀ value, value.isGiven = false → good value
  builtin : ∀ function, (Value.builtin function).rebinds = false → good (.builtin function)
  apart : (∀ value, good value → value.rebinds = false) ∨
    ∀ place, place = scope ∨ size ≤ place → ¬ good (.map place)

namespace Setting

variable (setting : Setting)

/-- What has come up so far: functions that the runs defined, and contexts that hold what is known. -/
structure World where
  own : Nat → Prop
  scopes : Nat → Prop

structure World.Reaches (before after : World) : Prop where
  own : ∀ place, before.own place → after.own place
  scopes : ∀ place, before.scopes place → after.scopes place

def World.Trusts (world : World) (function : Value) : Prop :=
  ∀ place, function = .defined place → world.own place

/-- Programs in the place of each other. -/
structure Counterparts (one two : Program) : Prop where
  exchanges : Exchanges (knownFacts setting.values) one two
  modestOne : one.Modest setting.values
  modestTwo : two.Modest setting.values
  settlesOne : settles one = true
  settlesTwo : settles two = true

inductive Bodies : Operand → Operand → Prop
  | value {value : Value} (good : setting.good value) : Bodies (.value value) (.value value)
  | suspended {one two : Program} (counterparts : setting.Counterparts one two) :
      Bodies (.suspended one) (.suspended two)

/-- A name that nothing is known of. -/
def Free (operand : Operand) : Prop :=
  ∃ word, operand = .value (.text word) ∧ named setting.values word = none

/-- The functions behind a place of the heaps, when the runs have defined them. -/
structure Owned (world : World) (one two : DefinedFunction) : Prop where
  dialect : one.dialect = setting.dialect
  scope : world.scopes one.scope
  parameters : ∀ parameter ∈ one.parameters,
    ∃ word, parameter = .text word ∧ named setting.values word = none
  bodies : setting.Bodies one.body two.body

/-- Whether a mapping binds each known name to what is known of it. -/
def Binds (entries : Entries) : Prop :=
  ∀ name value, named setting.values name = some value → named entries name = some value

structure Paired (world : World) (one two : State) : Prop where
  resembles : one.Resembles two
  holds : one.heap.Holds setting.good
  size : setting.size ≤ one.heap.maps.size
  operates : (one.dialect setting.dialect).Operates
  options : (one.dialect setting.dialect).options = setting.options
  functions : ∀ entry ∈ (one.dialect setting.dialect).functions, entry ∈ standardFunctions ∨
    ∃ place serial, entry = (registeredName serial, .defined place) ∧ world.own place
  scopes : ∀ place, world.scopes place → (place = setting.scope ∨ setting.size ≤ place) ∧
    place < one.heap.maps.size ∧ setting.Binds (one.heap.entries place)
  own : ∀ place, world.own place → ∃ left right, one.heap.function? place = some left ∧
    two.heap.function? place = some right ∧ right.signature = left.signature ∧
    setting.Owned world left right

/-- Calls that may come up: on good values, or of the functions behind `=` to bind a free name. -/
inductive Calls (world : World) : Value → List Value → Prop
  | ordinary {function : Value} {arguments : List Value} (good : setting.good function)
      (inside : ∀ argument ∈ arguments, setting.good argument)
      (permitted : Permitted world.Trusts function arguments) : Calls world function arguments
  | assign {word : Text} {value : Value} (place : Nat) (free : named setting.values word = none)
      (good : setting.good value) : Calls world (.builtin .assign) [.text word, value, .map place]
  | assignMember {target value : Value} {word : Text} (free : named setting.values word = none)
      (goodTarget : setting.good target) (good : setting.good value) :
      Calls world (.builtin .assignMember) [target, .text word, value]

def relations : Relations where
  World := World
  reaches := World.Reaches
  states := setting.Paired
  values _ := setting.good
  trusted := World.Trusts
  calls := setting.Calls
  carries world function total := setting.good function ∧ Carried world.Trusts function total
  frames world frame := frame.dialect = setting.dialect ∧ world.scopes frame.scope
  programs _ _ := setting.Counterparts
  binds _ _ := setting.Free

variable {setting} {world after : World} {one two : State}

theorem World.Reaches.trusts (reaches : world.Reaches after) {function : Value}
    (trusted : world.Trusts function) : after.Trusts function :=
  fun place same => reaches.own place (trusted place same)

theorem Calls.later (reaches : world.Reaches after) {function : Value} {arguments : List Value}
    (calls : setting.Calls world function arguments) : setting.Calls after function arguments := by
  cases calls with
  | ordinary good inside permitted =>
      exact .ordinary good inside (permitted.later fun _ => reaches.trusts)
  | assign place free good => exact .assign place free good
  | assignMember free goodTarget good => exact .assignMember free goodTarget good

theorem Owned.later (reaches : world.Reaches after) {left right : DefinedFunction}
    (owned : setting.Owned world left right) : setting.Owned after left right :=
  ⟨owned.dialect, reaches.scopes _ owned.scope, owned.parameters, owned.bodies⟩

/-- Other data in the heap, on both sides, as long as contexts hold what is known. -/
theorem Paired.data (paired : setting.Paired world one two) {heap : Heap}
    (keeps : one.heap.Keeps setting.good (fun _ => True) heap)
    (binds : ∀ place, world.scopes place → setting.Binds (one.heap.entries place) →
      setting.Binds (heap.entries place)) :
    setting.Paired world { one with heap := heap }
      { two with heap := heap.withFunctions two.heap.functions } where
  resembles := by
    obtain ⟨alike, signatures⟩ := paired.resembles
    constructor
    · rw [alike]
      rfl
    · simpa [keeps.functions] using signatures
  holds := keeps.holds
  size := by simpa [keeps.size] using paired.size
  operates := paired.operates
  options := paired.options
  functions := paired.functions
  scopes place known := by
    obtain ⟨ours, bound, held⟩ := paired.scopes place known
    exact ⟨ours, by simpa [keeps.size] using bound, binds place known held⟩
  own place known := by
    obtain ⟨left, right, foundOne, foundTwo, same, owned⟩ := paired.own place known
    exact ⟨left, right, by simpa [Heap.function?, keeps.functions] using foundOne, foundTwo, same, owned⟩

theorem Paired.act (paired : setting.Paired world one two) {action : Action Value}
    (tame : action.Tame setting.good (fun _ => True) setting.good)
    (binds : ∀ value heap, action one.heap = .ok (value, heap) → ∀ place, world.scopes place →
      setting.Binds (one.heap.entries place) → setting.Binds (heap.entries place)) :
    setting.relations.From world one two (Eval.act action) (Eval.act action)
      setting.relations.Same := by
  intro outcome reached found
  rw [Eval.act_apply] at found
  have counterpart : action two.heap = (action one.heap).map fun outcome =>
      (outcome.1, outcome.2.withFunctions two.heap.functions) := by
    rw [paired.resembles.alike]
    exact tame.blind one.heap paired.holds two.heap.functions
  cases came : action one.heap with
  | error failure =>
      rw [came] at found counterpart
      cases found
      refine ⟨world, .error failure, two, ⟨fun _ => id, fun _ => id⟩, ?_, paired, .error failure⟩
      rw [Eval.act_apply, counterpart]
      rfl
  | ok result =>
      obtain ⟨value, heap⟩ := result
      rw [came] at found counterpart
      cases found
      obtain ⟨good, keeps⟩ := tame.keeps one.heap paired.holds _ came
      refine ⟨world, .ok value, _, ⟨fun _ => id, fun _ => id⟩, ?_,
        paired.data keeps (binds value heap came), .ok ⟨rfl, good⟩⟩
      rw [Eval.act_apply, counterpart]
      rfl

theorem Paired.seed (paired : setting.Paired world one two) (seed : Nat) :
    setting.Paired world { one with seed := seed } { two with seed := seed } where
  resembles := by
    obtain ⟨alike, signatures⟩ := paired.resembles
    exact ⟨by rw [alike]; rfl, signatures⟩
  holds := paired.holds
  size := paired.size
  operates := paired.operates
  options := paired.options
  functions := paired.functions
  scopes := paired.scopes
  own := paired.own

theorem Paired.draw (paired : setting.Paired world one two) :
    setting.Paired world one.draw.2 two.draw.2 := by
  have drawn (state : State) : state.draw.2 = { state with
      seed := (state.seed * 6364136223846793005 + 1442695040888963407) % twoTo 64 } := rfl
  have seeds : two.seed = one.seed := by
    rw [paired.resembles.alike]
    rfl
  rw [drawn, drawn, seeds]
  exact paired.seed _

/-- The world in which a context has been added. -/
def World.enter (world : World) (scope : Nat) : World :=
  { world with scopes := fun place => world.scopes place ∨ place = scope }

theorem World.reaches_enter (world : World) (scope : Nat) : world.Reaches (world.enter scope) where
  own _ known := known
  scopes _ known := Or.inl known

theorem Paired.enter (paired : setting.Paired world one two) {entries : Entries}
    (good : ∀ entry ∈ entries, setting.good entry.2) (binds : setting.Binds entries) :
    setting.Paired (world.enter one.heap.maps.size)
      { one with heap := (one.heap.addMap entries).2 }
      { two with heap := (two.heap.addMap entries).2 } := by
  have added (place : Nat) : (one.heap.addMap entries).2.entries place =
      if place = one.heap.maps.size then entries else one.heap.entries place := by
    simp only [Heap.addMap, Heap.entries, Array.getD_eq_getD_getElem?, Array.getElem?_push]
    split <;> rfl
  constructor
  · obtain ⟨alike, signatures⟩ := paired.resembles
    exact ⟨by rw [alike]; rfl, signatures⟩
  · constructor
    · exact paired.holds.sequences
    · intro place entry member
      rw [added] at member
      split at member
      · exact good entry member
      · exact paired.holds.entries place entry member
  · simpa [Heap.addMap] using Nat.le_succ_of_le paired.size
  · exact paired.operates
  · exact paired.options
  · exact paired.functions
  · rintro place (known | rfl)
    · obtain ⟨ours, bound, held⟩ := paired.scopes place known
      refine ⟨ours, by simpa [Heap.addMap] using Nat.lt_succ_of_lt bound, ?_⟩
      rw [added, if_neg (Nat.ne_of_lt bound)]
      exact held
    · refine ⟨.inr paired.size, by simp [Heap.addMap], ?_⟩
      rw [added, if_pos rfl]
      exact binds
  · intro place known
    obtain ⟨left, right, foundOne, foundTwo, same, owned⟩ := paired.own place known
    exact ⟨left, right, foundOne, foundTwo, same, owned.later (world.reaches_enter _)⟩

/-- The world in which a function has been added. -/
def World.define (world : World) (place : Nat) : World :=
  { world with own := fun known => world.own known ∨ known = place }

theorem World.reaches_define (world : World) (place : Nat) : world.Reaches (world.define place) where
  own _ known := Or.inl known
  scopes _ known := known

theorem Paired.define (paired : setting.Paired world one two) {scope : Nat} {word : Text}
    {parameters : List Value} {left right : Operand} (bodies : setting.Bodies left right)
    (inside : world.scopes scope) (free : named setting.values word = none)
    (bindsFree : ∀ parameter ∈ parameters,
      ∃ word, parameter = .text word ∧ named setting.values word = none) :
    setting.Paired (world.define one.heap.functions.size)
      (one.define scope ⟨word, parameters, left, setting.dialect, scope⟩)
      (two.define scope ⟨word, parameters, right, setting.dialect, scope⟩) := by
  have sizes := paired.resembles.size
  have entries (place : Nat) :
      (one.define scope ⟨word, parameters, left, setting.dialect, scope⟩).heap.entries place =
        if place = scope ∧ scope < one.heap.maps.size then
          one.heap.bind (.text word) (.defined one.heap.functions.size) (one.heap.entries scope)
        else one.heap.entries place := by
    rw [State.define_heap, Heap.withFunctions_entries, Heap.entries_setEntries]
  have maps : (one.define scope ⟨word, parameters, left, setting.dialect, scope⟩).heap.maps.size =
      one.heap.maps.size := by
    rw [State.define_heap]
    simp [Heap.withFunctions, Heap.setEntries]
  have tables := State.define_dialect one scope
    ⟨word, parameters, left, setting.dialect, scope⟩ setting.dialect
  have earlier (entry : Text × Value)
      (member : entry ∈ (one.dialect setting.dialect).functions) : entry ∈ standardFunctions ∨
        ∃ place serial, entry = (registeredName serial, .defined place) ∧
          (world.define one.heap.functions.size).own place := by
    rcases paired.functions entry member with standard | ⟨place, serial, same, known⟩
    · exact .inl standard
    · exact .inr ⟨place, serial, same, .inl known⟩
  have resembles : (one.define scope ⟨word, parameters, left, setting.dialect, scope⟩).Resembles
      (two.define scope ⟨word, parameters, right, setting.dialect, scope⟩) := by
    constructor
    · have defined := State.define_withFunctions sizes
        ⟨word, parameters, left, setting.dialect, scope⟩
        ⟨word, parameters, right, setting.dialect, scope⟩ rfl scope
      rwa [← paired.resembles.alike] at defined
    · simp only [State.define_functions, Array.map_push, paired.resembles.signatures]
      rfl
  constructor
  · exact resembles
  · constructor
    · exact paired.holds.sequences
    · intro place entry member
      rw [entries] at member
      split at member
      · rcases Heap.mem_bind member with new | old
        · exact new ▸ setting.made _ rfl
        · exact paired.holds.entries scope entry old
      · exact paired.holds.entries place entry member
  · rw [maps]
    exact paired.size
  · rw [tables]
    split
    · exact ⟨paired.operates.unary, paired.operates.binary, paired.operates.ternary⟩
    · exact paired.operates
  · rw [tables]
    split
    · exact paired.options
    · exact paired.options
  · intro entry member
    rw [tables] at member
    split at member
    · rcases Table.mem_insert member with new | old
      · exact .inr ⟨_, _, new, .inr rfl⟩
      · exact earlier entry old
    · exact earlier entry member
  · intro place known
    obtain ⟨ours, bound, held⟩ := paired.scopes place known
    refine ⟨ours, by rwa [maps], fun name value found => ?_⟩
    rw [entries]
    split
    · rename_i here
      have other : word ≠ name := by
        rintro rfl
        simp [found] at free
      rw [one.heap.named_bind other]
      exact here.1 ▸ held name value found
    · exact held name value found
  · rintro place (known | rfl)
    · obtain ⟨old, new, foundOne, foundTwo, same, owned⟩ := paired.own place known
      exact ⟨old, new, State.define_function? foundOne _ _, State.define_function? foundTwo _ _, same,
        owned.later (world.reaches_define _)⟩
    · have added := State.define_function_new two scope
        ⟨word, parameters, right, setting.dialect, scope⟩
      rw [sizes] at added
      exact ⟨_, _, State.define_function_new .., added, rfl, rfl, inside, bindsFree, bodies⟩

theorem Bodies.operands {frame : Frame} {left right : Operand} (bodies : setting.Bodies left right) :
    setting.relations.Operands world frame left right := by
  cases bodies with
  | value good => exact .value good
  | suspended counterparts => exact .suspended counterparts

theorem bodies_of_operands {frame : Frame} {left right : Operand}
    (operands : setting.relations.Operands world frame left right) : setting.Bodies left right := by
  cases operands with
  | value good => exact .value good
  | suspended counterparts => exact .suspended counterparts

theorem Calls.applies {function : Builtin} {arguments : List Value}
    (calls : setting.Calls world (.builtin function) arguments) :
    setting.relations.Tracks world (Eval.act (function.apply arguments))
      (Eval.act (function.apply arguments)) setting.relations.Same := by
  intro one two paired
  cases calls with
  | ordinary good inside permitted =>
      have writable : (Value.builtin function).rebinds = true → ∀ place, .map place ∈ arguments →
          ¬ world.scopes place := by
        intro rebinds place member known
        rcases setting.apart with none | none
        · rw [none _ good] at rebinds
          cases rebinds
        · exact none place (paired.scopes place known).1 (inside _ member)
      have tame : (function.apply arguments).Tame setting.good (fun place => ¬ world.scopes place)
          setting.good := function.tame_apply setting.made inside writable
      refine paired.act (tame.widen fun _ _ => trivial) fun value heap came place known held => ?_
      have kept := (tame.keeps one.heap paired.holds _ came).2.entries place (not_not_intro known)
      rwa [kept]
  | @assign word value target free good =>
      have tame : (Sequence.assign (.map target) (.text word) value).Tame setting.good
          (fun _ => True) setting.good := Sequence.tame_assign (fun _ _ => trivial) good _
      refine paired.act tame fun result heap came place _ held name known found => ?_
      have came : Sequence.assign (.map target) (.text word) value one.heap = _ := came
      have other : word ≠ name := by
        rintro rfl
        simp [found] at free
      rw [Sequence.named_assign other came]
      exact held name known found
  | @assignMember target value word free goodTarget good =>
      have tame : (Sequence.assign target (.text word) value).Tame setting.good
          (fun _ => True) setting.good := Sequence.tame_assign (fun _ _ => trivial) good _
      refine paired.act tame fun result heap came place _ held name known found => ?_
      have other : word ≠ name := by
        rintro rfl
        simp [found] at free
      rw [Sequence.named_assign other came]
      exact held name known found

theorem Calls.enters {place : Nat} {arguments : List Value}
    (calls : setting.Calls world (.defined place) arguments) (paired : setting.Paired world one two) :
    setting.relations.Entered world one two arguments (one.heap.function? place)
      (two.heap.function? place) := by
  cases calls with
  | ordinary good inside permitted =>
      obtain ⟨left, right, foundOne, foundTwo, same, owned⟩ := paired.own place (permitted.1 place rfl)
      rw [foundOne, foundTwo]
      simp only [DefinedFunction.signature, Prod.mk.injEq] at same
      refine .found same.2.1 same.2.2.1 same.2.2.2 fun entries overlaid => ?_
      refine ⟨world.enter one.heap.maps.size, world.reaches_enter _, paired.enter ?_ ?_,
        ⟨owned.dialect, .inr rfl⟩, owned.bodies.operands⟩
      · intro entry member
        rcases mem_overlay overlaid member with given | old
        · exact inside _ given
        · exact paired.holds.entries left.scope entry old
      · intro name value found
        have others : ∀ parameter ∈ left.parameters, ∃ word, parameter = .text word ∧ word ≠ name := by
          intro parameter member
          obtain ⟨word, text, free⟩ := owned.parameters parameter member
          refine ⟨word, text, ?_⟩
          rintro rfl
          simp [found] at free
        rw [named_overlay others overlaid]
        exact (paired.scopes _ owned.scope).2.2 name value found

theorem defines {frame : Frame} (framed : setting.relations.frames world frame) {name : Operand}
    (free : setting.Free name) {parameters : List Operand}
    (parametersFree : ∀ parameter ∈ parameters, setting.Free parameter) {left right : Operand}
    (bodies : setting.relations.Operands world frame left right) :
    setting.relations.Tracks world (define frame (define.valueOf name) parameters left)
      (define frame (define.valueOf name) parameters right) setting.relations.Same := by
  obtain ⟨word, rfl, free⟩ := free
  obtain ⟨dialect, scope⟩ := frame
  obtain ⟨rfl, inside⟩ := framed
  intro one two paired outcome after found
  have values : ∀ parameter ∈ parameters.map define.valueOf,
      ∃ word, parameter = .text word ∧ named setting.values word = none := by
    intro value member
    obtain ⟨parameter, known, rfl⟩ := List.mem_map.mp member
    obtain ⟨word, rfl, free⟩ := parametersFree parameter known
    exact ⟨word, rfl, free⟩
  rw [define.valueOf, define_apply] at found
  cases found
  refine ⟨world.define one.heap.functions.size, _, _, world.reaches_define _, define_apply ..,
    paired.define (bodies_of_operands bodies) inside free values, ?_⟩
  rw [paired.resembles.size]
  split
  · exact .ok ⟨rfl, setting.made _ rfl⟩
  · exact .error _

/-- What the tables of the dialect hold may be given out, and is trusted rightly. -/
theorem Paired.trusts (paired : setting.Paired world one two) {function : Value}
    (trusts : (one.dialect setting.dialect).trusts function = true) : world.Trusts function := by
  rintro place rfl
  obtain ⟨entry, member, same⟩ := (Dialect.trusts_iff ..).mp trusts
  have builtin {value : Value}
      (standard : value ∈ standardUnary.map (·.2) ∨ value ∈ standardBinary.map (·.2) ∨
        value ∈ standardTernary.map (·.2)) : value.sameCallable (.defined place) = false := by
    obtain ⟨builtin, rfl, -⟩ := direct_of_mem standard
    rfl
  rcases member with inside | inside | inside | inside
  · rcases paired.functions entry inside with standard | ⟨known, serial, rfl, own⟩
    · obtain ⟨builtin, equal⟩ := Table.builtin_of_mem (List.mem_map_of_mem standard)
      rw [equal] at same
      cases same
    · have places : known = place := by simpa [Value.sameCallable] using same
      exact places ▸ own
  · rw [builtin (.inl (List.mem_map_of_mem (paired.operates.unary ▸ inside)))] at same
    cases same
  · rw [builtin (.inr (.inr (List.mem_map_of_mem (paired.operates.ternary ▸ inside))))] at same
    cases same
  · rw [builtin (.inr (.inl (List.mem_map_of_mem (paired.operates.binary ▸ inside))))] at same
    cases same

/-- Standard operators other than `=` call nothing and bind nothing. -/
theorem operator_plain {symbol : Text} {function : Value}
    (held : standardUnary.get? symbol = some function ∨ symbol ≠ Text.ofString "=" ∧
      (standardBinary.get? symbol = some function ∨ standardTernary.get? symbol = some function)) :
    function.rebinds = false ∧ function.isDirect = true := by
  rcases held with held | ⟨other, held | held⟩
  · exact (by decide : ∀ entry ∈ standardUnary, entry.2.rebinds = false ∧ entry.2.isDirect = true)
      _ (Table.mem_of_get? held)
  · exact (by decide : ∀ entry ∈ standardBinary, entry.1 ≠ Text.ofString "=" →
      entry.2.rebinds = false ∧ entry.2.isDirect = true) _ (Table.mem_of_get? held) other
  · exact (by decide : ∀ entry ∈ standardTernary, entry.1 ≠ Text.ofString "=" →
      entry.2.rebinds = false ∧ entry.2.isDirect = true) _ (Table.mem_of_get? held) other

theorem calls_plain {function : Value} (rebinds : function.rebinds = false)
    (direct : function.isDirect = true) {arguments : List Value}
    (inside : ∀ argument ∈ arguments, setting.good argument) :
    setting.Calls world function arguments := by
  cases function with
  | builtin builtin =>
      refine .ordinary (setting.builtin builtin rebinds) inside (.of_plain nofun ?_)
      cases builtin <;> first | rfl | cases direct
  | _ => cases direct

theorem good_withIndex {function : Value} {arguments : List Value}
    (inside : ∀ argument ∈ arguments, setting.good argument) (index : Nat) :
    ∀ argument ∈ withIndex function arguments index, setting.good argument := by
  intro argument member
  have either : withIndex function arguments index = arguments ++ [.int index] ∨
      withIndex function arguments index = arguments := ite_eq_or_eq _ _ _
  rcases either with same | same
  · rw [same, List.mem_append] at member
    rcases member with given | added
    · exact inside argument given
    · exact List.mem_singleton.mp added ▸ setting.made _ rfl
  · exact inside argument (same ▸ member)

def correspondence (setting : Setting) : Correspondence where
  toRelations := setting.relations
  reaches_refl _ := ⟨fun _ => id, fun _ => id⟩
  reaches_trans first second :=
    ⟨fun place known => second.own place (first.own place known),
      fun place known => second.scopes place (first.scopes place known)⟩
  values_later _ good := good
  trusted_later reaches trusted := reaches.trusts trusted
  carries_later reaches carried := ⟨carried.1, reaches.trusts carried.2.1,
    fun gathers callable => reaches.trusts (carried.2.2 gathers callable)⟩
  calls_later reaches calls := calls.later reaches
  frames_later reaches framed := ⟨framed.1, reaches.scopes _ framed.2⟩
  programs_later _ counterparts := counterparts
  binds_later _ free := free
  alike paired := ⟨_, paired.resembles.alike⟩
  opened _ := setting.made
  holds paired := paired.holds
  entry := by
    rintro world one two frame name function paired ⟨framed, -⟩ found
    rw [framed] at found
    rcases found with found | found
    · rcases paired.functions _ (Table.mem_of_get? found) with standard | ⟨place, serial, same, -⟩
      · have rebinds := (by decide : ∀ value ∈ standardFunctions.map (·.2), value.rebinds = false)
          function (List.mem_map_of_mem standard)
        obtain ⟨builtin, rfl⟩ := Table.builtin_of_mem (List.mem_map_of_mem standard)
        exact setting.builtin builtin rebinds
      · cases same
        exact setting.made _ rfl
    · rw [paired.operates.unary] at found
      have rebinds := (operator_plain (.inl found)).1
      obtain ⟨builtin, rfl, -⟩ := direct_of_mem (.inl (List.mem_map_of_mem (Table.mem_of_get? found)))
      exact setting.builtin builtin rebinds
  trust := by
    rintro world one two frame function paired ⟨framed, -⟩ trusts
    rw [framed] at trusts
    exact ⟨world, ⟨fun _ => id, fun _ => id⟩, paired, paired.trusts trusts⟩
  calls_trusted trusted good inside all := .ordinary good inside (.of_trusted trusted all)
  operates := by
    rintro world one two frame symbol function table paired ⟨framed, -⟩ kind found
    rw [framed] at found
    refine ⟨world, ⟨fun _ => id, fun _ => id⟩, paired, fun later reaches arguments inside => ?_⟩
    have held : standardUnary.get? symbol = some function ∨ symbol ≠ Text.ofString "=" ∧
        (standardBinary.get? symbol = some function ∨
          standardTernary.get? symbol = some function) := by
      rcases kind with rfl | ⟨rfl | rfl, other⟩
      · exact .inl (paired.operates.unary ▸ found)
      · exact .inr ⟨other, .inl (paired.operates.binary ▸ found)⟩
      · exact .inr ⟨other, .inr (paired.operates.ternary ▸ found)⟩
    obtain ⟨rebinds, direct⟩ := operator_plain held
    exact calls_plain rebinds direct inside
  assigns := by
    rintro world one two frame function paired ⟨framed, -⟩ found
    rw [framed, paired.operates.binary] at found
    cases found
    refine ⟨world, ⟨fun _ => id, fun _ => id⟩, paired, ?_⟩
    rintro later name value - ⟨word, same, free⟩ good
    cases same
    exact .assign _ free good
  assignsMember := by
    rintro world one two frame function paired ⟨framed, -⟩ found
    rw [framed, paired.operates.ternary] at found
    cases found
    refine ⟨world, ⟨fun _ => id, fun _ => id⟩, paired, ?_⟩
    rintro later target name value - ⟨word, same, free⟩ goodTarget good
    cases same
    exact .assignMember free goodTarget good
  visits := by
    rintro world traversal function collection place item kind calls callable sequence good index
    have inner : setting.good function ∧ world.Trusts function := by
      rcases kind with rfl | rfl <;> cases calls with
      | ordinary _ inside permitted =>
          exact ⟨inside _ List.mem_cons_self, permitted.2 (by rw [sequence]; rfl) callable⟩
    exact .ordinary inner.1 (good_withIndex (List.forall_mem_singleton.mpr good) index)
      (.visit inner.2 item index)
  folds := by
    rintro world function first collection place calls callable sequence
    cases calls with
    | ordinary _ inside permitted =>
        exact ⟨inside first (by simp), inside function (by simp), permitted.fold callable sequence⟩
  carries_calls carried goodTotal goodItem index := .ordinary carried.1
    (good_withIndex (List.forall_mem_cons.mpr
      ⟨goodTotal, List.forall_mem_singleton.mpr goodItem⟩) index) (carried.2.permitted _ index)
  carries_next carried gathered := ⟨carried.1, carried.2.1,
    fun gathers callable => by simp [gathered gathers] at callable⟩
  applies calls := calls.applies
  acts tame := fun _ _ paired => paired.act (tame.widen fun _ => False.elim)
    fun value heap came place _ held => by
      have kept := (tame.keeps _ paired.holds _ came).2.entries place id
      rwa [kept]
  draws paired := paired.draw
  enters calls paired := calls.enters paired
  defines framed free parametersFree bodies := Setting.defines framed free parametersFree bodies

end Setting

end Formula
