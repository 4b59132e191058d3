import Formula.Proofs.Caching
import Formula.Proofs.Contents
import Formula.Proofs.Doubles
import Formula.Proofs.Running

/-!
Where the literals of a program end. Each is a constant node, and two are one node only if they are the same
scalar, or both zero, or lists of numbers of the same sizes: the sign of a zero is lost, and so is the kind of
a number within a list.
-/

namespace Formula

/-- The value of an instruction that is a literal. -/
def Instruction.literal? : Instruction → Option Value
  | .literal value => some value
  | _ => none

/-- The literals of a program, at every depth, one for each occurrence. -/
def Program.literals (program : Program) : List Value := program.contents.filterMap Instruction.literal?

/-- Whether two constants are the same, but for the sign of a zero and for the kinds of numbers in a list. -/
inductive Constant.Resembles : Constant → Constant → Prop
  | same (constant : Constant) : Resembles constant constant
  | zeros (negative other : Bool) :
      Resembles (.scalar (.float (Double.zero negative))) (.scalar (.float (Double.zero other)))
  | lists {items others : List Scalar} (equal : List.Forall₂ (fun one other => one.equals other = true) items others) :
      Resembles (.list (items.map .scalar)) (.list (others.map .scalar))

/-- Scalars of one kind that are equal are the same, but for the sign of a zero. -/
theorem Scalar.resembles_of_equals {one other : Scalar} (kind : one.sameKind other = true)
    (equal : one.equals other = true) : (Constant.scalar one).Resembles (.scalar other) := by
  cases one with
  | bool left =>
      cases other with
      | bool right =>
          have equal : compare left.toInt right.toInt = .eq := by simpa [equals, numeric, Numeric.compare] using equal
          cases left <;> cases right <;> first | exact .same _ | cases equal
      | _ => cases kind
  | int left =>
      cases other with
      | int right =>
          have equal : compare left right = .eq := by simpa [equals, numeric, Numeric.compare] using equal
          obtain rfl := Std.LawfulEqCmp.eq_of_compare equal
          exact .same _
      | _ => cases kind
  | float left =>
      cases other with
      | float right =>
          rcases Double.eq_of_compare (eq_of_beq equal) with rfl | ⟨negative, other, rfl, rfl⟩
          · exact .same _
          · exact .zeros negative other
      | _ => cases kind
  | notANumber serial =>
      cases other with
      | notANumber other =>
          obtain rfl : serial = other := eq_of_beq equal
          exact .same _
      | _ => cases kind

namespace Constant

/-- What a list of scalars is equal to is such a list, item by item. -/
theorem allEqual_scalars {items : List Scalar} {kept : List Constant}
    (equal : allEqual (items.map .scalar) kept = true) :
    ∃ others, kept = others.map .scalar ∧ List.Forall₂ (fun one other => one.equals other = true) items others := by
  induction items generalizing kept with
  | nil =>
      cases kept with
      | nil => exact ⟨[], rfl, .nil⟩
      | cons first rest => cases equal
  | cons item items ih =>
      cases kept with
      | nil => cases equal
      | cons first rest =>
          rw [List.map_cons, allEqual, Bool.and_eq_true] at equal
          obtain ⟨others, rfl, later⟩ := ih equal.2
          cases first with
          | scalar other => exact ⟨other :: others, rfl, .cons equal.1 later⟩
          | _ => cases equal.1

/-- A scalar and what shares its node resemble each other. -/
theorem Resembles.join {scalar : Scalar} {given kept : Constant} (one : (Constant.scalar scalar).Resembles kept)
    (two : given.Resembles kept) : (Constant.scalar scalar).Resembles given := by
  cases one with
  | same =>
      generalize here : Constant.scalar scalar = kept at two
      cases two with
      | same => exact here ▸ .same _
      | zeros first second => exact here ▸ .zeros second first
      | lists equal => cases here
  | zeros first zero =>
      generalize here : Constant.scalar (.float (Double.zero zero)) = kept at two
      cases two with
      | same => exact here ▸ .zeros first zero
      | zeros second _ => exact .zeros first second
      | lists equal => cases here

end Constant

namespace Lowering

/-- A constant that a literal is resembles each constant that a node may hold in its place. -/
theorem resembles_of_merges {heap : Heap} {value : Value} {given kept : Constant}
    (known : constant? heap value = some given) (merged : given.merges kept = true) : given.Resembles kept := by
  unfold constant? at known
  split at known
  · cases known
    cases kept with
    | scalar kept =>
        rw [Constant.merges, Bool.and_eq_true] at merged
        exact Scalar.resembles_of_equals merged.1 merged.2
    | _ => cases merged
  · obtain ⟨items, -, rfl⟩ := Option.map_eq_some_iff.mp known
    cases kept with
    | list kept =>
        obtain ⟨others, rfl, equal⟩ := Constant.allEqual_scalars merged
        exact .lists equal
    | _ => cases merged
  · cases known

section

variable (heap : Heap) (arguments : List Text) (functions : Table)

mutual

/-- The nodes that the literals of an instruction become, when it is lowered to some stack and nodes. -/
def placesIn (stack : Stack) (nodes : Array Node) : Instruction → List (Value × Nat)
  | .literal value =>
    match lowerInstruction heap arguments functions stack (.literal value) nodes with
    | .ok (.node position :: _, _) => [(value, position)]
    | _ => []
  | .nested program => places [] nodes program
  | _ => []

/-- The nodes that the literals of a program become, one for each occurrence. -/
def places (stack : Stack) (nodes : Array Node) : List Instruction → List (Value × Nat)
  | [] => []
  | instruction :: rest =>
    placesIn stack nodes instruction ++
      match lowerInstruction heap arguments functions stack instruction nodes with
      | .ok (left, after) => places left after rest
      | .error _ => []

end

end

/-- Whether a node holds the constant of a literal, or one that may stand in its place. -/
def Placed (heap : Heap) (nodes : Array Node) (place : Value × Nat) : Prop :=
  ∃ constant, constant? heap place.1 = some constant ∧
    (ArrayTree.apply (.constant constant) []).ComputedAt nodes place.2

variable {heap : Heap} {arguments : List Text} {functions : Table} {nodes after : Array Node} {stack : Stack}
  {entries : List ArrayTree.Entry}

theorem Placed.extend (kept : Extends nodes after) {place : Value × Nat} (placed : Placed heap nodes place) :
    Placed heap after place := by
  obtain ⟨constant, known, computed⟩ := placed
  exact ⟨constant, known, computed.extend kept⟩

theorem Placed.resembles {value : Value} {position : Nat} (placed : Placed heap nodes (value, position)) :
    ∃ given kept, constant? heap value = some given ∧ nodes[position]? = some ⟨.constant kept, []⟩ ∧
      given.Resembles kept := by
  obtain ⟨given, known, ⟨operation, inputs⟩, found, fits, none⟩ := placed
  cases inputs with
  | cons input inputs => cases none
  | nil =>
      rcases fits with rfl | merged
      · exact ⟨given, given, known, found, .same given⟩
      · rcases NodeOperation.eq_of_merges merged with rfl | ⟨_, kept, ⟨⟩, rfl, merged⟩
        · exact ⟨given, given, known, found, .same given⟩
        · exact ⟨given, kept, known, found, resembles_of_merges known merged⟩

/-- Whether the nodes of literals are listed, one for each occurrence, and hold them. -/
structure Places (heap : Heap) (nodes : Array Node) (literals : List Value) (places : List (Value × Nat)) : Prop where
  all : places.map (·.1) = literals
  placed : ∀ place ∈ places, Placed heap nodes place

theorem Places.append {literals others : List Value} {places more : List (Value × Nat)}
    (one : Places heap nodes literals places) (two : Places heap nodes others more) :
    Places heap nodes (literals ++ others) (places ++ more) where
  all := by rw [List.map_append, one.all, two.all]
  placed := List.forall_mem_append.mpr ⟨one.placed, two.placed⟩

theorem Places.extend (kept : Extends nodes after) {literals : List Value} {places : List (Value × Nat)}
    (one : Places heap nodes literals places) : Places heap after literals places :=
  ⟨one.all, fun place among => (one.placed place among).extend kept⟩

theorem Places.none (heap : Heap) (nodes : Array Node) : Places heap nodes [] [] := ⟨rfl, nofun⟩

/-- What is listed for an instruction, once it is lowered. -/
theorem places_instruction {instruction : Instruction} (ordered : Ordered arguments nodes)
    (agree : List.Forall₂ (ArrayTree.StandsFor nodes) stack entries) {left : Stack}
    (inner : ∀ part, instruction = .nested part → ∀ output between,
      lowerProgram heap arguments functions [] part nodes = .ok (output, between) →
        Places heap between (Program.literals part) (places heap arguments functions [] nodes part))
    (built : lowerInstruction heap arguments functions stack instruction nodes = .ok (left, after)) :
    Places heap after (instruction.contents.filterMap Instruction.literal?)
      (placesIn heap arguments functions stack nodes instruction) := by
  cases instruction with
  | literal value =>
      obtain ⟨-, -, read, came, stands⟩ :=
        yields_instruction (fun part same => by cases same) agree ordered left after built
      obtain ⟨constant, known, same⟩ := Option.bind_eq_some_iff.mp came
      cases same
      cases stands with
      | @cons entry _ rest _ top below =>
          cases entry with
          | function name => cases top
          | node position =>
              rw [placesIn, built]
              refine ⟨rfl, fun place among => ?_⟩
              obtain rfl := List.mem_singleton.mp among
              exact ⟨constant, known, top⟩
  | nested part =>
      change (lowerProgram heap arguments functions [] part nodes >>= fun outcome =>
        pure (.node outcome.1 :: stack, outcome.2)) = Except.ok (left, after) at built
      cases came : lowerProgram heap arguments functions [] part nodes with
      | error failure =>
          rw [came] at built
          cases built
      | ok outcome =>
          rw [came] at built
          cases built
          exact inner part rfl _ _ came
  | suspended part => cases built
  | _ => exact .none heap after

/-- What is listed for a program, once it is lowered. -/
theorem places_program (program : List Instruction) {nodes after : Array Node} {stack : Stack}
    {entries : List ArrayTree.Entry} (ordered : Ordered arguments nodes)
    (agree : List.Forall₂ (ArrayTree.StandsFor nodes) stack entries) {output : Nat}
    (built : lowerProgram heap arguments functions stack program nodes = .ok (output, after)) :
    Places heap after (Program.literals program) (places heap arguments functions stack nodes program) := by
  cases program with
  | nil => exact .none heap after
  | cons first rest =>
      have inner (part : Program) (_ : first = .nested part) (output : Nat) (between : Array Node)
          (came : lowerProgram heap arguments functions [] part nodes = .ok (output, between)) :
          Places heap between (Program.literals part) (places heap arguments functions [] nodes part) :=
        places_program part ordered .nil came
      rw [lowerProgram] at built
      change (lowerInstruction heap arguments functions stack first nodes >>= fun outcome =>
        lowerProgram heap arguments functions outcome.1 rest outcome.2) = _ at built
      cases came : lowerInstruction heap arguments functions stack first nodes with
      | error failure =>
          rw [came] at built
          cases built
      | ok outcome =>
          obtain ⟨left, between⟩ := outcome
          rw [came] at built
          have here := places_instruction ordered agree inner came
          obtain ⟨-, orderedThen, read, -, agreeThen⟩ := yields_instruction
            (fun part _ nodes => yields_program part .nil) agree ordered left between came
          have kept : Extends between after := (yields_program rest agreeThen orderedThen _ _ built).1
          have later := places_program rest orderedThen agreeThen built
          rw [Program.literals, Program.contents_cons, List.filterMap_append, places, came]
          exact (here.extend kept).append later

end Lowering

/-- The nodes that the literals of a program become, one for each occurrence. -/
def Program.places (heap : Heap) (functions : Table) (arguments : List Text) (program : Program) :
    List (Value × Nat) :=
  Lowering.places heap arguments functions [] #[] program

theorem Program.places_lower {heap : Heap} {functions : Table} {arguments : List Text} {program : Program}
    {graph : Graph} (lowered : program.lower heap functions arguments = .ok graph) :
    Lowering.Places heap graph.nodes program.literals (program.places heap functions arguments) := by
  change (Lowering.lowerProgram heap arguments functions [] program #[] >>= fun outcome =>
    pure (⟨outcome.2, outcome.1, arguments⟩ : Graph)) = Except.ok graph at lowered
  cases built : Lowering.lowerProgram heap arguments functions [] program #[] with
  | error failure =>
      rw [built] at lowered
      cases lowered
  | ok outcome =>
      rw [built] at lowered
      cases lowered
      exact Lowering.places_program program (Ordered.empty arguments) .nil built

namespace Expression

/-- The nodes that the literals of a simplified expression become in a session, one for each occurrence. -/
def places (expression : Expression) (session : Session) (arguments : List Text) : List (Value × Nat) :=
  expression.program.places session.state.heap (session.state.dialect expression.dialect).functions arguments

variable {depth : Nat} {expression : Expression} {arguments : List Text} {values : Entries}
  {session after : Session} {graph : Graph}

/-- Every literal of the simplified program, at every depth and in every statement, becomes a constant node
that holds it, but for the sign of a zero and for the kinds of the numbers in a list. A node of a scalar is one
of literals that are this scalar, but for the sign of a zero. -/
theorem literals_placed
    (lowered : expression.lower depth arguments values false session = some (.ok graph, after)) :
    ∃ simplified : Expression,
      expression.simplify depth (bound arguments values) session = some (.ok simplified, after) ∧
      (simplified.places after arguments).map (·.1) = simplified.program.literals ∧
      (∀ value position, (value, position) ∈ simplified.places after arguments → ∃ given kept,
        Lowering.constant? after.state.heap value = some given ∧
          graph.nodes[position]? = some ⟨.constant kept, []⟩ ∧ given.Resembles kept) ∧
      ∀ one other position scalar, (one, position) ∈ simplified.places after arguments →
        (other, position) ∈ simplified.places after arguments → Lowering.scalar? one = some scalar →
          ∃ given, Lowering.constant? after.state.heap other = some given ∧
            (Constant.scalar scalar).Resembles given := by
  rcases lower_cases depth expression arguments values session with
    never | ⟨failure, between, -, fails⟩ | ⟨simplified, between, text, simplifies, -, -, plainly, -⟩
  · rw [never] at lowered
    cases lowered
  · rw [fails] at lowered
    cases lowered
  · rw [plainly] at lowered
    obtain ⟨came, rfl⟩ := Prod.mk.inj (Option.some.inj lowered)
    have listed := Program.places_lower came
    have resembles (value : Value) (position : Nat)
        (among : (value, position) ∈ simplified.places between arguments) :=
      (listed.placed (value, position) among).resembles
    refine ⟨simplified, simplifies, listed.all, resembles, ?_⟩
    intro one other position scalar amongOne amongOther known
    obtain ⟨given, kept, knownOne, found, alike⟩ := resembles one position amongOne
    obtain ⟨second, keptToo, knownOther, foundToo, alikeToo⟩ := resembles other position amongOther
    obtain rfl : given = .scalar scalar := by
      rw [Lowering.constant?, known] at knownOne
      exact (Option.some.inj knownOne).symm
    rw [found] at foundToo
    obtain rfl : kept = keptToo := by
      injection foundToo with same
      injection same with same
      injection same
    exact ⟨second, knownOther, alike.join alikeToo⟩

/-- A vector of a truth value and twice the number of its size has two constants. -/
theorem literals_placed_of_vector :
    let vector : Expression := ⟨[.literal (.bool true), .literal (.int 1), .literal (.int 1), .array 3], 0⟩
    ∃ graph after, vector.lower 0 [] [] false {} = some (.ok graph, after) ∧ graph.nodes.size = 3 ∧
      ∃ simplified : Expression, vector.simplify 0 (bound [] []) {} = some (.ok simplified, after) ∧
        (simplified.places after []).map (·.1) = simplified.program.literals := by
  intro vector
  obtain ⟨graph, after, lowered, size⟩ : ∃ graph after,
      vector.lower 0 [] [] false {} = some (.ok graph, after) ∧ graph.nodes.size = 3 :=
    ⟨_, _, by with_unfolding_all rfl, rfl⟩
  obtain ⟨simplified, simplifies, all, -⟩ := literals_placed lowered
  exact ⟨graph, after, lowered, size, simplified, simplifies, all⟩

/-- A vector of both zeros has one constant for them, and a vector of two lists, of a number and of the truth
value of its size, has one for both. -/
theorem constants_confused :
    (∃ graph after, let zeros : Expression :=
        ⟨[.literal (.float (Double.zero false)), .literal (.float (Double.zero true)), .array 2], 0⟩
      zeros.lower 0 [] [] false {} = some (.ok graph, after) ∧
      zeros.simplify 0 (bound [] []) {} = some (.ok zeros, after) ∧
      zeros.places after [] = [(.float (Double.zero false), 0), (.float (Double.zero true), 0)] ∧
      Double.zero false ≠ Double.zero true) ∧
    ∃ graph after, let lists : Expression := ⟨[.literal (.list 0), .literal (.list 1), .array 2], 0⟩
      let session : Session := { state := { heap := { sequences := #[[.int 1], [.bool true]] } } }
      lists.lower 0 [] [] false session = some (.ok graph, after) ∧
      lists.simplify 0 (bound [] []) session = some (.ok lists, after) ∧
      lists.places after [] = [(.list 0, 0), (.list 1, 0)] ∧
      after.state.heap.sequence 0 = [.int 1] ∧ after.state.heap.sequence 1 = [.bool true] := by
  constructor
  · refine ⟨_, _, by with_unfolding_all rfl, by with_unfolding_all rfl, by with_unfolding_all rfl, ?_⟩
    intro same
    have bits := congrArg Float.toBits same
    revert bits
    decide +kernel
  · exact ⟨_, _, by with_unfolding_all rfl, by with_unfolding_all rfl, by with_unfolding_all rfl, rfl, rfl⟩

end Expression

end Formula
