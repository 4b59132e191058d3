import Formula.Proofs.Mirroring

/-!
Runs that mirror each other: what recursion comes to in the first world, with the terms of the first run,
it comes to in the second world with those of the second one.
-/

namespace Formula

/-- The numbers that two states draw depend on nothing but their seeds. -/
theorem State.draw_alike {one two : State} (same : two.seed = one.seed) :
    ∃ number seed, one.draw = (number, { one with seed := seed }) ∧
      two.draw = (number, { two with seed := seed }) :=
  ⟨_, _, rfl, by rw [draw, same]⟩

namespace Mirror.Stage

open Recursion (Compute Closure Deferred Part Task ofEval)
open Machine (Frame withIndex)

variable {mirror : Mirror} {stage after : mirror.Stage} {α β γ δ : Type}

/-- A failure and the moved one, that name known values. -/
structure Fails (stage : mirror.Stage) (left right : Failure) : Prop where
  moved : right = left.move mirror.moves
  known : left.Holds stage.Knows

theorem Fails.bare {failure : Failure} (bare : failure.isBare = true) : stage.Fails failure failure :=
  ⟨(failure.move_bare _ bare).symm, failure.holds_bare _ bare⟩

/-- What goes together of two runs: none comes to an end, or both do, with related results or with a failure
and the moved one, in worlds that mirror each other. One of them may lack fuel if that is allowed. -/
inductive Ends (stage : mirror.Stage) (post : mirror.Stage → α → β → Prop) :
    Option (Except Failure α × Recursion.World) → Option (Except Failure β × Recursion.World) → Prop
  | spent : Ends stage post none none
  | early (allowed : mirror.early) (right : Option (Except Failure β × Recursion.World)) :
      Ends stage post none right
  | late (allowed : mirror.late) (left : Option (Except Failure α × Recursion.World)) :
      Ends stage post left none
  | ok {later : mirror.Stage} {left : α} {right : β} {one two : Recursion.World}
      (reaches : stage.Reaches later) (mirrors : later.Mirrors one two) (related : post later left right) :
      Ends stage post (some (.ok left, one)) (some (.ok right, two))
  | error {later : mirror.Stage} {left right : Failure} {one two : Recursion.World}
      (reaches : stage.Reaches later) (mirrors : later.Mirrors one two)
      (fails : later.Fails left right) :
      Ends stage post (some (.error left, one)) (some (.error right, two))

/-- Two computations that go together in worlds that mirror each other. -/
def Tracks (stage : mirror.Stage) (left : Compute α) (right : Compute β)
    (post : mirror.Stage → α → β → Prop) : Prop :=
  ∀ one two, stage.Mirrors one two → stage.Ends post (left one) (right two)

/-- A known value and the moved one. -/
def Same (stage : mirror.Stage) (left right : Value) : Prop := stage.toWorld.Same left right

theorem Same.later (reaches : stage.Reaches after) {left right : Value} (same : stage.Same left right) :
    after.Same left right :=
  ⟨same.1, same.2.later reaches.data⟩

/-- Known values and the moved ones. -/
def AllSame (stage : mirror.Stage) (left right : List Value) : Prop :=
  right = left.map (·.move mirror.moves) ∧ ∀ value ∈ left, stage.Knows value

section

variable {post : mirror.Stage → α → β → Prop} {left : Compute α} {right : Compute β}

theorem Ends.ahead (reaches : stage.Reaches after)
    {one : Option (Except Failure α × Recursion.World)} {two : Option (Except Failure β × Recursion.World)}
    (ends : after.Ends post one two) : stage.Ends post one two := by
  cases ends with
  | spent => exact .spent
  | early allowed => exact .early allowed _
  | late allowed => exact .late allowed _
  | ok further mirrors related => exact .ok (reaches.trans further) mirrors related
  | error further mirrors fails => exact .error (reaches.trans further) mirrors fails

theorem tracks_pure {one : α} {two : β} (related : post stage one two) :
    stage.Tracks (pure one) (pure two) post :=
  fun _ _ mirrors => .ok (.refl stage) mirrors related

theorem tracks_throw {one two : Failure} (fails : stage.Fails one two) :
    stage.Tracks (throw one) (throw two) post :=
  fun _ _ mirrors => .error (.refl stage) mirrors fails

theorem tracks_bind {last : mirror.Stage → γ → δ → Prop} {next : α → Compute γ} {other : β → Compute δ}
    (first : stage.Tracks left right post)
    (rest : ∀ later one two, stage.Reaches later → post later one two →
      later.Tracks (next one) (other two) last) :
    stage.Tracks (left >>= next) (right >>= other) last := by
  intro one two mirrors
  rw [bind_run, bind_run]
  have ends := first one two mirrors
  revert ends
  generalize left one = here
  generalize right two = there
  intro ends
  cases ends with
  | spent => exact .spent
  | early allowed => exact .early allowed _
  | late allowed => exact .late allowed _
  | ok reaches ready related => exact (rest _ _ _ reaches related _ _ ready).ahead reaches
  | error reaches ready fails => exact .error reaches ready fails

theorem tracks_get {next : Recursion.World → Compute α} {other : Recursion.World → Compute β}
    (rest : ∀ one two, stage.Mirrors one two → stage.Ends post (next one one) (other two two)) :
    stage.Tracks (get >>= next) (get >>= other) post := by
  intro one two mirrors
  rw [bind_run, bind_run]
  exact rest one two mirrors

theorem ends_weaken {wider : mirror.Stage → α → β → Prop}
    {one : Option (Except Failure α × Recursion.World)} {two : Option (Except Failure β × Recursion.World)}
    (ends : stage.Ends post one two)
    (implies : ∀ later one two, stage.Reaches later → post later one two → wider later one two) :
    stage.Ends wider one two := by
  cases ends with
  | spent => exact .spent
  | early allowed => exact .early allowed _
  | late allowed => exact .late allowed _
  | ok reaches ready related => exact .ok reaches ready (implies _ _ _ reaches related)
  | error reaches ready fails => exact .error reaches ready fails

theorem tracks_weaken {wider : mirror.Stage → α → β → Prop} (tracks : stage.Tracks left right post)
    (implies : ∀ later one two, stage.Reaches later → post later one two → wider later one two) :
    stage.Tracks left right wider :=
  fun one two mirrors => ends_weaken (tracks one two mirrors) implies

end

/-! Computations that neither define nor call a function. -/

theorem ofEval_bind (first : Eval α) (next : α → Eval β) :
    ofEval (first >>= next) = ofEval first >>= fun value => ofEval (next value) := by
  funext world
  rw [bind_run, ofEval, Eval.bind_apply, ofEval]
  rcases first world.state with _ | ⟨_ | value, state⟩ <;> rfl

theorem tracks_looked {post : mirror.Stage → α → β → Prop} {next : State → Eval α} {other : State → Eval β}
    (rest : ∀ one two, stage.Mirrors one two →
      stage.Ends post (ofEval (next one.state) one) (ofEval (other two.state) two)) :
    stage.Tracks (ofEval (get >>= next)) (ofEval (get >>= other)) post := by
  intro one two mirrors
  simp only [ofEval, Eval.get_bind_apply]
  exact rest one two mirrors

theorem tracks_act {post : mirror.World → α → β → Prop} {action : Action α} {other : Action β}
    (bare : action.Bare) (each : ∀ one two, stage.toWorld.Reflects one two →
      stage.toWorld.Outcome post (action one) (other two)) :
    stage.Tracks (ofEval (Eval.act action)) (ofEval (Eval.act other))
      fun later left right => post later.toWorld left right := by
  intro one two mirrors
  have outcome := each _ _ mirrors.heaps
  have bare := bare one.state.heap
  simp only [ofEval, Eval.act_apply]
  revert outcome bare
  generalize action one.state.heap = here
  generalize other two.state.heap = there
  intro outcome bare
  cases outcome with
  | ok reaches reflects related =>
      exact .ok (reaches_withData reaches) (mirrors.data reaches reflects) related
  | error failure => exact .error (.refl stage) mirrors (.bare (bare failure rfl))

theorem tracks_refuse {post : mirror.Stage → α → β → Prop} (fault : OperandFault) :
    stage.Tracks (ofEval (Eval.refuse fault)) (ofEval (Eval.refuse fault)) post :=
  tracks_throw (.bare rfl)

theorem tracks_element {place : Nat} (has : stage.HasSequence place) (index : Nat) :
    stage.Tracks (ofEval (Machine.element place index))
      (ofEval (Machine.element (mirror.moves.sequences.place place) index)) Same := by
  refine tracks_looked fun one two mirrors => .ok (.refl stage) mirrors ?_
  rw [mirrors.heaps.sequences place has, List.getElem?_map]
  cases found : (one.state.heap.sequence place)[index]? with
  | none => exact ⟨rfl, trivial⟩
  | some item => exact ⟨rfl, mirrors.heaps.items place has item (List.mem_of_getElem? found)⟩

theorem tracks_traversed (traversal : String) (function : Value) {collection : Value}
    (known : stage.Knows collection) :
    stage.Tracks (ofEval (Machine.traversed traversal function collection))
      (ofEval (Machine.traversed traversal (function.move mirror.moves) (collection.move mirror.moves)))
      fun later one two => two = (mirror.moves.sequences.place one.1, one.2) ∧
        function.isCallable = true ∧ collection.sequence? = some one.1 ∧ later.HasSequence one.1 := by
  unfold Machine.traversed
  rw [Value.isCallable_move, Value.sequence?_move]
  cases callable : function.isCallable with
  | false => exact tracks_throw (.bare rfl)
  | true =>
      cases found : collection.sequence? with
      | none => exact tracks_throw (.bare rfl)
      | some place =>
          have has := World.hasSequence_of_place? known (Value.place?_of_sequence? found)
          refine tracks_looked fun one two mirrors => .ok (.refl stage) mirrors ?_
          refine ⟨?_, rfl, rfl, has⟩
          rw [mirrors.heaps.sequences place has, List.length_map]

theorem tracks_random {factor : Value} (known : stage.Knows factor) :
    stage.Tracks (ofEval (Machine.random factor)) (ofEval (Machine.random (factor.move mirror.moves)))
      Same := by
  refine tracks_looked fun one two mirrors => ?_
  obtain ⟨number, seed, drawn, drawnTwo⟩ := State.draw_alike mirrors.seeds
  have truth := mirrors.heaps.renamed.truth known
  have drawnKnown : stage.Knows (.float number) := trivial
  have scaled (factor : Value) (known : stage.Knows factor) := tracks_act (Arithmetic.bare_multiply _ _)
    (fun _ _ reflects => World.outcome_multiply reflects drawnKnown known) _ _ (mirrors.seed seed)
  rw [drawn, drawnTwo]
  simp only [ofEval, Eval.set_bind_apply, truth] at scaled ⊢
  split
  · exact scaled factor known
  · exact scaled (.int 1) trivial

theorem tracks_guardAgainst (cause : SecurityCause) {value : Value} (known : stage.Knows value) :
    stage.Tracks (ofEval (Eval.guardAgainst cause mirror.dialect value))
      (ofEval (Eval.guardAgainst cause mirror.dialect (value.move mirror.moves)))
      fun later _ _ => value.isCallable = true → later.Trusts value := by
  intro one two mirrors
  simp only [ofEval, Eval.guardAgainst_apply, Value.isCallable_move]
  cases callable : value.isCallable with
  | false => exact .ok (.refl stage) mirrors fun never => absurd never Bool.false_ne_true
  | true =>
      rw [mirrors.tables.trusts value callable known]
      cases trusts : (one.state.dialect mirror.dialect).trusts value with
      | false => exact .error (.refl stage) mirrors (.bare rfl)
      | true => exact .ok (.refl stage) mirrors fun _ => mirrors.tables.trusts_of_trusts trusts

/-- A value that is given out if it passes the test of trust. -/
theorem tracks_given (cause : SecurityCause) {value : Value} (known : stage.Knows value) :
    stage.Tracks (ofEval (do Eval.guardAgainst cause mirror.dialect value; return value))
      (ofEval (do
        Eval.guardAgainst cause mirror.dialect (value.move mirror.moves)
        return value.move mirror.moves)) Same := by
  rw [ofEval_bind, ofEval_bind]
  exact tracks_bind (tracks_guardAgainst cause known) fun later _ _ reaches _ =>
    tracks_pure ⟨rfl, known.later reaches.data⟩

theorem tracks_guardAll {scope other : Nat} {arguments : List Value}
    (known : ∀ argument ∈ arguments, stage.Knows argument) :
    stage.Tracks (ofEval (Machine.guardAll ⟨mirror.dialect, scope⟩ arguments))
      (ofEval (Machine.guardAll ⟨mirror.dialect, other⟩ (arguments.map (·.move mirror.moves))))
      fun later _ _ => ∀ argument ∈ arguments, argument.isCallable = true → later.Trusts argument := by
  unfold Machine.guardAll
  induction arguments generalizing stage with
  | nil => exact tracks_pure nofun
  | cons first rest ih =>
      rw [List.forall_mem_cons] at known
      simp only [List.map_cons, List.forIn_cons, bind_assoc, pure_bind, ofEval_bind]
      refine tracks_bind (tracks_guardAgainst .argument known.1) fun later _ _ reaches trusted => ?_
      have others (argument : Value) (member : argument ∈ rest) : later.Knows argument :=
        (known.2 argument member).later reaches.data
      refine tracks_weaken (ih others) fun last _ _ further trustedRest => ?_
      exact List.forall_mem_cons.mpr
        ⟨fun callable => (trusted callable).later further, trustedRest⟩

/-- An operator that is no assignment. -/
theorem tracks_operator {scope other : Nat} {table : Dialect → Table} {symbol : Text}
    (kind : table = Dialect.unary ∨
      (table = Dialect.binary ∨ table = Dialect.ternary) ∧ symbol ≠ Text.ofString "=") :
    stage.Tracks (ofEval (Machine.operator table ⟨mirror.dialect, scope⟩ symbol))
      (ofEval (Machine.operator table ⟨mirror.dialect, other⟩ symbol))
      fun _ one two => two = one ∧ one.rebinds = false ∧ one.isDirect = true := by
  refine tracks_looked fun one two mirrors => ?_
  have same : table (two.state.dialect mirror.dialect) = table (one.state.dialect mirror.dialect) := by
    have operates := mirrors.tables.operates
    have operatesTwo := mirrors.tables.operatesTwo
    rcases kind with rfl | ⟨rfl | rfl, -⟩
    · exact operatesTwo.unary.trans operates.unary.symm
    · exact operatesTwo.binary.trans operates.binary.symm
    · exact operatesTwo.ternary.trans operates.ternary.symm
  simp only [same]
  cases found : (table (one.state.dialect mirror.dialect)).get? symbol with
  | none => exact .error (.refl stage) mirrors (.bare rfl)
  | some function =>
      exact .ok (.refl stage) mirrors ⟨rfl, mirrors.tables.operator_plain kind found⟩

/-- The assignment, to a name or to a member. -/
theorem tracks_assignment {scope other : Nat} {table : Dialect → Table} {function : Value}
    (held : (table = Dialect.binary ∧ function = .builtin .assign) ∨
      table = Dialect.ternary ∧ function = .builtin .assignMember) :
    stage.Tracks (ofEval (Machine.operator table ⟨mirror.dialect, scope⟩ (Text.ofString "=")))
      (ofEval (Machine.operator table ⟨mirror.dialect, other⟩ (Text.ofString "=")))
      fun _ one two => one = function ∧ two = function := by
  refine tracks_looked fun one two mirrors => ?_
  have found {dialect : Dialect} (operates : dialect.Operates) :
      (table dialect).get? (Text.ofString "=") = some function := by
    rcases held with ⟨rfl, rfl⟩ | ⟨rfl, rfl⟩
    · rw [operates.binary]
      rfl
    · rw [operates.ternary]
      rfl
  simp only [found mirrors.tables.operates, found mirrors.tables.operatesTwo]
  exact .ok (.refl stage) mirrors ⟨rfl, rfl⟩

theorem tracks_lookup {scope : Nat} (has : stage.HasScope scope) {word : Text} (reads : mirror.Reads word)
    (means : mirror.Means (stage.veiled scope) word) :
    stage.Tracks (ofEval (Machine.lookup ⟨mirror.dialect, scope⟩ word))
      (ofEval (Machine.lookup ⟨mirror.dialect, mirror.moves.maps.place scope⟩ word)) Same := by
  unfold Machine.lookup
  cases reserved : Text.isReserved word with
  | true => exact tracks_throw (.bare rfl)
  | false =>
      refine tracks_looked fun one two mirrors => ?_
      have tables := mirrors.tables
      have alike := mirrors.heaps.alike has
      have enables : (two.state.dialect mirror.dialect).enables word =
          (one.state.dialect mirror.dialect).enables word := by
        rw [Dialect.enables, Dialect.enables, tables.options, tables.optionsTwo]
      simp only [tables.named word reads, tables.operates.unary, tables.operatesTwo.unary, enables,
        Heap.lookup_text]
      cases called : (one.state.dialect mirror.dialect).functions.get? word with
      | some function =>
          exact .ok (.refl stage) mirrors ⟨rfl, tables.knows_function called⟩
      | none =>
          simp only [Option.map_none]
          split
          · rename_i operator found _
            have plain := (Setting.operator_plain (.inl found)).1
            obtain ⟨builtin, rfl, -⟩ := direct_of_mem (.inl (List.mem_map_of_mem (Table.mem_of_get? found)))
            exact .ok (.refl stage) mirrors ⟨rfl, .inr plain⟩
          · rename_i unmeant
            have shares : mirror.Shares (stage.veiled scope) word := by
              refine means.resolve_right ?_
              rintro (wrong | standard | ⟨operator, enabled⟩)
              · rw [reserved] at wrong
                cases wrong
              · exact tables.standards word standard called
              · obtain ⟨function, found⟩ := Option.ne_none_iff_exists'.mp operator
                refine unmeant function found ?_
                rw [Dialect.enables, tables.options]
                exact enabled
            rw [alike.same word shares]
            cases bound : named (one.state.heap.entries scope) word with
            | none => exact .error (.refl stage) mirrors (.bare rfl)
            | some value =>
                exact tracks_given (.variable word) (alike.known word value shares bound) _ _ mirrors

theorem tracks_readMember {scope other : Nat} {target : Value} (known : stage.Knows target) (word : Text) :
    stage.Tracks (ofEval (Machine.readMember ⟨mirror.dialect, scope⟩ target word))
      (ofEval (Machine.readMember ⟨mirror.dialect, other⟩ (target.move mirror.moves) word)) Same := by
  unfold Machine.readMember
  cases reserved : Text.isReserved word with
  | true => exact tracks_throw (.bare rfl)
  | false =>
      refine tracks_looked fun one two mirrors => ?_
      simp only [mirrors.heaps.renamed.member known word]
      cases member : one.state.heap.member target word with
      | method => exact .error (.refl stage) mirrors (.bare rfl)
      | value value =>
          exact tracks_given .member (mirrors.heaps.knows_member known member) _ _ mirrors

/-! Calls. -/

/-- Calls that may come up: of known functions, with known arguments, as far as they are trusted; and of
the assignment, to a name of a scope or to a member of a mapping. -/
inductive Calls (stage : mirror.Stage) : Value → List Value → Prop
  | ordinary {function : Value} {arguments : List Value} (known : stage.Knows function)
      (inside : ∀ argument ∈ arguments, stage.Knows argument)
      (permitted : Machine.Permitted stage.Trusts function arguments) : Calls stage function arguments
  | assign {word : Text} {value : Value} {scope : Nat} (has : stage.HasScope scope)
      (free : mirror.Binds (stage.veiled scope) word) (known : stage.Knows value) :
      Calls stage (.builtin .assign) [.text word, value, .map scope]
  | assignMember {place : Nat} {word : Text} {value : Value} (map : mirror.maps place)
      (known : stage.Knows value) :
      Calls stage (.builtin .assignMember) [.map place, .text word, value]

/-- What a call gives: what gathers a list gives no callable. -/
def Answer (function : Value) (stage : mirror.Stage) (left right : Value) : Prop :=
  stage.Same left right ∧ (function.gathers = true → left.isCallable = false)

/-- A way to carry out tasks that finds the values of terms that take the place of others. -/
def Supplies (mirror : Mirror) (perform : Recursion.Perform) : Prop :=
  ∀ (term : Term) (value : Value) (frame : Frame) (world : Recursion.World),
    Term.Yields mirror.veil.known mirror.effort term value →
      Machine.Knows mirror.veil.known frame world.state →
        Recursion.Compute.Reads mirror.late world (Recursion.part perform frame term) (.value value)

/-- Ways to carry out tasks that go together. -/
structure Follows (mirror : Mirror) (left right : Recursion.Perform) : Prop where
  calls : ∀ (stage : mirror.Stage) function arguments, stage.Calls function arguments →
    stage.Tracks (left (.call function arguments))
      (right (.call (function.move mirror.moves) (arguments.map (·.move mirror.moves)))) (Answer function)
  runs : ∀ (stage : mirror.Stage) scope one two, stage.HasScope scope →
    mirror.TwinsDeferred (stage.veiled scope) one two →
    stage.Tracks (left (.run mirror.dialect one scope))
      (right (.run mirror.dialect two (mirror.moves.maps.place scope))) Same
  supplies : Supplies mirror right

theorem withIndex_move (function : Value) (arguments : List Value) (index : Nat) :
    (withIndex function arguments index).map (·.move mirror.moves) =
      withIndex (function.move mirror.moves) (arguments.map (·.move mirror.moves)) index := by
  have added : (arguments ++ [Value.int index]).map (·.move mirror.moves) =
      arguments.map (·.move mirror.moves) ++ [.int index] := List.map_append
  cases function with
  | builtin builtin =>
      change List.map _ (if _ then _ else _) = if _ then _ else _
      rw [apply_ite (List.map _), added, List.length_map]
      rfl
  | _ => exact added

theorem knows_withIndex {function : Value} {arguments : List Value}
    (inside : ∀ argument ∈ arguments, stage.Knows argument) (index : Nat) :
    ∀ argument ∈ withIndex function arguments index, stage.Knows argument := by
  intro argument member
  have either : withIndex function arguments index = arguments ++ [.int index] ∨
      withIndex function arguments index = arguments := ite_eq_or_eq _ _ _
  rcases either with same | same
  · rw [same, List.mem_append] at member
    rcases member with given | added
    · exact inside argument given
    · exact List.mem_singleton.mp added ▸ trivial
  · exact inside argument (same ▸ member)

section

variable {left right : Recursion.Perform} (follows : Follows mirror left right)

include follows

theorem tracks_visit {function item : Value} (known : stage.Knows function)
    (trusted : stage.Trusts function) (knownItem : stage.Knows item) (index : Nat) :
    stage.Tracks (left (.call function (withIndex function [item] index)))
      (right (.call (function.move mirror.moves)
        (withIndex (function.move mirror.moves) [item.move mirror.moves] index))) Same := by
  have calls : stage.Calls function (withIndex function [item] index) :=
    .ordinary known (knows_withIndex (List.forall_mem_singleton.mpr knownItem) index)
      (.visit trusted item index)
  have called := follows.calls stage _ _ calls
  rw [withIndex_move] at called
  exact tracks_weaken called fun _ _ _ _ answer => answer.1

theorem tracks_mapFrom {function : Value} (known : stage.Knows function) (trusted : stage.Trusts function)
    {place : Nat} (has : stage.HasSequence place) (index remaining : Nat) :
    stage.Tracks (Recursion.mapFrom left function place index remaining)
      (Recursion.mapFrom right (function.move mirror.moves) (mirror.moves.sequences.place place) index
        remaining) AllSame := by
  induction remaining generalizing stage index with
  | zero => exact tracks_pure ⟨rfl, nofun⟩
  | succ remaining ih =>
      refine tracks_bind (tracks_element has index) ?_
      rintro first item _ reaches ⟨rfl, knownItem⟩
      refine tracks_bind (tracks_visit follows (known.later reaches.data) (trusted.later reaches)
        knownItem index) ?_
      rintro second result _ further ⟨rfl, knownResult⟩
      have through := reaches.trans further
      refine tracks_bind (ih (known.later through.data) (trusted.later through)
        (has.later through.data) (index + 1)) ?_
      rintro third results _ last ⟨rfl, all⟩
      exact tracks_pure ⟨rfl, List.forall_mem_cons.mpr ⟨knownResult.later last.data, all⟩⟩

theorem tracks_filterFrom {function : Value} (known : stage.Knows function)
    (trusted : stage.Trusts function) {place : Nat} (has : stage.HasSequence place) (index remaining : Nat) :
    stage.Tracks (Recursion.filterFrom left function place index remaining)
      (Recursion.filterFrom right (function.move mirror.moves) (mirror.moves.sequences.place place) index
        remaining) AllSame := by
  induction remaining generalizing stage index with
  | zero => exact tracks_pure ⟨rfl, nofun⟩
  | succ remaining ih =>
      refine tracks_bind (tracks_element has index) ?_
      rintro first item _ reaches ⟨rfl, knownItem⟩
      refine tracks_bind (tracks_visit follows (known.later reaches.data) (trusted.later reaches)
        knownItem index) ?_
      rintro second verdict _ further ⟨rfl, knownVerdict⟩
      refine tracks_get fun one two mirrors => ?_
      rw [mirrors.heaps.renamed.truth knownVerdict]
      have through := reaches.trans further
      refine tracks_bind (ih (known.later through.data) (trusted.later through)
        (has.later through.data) (index + 1)) ?_ _ _ mirrors
      rintro third others _ last ⟨rfl, all⟩
      have kept := (knownItem.later further.data).later last.data
      cases one.state.heap.truth verdict with
      | true => exact tracks_pure ⟨rfl, List.forall_mem_cons.mpr ⟨kept, all⟩⟩
      | false => exact tracks_pure ⟨rfl, all⟩

theorem tracks_foldFrom {function total : Value} (known : stage.Knows function)
    (carried : Machine.Carried stage.Trusts function total) (knownTotal : stage.Knows total)
    {place : Nat} (has : stage.HasSequence place) (index remaining : Nat) :
    stage.Tracks (Recursion.foldFrom left function place index total remaining)
      (Recursion.foldFrom right (function.move mirror.moves) (mirror.moves.sequences.place place) index
        (total.move mirror.moves) remaining) Same := by
  induction remaining generalizing stage index total with
  | zero => exact tracks_pure ⟨rfl, knownTotal⟩
  | succ remaining ih =>
      refine tracks_bind (tracks_element has index) ?_
      rintro first item _ reaches ⟨rfl, knownItem⟩
      have carriedFirst := carried.later fun _ (trusted : stage.Trusts _) => trusted.later reaches
      have calls : first.Calls function (withIndex function [total, item] index) :=
        .ordinary (known.later reaches.data) (knows_withIndex (List.forall_mem_cons.mpr
          ⟨knownTotal.later reaches.data, List.forall_mem_singleton.mpr knownItem⟩) index)
          (carriedFirst.permitted item index)
      have called := follows.calls first _ _ calls
      rw [withIndex_move] at called
      refine tracks_bind called ?_
      rintro second next _ further ⟨⟨rfl, knownNext⟩, gathered⟩
      have through := reaches.trans further
      have carriedSecond : Machine.Carried second.Trusts function next :=
        ⟨carried.1.later through, fun gathers callable => by simp [gathered gathers] at callable⟩
      exact ih (known.later through.data) carriedSecond knownNext (has.later through.data) (index + 1)

omit follows in
/-- A list of results. -/
theorem tracks_gathered {function : Value} {one two : Compute (List Value)}
    (tracks : stage.Tracks one two AllSame) :
    stage.Tracks (one >>= fun items => ofEval (Eval.act (Action.newList items)))
      (two >>= fun items => ofEval (Eval.act (Action.newList items))) (Answer function) := by
  refine tracks_bind tracks ?_
  rintro later items _ reaches ⟨rfl, all⟩
  exact tracks_act (Action.bare_newList _) fun one two reflects => (World.outcome_newList reflects all).also
    fun value heap made gathers => by cases made; rfl

omit follows in
/-- A function that calls no other, and a traversal that lacks an argument. -/
theorem tracks_apply {function : Builtin} (known : stage.Knows (.builtin function))
    {arguments : List Value} (inside : ∀ argument ∈ arguments, stage.Knows argument) :
    stage.Tracks (ofEval (Eval.act (function.apply arguments)))
      (ofEval (Eval.act (function.apply (arguments.map (·.move mirror.moves)))))
      (Answer (.builtin function)) := by
  refine tracks_act (function.bare_apply _) fun one two reflects =>
    (World.outcome_apply reflects known inside).also ?_
  intro value heap found gathers
  rw [Machine.Correspondence.apply_traversal gathers] at found
  cases found

/-- Every built-in function. -/
theorem tracks_callBuiltin {function : Builtin} {arguments : List Value}
    (calls : stage.Calls (.builtin function) arguments) :
    stage.Tracks (Recursion.callBuiltin left function arguments)
      (Recursion.callBuiltin right function (arguments.map (·.move mirror.moves)))
      (Answer (.builtin function)) := by
  cases calls with
  | assign has free known =>
      refine tracks_weaken (tracks_act (Builtin.bare_apply _ _) fun one two reflects =>
        World.outcome_bindName reflects has free known) fun _ _ _ _ same => ⟨same, nofun⟩
  | @assignMember place word value map known =>
      refine tracks_weaken (tracks_act (Builtin.bare_apply _ _) fun one two reflects =>
        World.outcome_bindKey reflects map (show stage.Knows (.text word) from trivial) known)
        fun _ _ _ _ same => ⟨same, nofun⟩
  | ordinary known inside permitted =>
      rw [Recursion.callBuiltin.eq_def left]
      split
      · rename_i visitor collection
        simp only [List.forall_mem_cons] at inside
        refine tracks_bind (tracks_traversed "map" visitor inside.2.1) ?_
        rintro later ⟨place, size⟩ _ reaches ⟨rfl, callable, sequence, has⟩
        have trusted := permitted.2 (by rw [sequence]; rfl) callable
        exact tracks_gathered (tracks_mapFrom follows (inside.1.later reaches.data)
          (trusted.later reaches) has 0 size)
      · rename_i visitor collection
        simp only [List.forall_mem_cons] at inside
        refine tracks_bind (tracks_traversed "filter" visitor inside.2.1) ?_
        rintro later ⟨place, size⟩ _ reaches ⟨rfl, callable, sequence, has⟩
        have trusted := permitted.2 (by rw [sequence]; rfl) callable
        exact tracks_gathered (tracks_filterFrom follows (inside.1.later reaches.data)
          (trusted.later reaches) has 0 size)
      · rename_i visitor first collection
        simp only [List.forall_mem_cons] at inside
        refine tracks_bind (tracks_traversed "fold" visitor inside.2.2.1) ?_
        rintro later ⟨place, size⟩ _ reaches ⟨rfl, callable, sequence, has⟩
        have carried := (permitted.fold callable sequence).later fun _ (trusted : stage.Trusts _) =>
          trusted.later reaches
        refine tracks_weaken (tracks_foldFrom follows (inside.1.later reaches.data) carried
          (inside.2.1.later reaches.data) has 0 size) ?_
        exact fun _ _ _ _ same => ⟨same, nofun⟩
      · exact tracks_weaken (tracks_random (show stage.Knows .null from trivial))
          fun _ _ _ _ same => ⟨same, nofun⟩
      · rename_i factor
        exact tracks_weaken (tracks_random (List.forall_mem_singleton.mp inside))
          fun _ _ _ _ same => ⟨same, nofun⟩
      · rename_i noMap noFilter noFold noRandom noScaled
        have applied := tracks_apply known inside
        rw [Recursion.callBuiltin.eq_6 right]
        · exact applied
        all_goals
          intros
          subst_vars
          rcases arguments with _ | ⟨one, _ | ⟨two, _ | ⟨three, _ | _⟩⟩⟩ <;> simp_all

end

end Mirror.Stage

end Formula
