import Mathlib.Data.List.Forall2
import Formula.Proofs.Calling

/-!
Instructions keep a correspondence: on stacks whose operands go together they leave such stacks.
-/

namespace Formula

namespace Machine

theorem Relations.Operands.later {rules : Correspondence} {world later : rules.World}
    {frame : Frame} {one two : Operand} (operands : rules.Operands world frame one two)
    (reaches : rules.reaches world later) : rules.Operands later frame one two := by
  cases operands with
  | value known => exact .value (rules.values_later reaches known)
  | suspended related => exact .suspended (rules.programs_later reaches related)

/-- Instructions that go together: what they hold does, and otherwise they are one. -/
inductive Relations.Instructions (relations : Relations) (world : relations.World) (frame : Frame) :
    Instruction → Instruction → Prop
  | literal {value : Value} (good : relations.values world value) :
      Instructions relations world frame (.literal value) (.literal value)
  | nested {one two : Program} (related : relations.programs world frame one two) :
      Instructions relations world frame (.nested one) (.nested two)
  | suspended {one two : Program} (related : relations.programs world frame one two) :
      Instructions relations world frame (.suspended one) (.suspended two)
  | name (name : Text) : Instructions relations world frame (.name name) (.name name)
  | target (name : Text) : Instructions relations world frame (.target name) (.target name)
  | unary (symbol : Text) : Instructions relations world frame (.unary symbol) (.unary symbol)
  | binary (symbol : Text) : Instructions relations world frame (.binary symbol) (.binary symbol)
  | ternary (symbol : Text) :
      Instructions relations world frame (.ternary symbol) (.ternary symbol)
  | call (count : Int) : Instructions relations world frame (.call count) (.call count)
  | define (count : Int) : Instructions relations world frame (.define count) (.define count)
  | member (name : Text) : Instructions relations world frame (.member name) (.member name)
  | discard : Instructions relations world frame .discard .discard
  | array (count : Int) : Instructions relations world frame (.array count) (.array count)

theorem Relations.Instructions.later {rules : Correspondence} {world later : rules.World}
    {frame : Frame} {one two : Instruction} (instructions : rules.Instructions world frame one two)
    (reaches : rules.reaches world later) : rules.Instructions later frame one two := by
  cases instructions with
  | literal good => exact .literal (rules.values_later reaches good)
  | nested related => exact .nested (rules.programs_later reaches related)
  | suspended related => exact .suspended (rules.programs_later reaches related)
  | _ => constructor

/-- The operands of a stack to which an instruction binds something. -/
def bound : Instruction → Stack → List Operand
  | .binary symbol, _ :: target :: _ | .ternary symbol, _ :: target :: _ =>
    if symbol = Text.ofString "=" then [target] else []
  | .define count, _ :: rest => rest.take (count.toNat + 1)
  | _, _ => []

/-- The tests of trust that a call makes of its arguments. -/
def guardAll (frame : Frame) (arguments : List Value) : Eval PUnit :=
  forIn arguments PUnit.unit fun argument _ => do
    Eval.guardAgainst .argument frame.dialect argument
    return .yield PUnit.unit

namespace Correspondence

variable {rules : Correspondence} {world : rules.World} {state other : State} {frame : Frame}

section

variable (framed : rules.frames world frame)

include framed

theorem tracks_guardAgainst (cause : SecurityCause) (value : Value) :
    rules.Tracks world (Eval.guardAgainst cause frame.dialect value)
      (Eval.guardAgainst cause frame.dialect value)
      fun later _ _ => value.isCallable = true → rules.trusted later value := by
  intro state other states outcome after found
  rw [Eval.guardAgainst_apply] at found
  rw [Eval.guardAgainst_apply, dialect_alike states]
  split at found
  · rename_i refused
    cases found
    exact ⟨world, _, other, rules.reaches_refl world, by rw [if_pos refused], states, .error _⟩
  · rename_i passed
    cases found
    rw [if_neg passed]
    cases callable : value.isCallable with
    | false => exact ⟨world, _, other, rules.reaches_refl world, rfl, states, .ok nofun⟩
    | true =>
        have trusts : (state.dialect frame.dialect).trusts value = true := by
          simpa [callable] using passed
        obtain ⟨later, reaches, ready, trusted⟩ := rules.trust states framed trusts
        exact ⟨later, _, other, reaches, rfl, ready, .ok fun _ => trusted⟩

theorem tracks_operator {table : Dialect → Table} {symbol : Text}
    (kind : table = Dialect.unary ∨
      (table = Dialect.binary ∨ table = Dialect.ternary) ∧ symbol ≠ Text.ofString "=") :
    rules.Tracks world (operator table frame symbol) (operator table frame symbol)
      fun later one two => one = two ∧ rules.Operates later one := by
  refine tracks_get fun state other states => ?_
  rw [dialect_alike states]
  cases found : (table (state.dialect frame.dialect)).get? symbol with
  | none => exact from_throw _ states
  | some function =>
      obtain ⟨later, reaches, ready, operates⟩ := rules.operates states framed kind found
      exact from_ahead reaches (from_pure ready ⟨rfl, operates⟩)

theorem tracks_assignment :
    rules.Tracks world (operator Dialect.binary frame (Text.ofString "="))
      (operator Dialect.binary frame (Text.ofString "="))
      fun later one two => one = two ∧ ∀ last name value, rules.reaches later last →
        rules.binds last frame (.value name) → rules.values last value →
        rules.calls last one [name, value, .map frame.scope] := by
  refine tracks_get fun state other states => ?_
  rw [dialect_alike states]
  cases found : (state.dialect frame.dialect).binary.get? (Text.ofString "=") with
  | none => exact from_throw _ states
  | some function =>
      obtain ⟨later, reaches, ready, assigns⟩ := rules.assigns states framed found
      exact from_ahead reaches (from_pure ready ⟨rfl, assigns⟩)

theorem tracks_memberAssignment :
    rules.Tracks world (operator Dialect.ternary frame (Text.ofString "="))
      (operator Dialect.ternary frame (Text.ofString "="))
      fun later one two => one = two ∧ ∀ last target name value, rules.reaches later last →
        rules.binds last frame (.value name) → rules.values last target →
        rules.values last value → rules.calls last one [target, name, value] := by
  refine tracks_get fun state other states => ?_
  rw [dialect_alike states]
  cases found : (state.dialect frame.dialect).ternary.get? (Text.ofString "=") with
  | none => exact from_throw _ states
  | some function =>
      obtain ⟨later, reaches, ready, assigns⟩ := rules.assignsMember states framed found
      exact from_ahead reaches (from_pure ready ⟨rfl, assigns⟩)

theorem tracks_given (cause : SecurityCause) {value : Value} (known : rules.values world value) :
    rules.Tracks world (do Eval.guardAgainst cause frame.dialect value; return value)
      (do Eval.guardAgainst cause frame.dialect value; return value) rules.Same := by
  refine tracks_bind (tracks_guardAgainst framed cause value) ?_
  intro later _ _ reaches _
  exact tracks_pure ⟨rfl, rules.values_later reaches known⟩

theorem tracks_lookup (name : Text) :
    rules.Tracks world (lookup frame name) (lookup frame name) rules.Same := by
  unfold lookup
  cases reserved : Text.isReserved name with
  | true => exact tracks_throw _
  | false =>
      refine tracks_get fun state other states => ?_
      rw [dialect_alike states, lookup_alike states]
      simp only
      split
      · rename_i function named
        exact from_pure states ⟨rfl, rules.entry states framed (.inl named)⟩
      · split
        · rename_i function named _
          exact from_pure states ⟨rfl, rules.entry states framed (.inr named)⟩
        · split
          · exact from_throw _ states
          · rename_i value bound
            exact tracks_given framed _ ((rules.holds states).lookup bound) _ _ states

theorem tracks_readMember {target : Value} (known : rules.values world target) (name : Text) :
    rules.Tracks world (readMember frame target name) (readMember frame target name)
      rules.Same := by
  unfold readMember
  cases reserved : Text.isReserved name with
  | true => exact tracks_throw _
  | false =>
      refine tracks_get fun state other states => ?_
      rw [member_alike states]
      cases member : state.heap.member target name with
      | method => exact from_throw _ states
      | value value =>
          have good : rules.values world value :=
            Heap.member_good (rules.opened world) (rules.holds states) known member
          exact tracks_given framed _ good _ _ states

theorem tracks_guardAll {arguments : List Value} (known : ∀ argument ∈ arguments,
    rules.values world argument) :
    rules.Tracks world (guardAll frame arguments) (guardAll frame arguments)
      fun later _ _ => ∀ argument ∈ arguments,
        argument.isCallable = true → rules.trusted later argument := by
  unfold guardAll
  induction arguments generalizing world with
  | nil => exact tracks_pure nofun
  | cons first rest ih =>
      simp only [List.forIn_cons, bind_assoc, pure_bind]
      refine tracks_bind (tracks_guardAgainst framed .argument first) ?_
      intro later _ _ reaches trusted
      have others (argument : Value) (member : argument ∈ rest) : rules.values later argument :=
        rules.values_later reaches (known argument (List.mem_cons_of_mem first member))
      refine tracks_weaken (ih (rules.frames_later reaches framed) others) ?_
      intro last _ _ further trustedRest argument member callable
      rcases List.mem_cons.mp member with rfl | inside
      · exact rules.trusted_later further (trusted callable)
      · exact trustedRest argument inside callable

variable {left right : Perform} (follows : rules.Follows left right)

include follows

theorem tracks_callTrusted {function : Value} {arguments : List Value}
    (good : rules.values world function) (known : ∀ argument ∈ arguments, rules.values world argument) :
    rules.Tracks world (callTrusted left frame function arguments)
      (callTrusted right frame function arguments) rules.Same := by
  unfold callTrusted
  cases callable : function.isCallable with
  | false => exact tracks_throw _
  | true =>
      refine tracks_bind (tracks_guardAgainst framed .call function) ?_
      intro first _ _ reaches trusted
      have knownFirst (argument : Value) (member : argument ∈ arguments) :=
        rules.values_later reaches (known argument member)
      refine tracks_bind (tracks_guardAll (rules.frames_later reaches framed) knownFirst) ?_
      intro second _ _ further trustedAll
      have calls := rules.calls_trusted (rules.trusted_later further (trusted callable))
        (rules.values_later (rules.reaches_trans reaches further) good)
        (fun argument member => rules.values_later further (knownFirst argument member)) trustedAll
      exact tracks_weaken (follows.calls second function arguments calls)
        fun _ _ _ _ answer => answer.1

theorem tracks_holds {one two : Operand} (operands : rules.Operands world frame one two) :
    rules.Tracks world (Machine.holds left frame one) (Machine.holds right frame two)
      fun _ met same => met = same := by
  refine tracks_bind (tracks_resolve follows framed operands) ?_
  rintro later value _ reaches ⟨rfl, -⟩
  refine tracks_get fun state other states => from_pure states ?_
  rw [truth_alike states]

omit framed follows in
theorem tracks_unresolved {one two : Operand} (operands : rules.Operands world frame one two) :
    rules.Tracks world (unresolved one) (unresolved two)
      fun later name same => rules.Same later name same ∧ one = .value name := by
  cases operands with
  | value known => exact tracks_pure ⟨⟨rfl, known⟩, rfl⟩
  | suspended related => exact tracks_throw _

/-- The value of a binary operator that takes the values of both its operands. -/
theorem tracks_strict {symbol : Text} (other : symbol ≠ Text.ofString "=")
    {leftOne leftTwo rightOne rightTwo : Operand}
    (lefts : rules.Operands world frame leftOne leftTwo)
    (rights : rules.Operands world frame rightOne rightTwo) :
    rules.Tracks world
      (do let function ← operator Dialect.binary frame symbol
          let one ← resolve left frame leftOne
          let two ← resolve left frame rightOne
          let result ← left (.call function [one, two])
          if symbol = Text.ofString "[" then Eval.guardAgainst .element frame.dialect result
          return result)
      (do let function ← operator Dialect.binary frame symbol
          let one ← resolve right frame leftTwo
          let two ← resolve right frame rightTwo
          let result ← right (.call function [one, two])
          if symbol = Text.ofString "[" then Eval.guardAgainst .element frame.dialect result
          return result) rules.Same := by
  refine tracks_bind (tracks_operator framed (.inr ⟨.inl rfl, other⟩)) ?_
  rintro first function _ reaches ⟨rfl, operates⟩
  have framedFirst := rules.frames_later reaches framed
  refine tracks_bind (tracks_resolve follows framedFirst (lefts.later reaches)) ?_
  rintro second one _ further ⟨rfl, goodOne⟩
  have framedSecond := rules.frames_later further framedFirst
  refine tracks_bind
    (tracks_resolve follows framedSecond ((rights.later reaches).later further)) ?_
  rintro third two _ beyond ⟨rfl, goodTwo⟩
  have calls := operates third (rules.reaches_trans further beyond) [one, two] (by
    intro argument member
    rcases List.mem_pair.mp member with rfl | rfl
    · exact rules.values_later beyond goodOne
    · exact goodTwo)
  refine tracks_bind (follows.calls third function _ calls) ?_
  rintro fourth result _ last ⟨⟨rfl, good⟩, -⟩
  have framedFourth := rules.frames_later last (rules.frames_later beyond framedSecond)
  split
  · exact tracks_given framedFourth .element good
  · exact tracks_pure ⟨rfl, good⟩

/-- The value of an assignment to a name. -/
theorem tracks_assign {leftOne leftTwo rightOne rightTwo : Operand}
    (binds : rules.binds world frame leftOne)
    (lefts : rules.Operands world frame leftOne leftTwo)
    (rights : rules.Operands world frame rightOne rightTwo) :
    rules.Tracks world
      (do let function ← operator Dialect.binary frame (Text.ofString "=")
          let value ← resolve left frame rightOne
          let name ← unresolved leftOne
          left (.call function [name, value, .map frame.scope]))
      (do let function ← operator Dialect.binary frame (Text.ofString "=")
          let value ← resolve right frame rightTwo
          let name ← unresolved leftTwo
          right (.call function [name, value, .map frame.scope])) rules.Same := by
  refine tracks_bind (tracks_assignment framed) ?_
  rintro first function _ reaches ⟨rfl, assigns⟩
  have framedFirst := rules.frames_later reaches framed
  refine tracks_bind (tracks_resolve follows framedFirst (rights.later reaches)) ?_
  rintro second value _ further ⟨rfl, good⟩
  have leftsSecond := (lefts.later reaches).later further
  refine tracks_bind (tracks_unresolved leftsSecond) ?_
  rintro third name _ beyond ⟨⟨rfl, -⟩, rfl⟩
  have through := rules.reaches_trans further beyond
  have bindsThird := rules.binds_later (rules.reaches_trans reaches through) binds
  have calls := assigns third name value through bindsThird (rules.values_later beyond good)
  exact tracks_weaken (follows.calls third function _ calls) fun _ _ _ _ answer => answer.1

theorem tracks_binary {symbol : Text} {leftOne leftTwo rightOne rightTwo : Operand}
    (binds : symbol = Text.ofString "=" → rules.binds world frame leftOne)
    (lefts : rules.Operands world frame leftOne leftTwo)
    (rights : rules.Operands world frame rightOne rightTwo) :
    rules.Tracks world (binary left frame symbol leftOne rightOne)
      (binary right frame symbol leftTwo rightTwo) rules.Same := by
  have verdict (later : rules.World) (truth : Bool) :
      rules.Tracks later (pure (.bool truth)) (pure (.bool truth)) rules.Same :=
    tracks_pure ⟨rfl, rules.opened later _ rfl⟩
  have second (later : rules.World) (reaches : rules.reaches world later) :
      rules.Tracks later (do return .bool (← Machine.holds left frame rightOne))
        (do return .bool (← Machine.holds right frame rightTwo)) rules.Same := by
    refine tracks_bind
      (tracks_holds (rules.frames_later reaches framed) follows (rights.later reaches)) ?_
    rintro last met _ - rfl
    exact verdict last met
  unfold binary
  by_cases conjunction : symbol = Text.ofString "and"
  · simp only [if_pos conjunction]
    refine tracks_bind (tracks_holds framed follows lefts) ?_
    rintro later met _ reaches rfl
    cases met with
    | true => exact second later reaches
    | false => exact verdict later false
  · simp only [if_neg conjunction]
    by_cases disjunction : symbol = Text.ofString "or"
    · simp only [if_pos disjunction]
      refine tracks_bind (tracks_holds framed follows lefts) ?_
      rintro later met _ reaches rfl
      cases met with
      | true => exact verdict later true
      | false => exact second later reaches
    · simp only [if_neg disjunction]
      by_cases assignment : symbol = Text.ofString "="
      · simp only [if_pos assignment]
        rw [assignment]
        exact tracks_assign framed follows (binds assignment) lefts rights
      · simp only [if_neg assignment]
        exact tracks_strict framed follows assignment lefts rights

theorem tracks_assignMember {target name value : Value}
    (binds : rules.binds world frame (.value name)) (goodTarget : rules.values world target)
    (goodValue : rules.values world value) :
    rules.Tracks world (assignMember left frame target name value)
      (assignMember right frame target name value) rules.Same := by
  unfold assignMember
  cases assignMember.isReserved name with
  | true => exact tracks_throw _
  | false =>
      cases target with
      | map place =>
          refine tracks_bind (tracks_memberAssignment framed) ?_
          rintro later function _ reaches ⟨rfl, assigns⟩
          have calls := assigns later (.map place) name value (rules.reaches_refl later)
            (rules.binds_later reaches binds) (rules.values_later reaches goodTarget)
            (rules.values_later reaches goodValue)
          exact tracks_weaken (follows.calls later function _ calls) fun _ _ _ _ answer => answer.1
      | _ => exact tracks_throw _

theorem tracks_ternary {symbol : Text}
    {firstOne firstTwo secondOne secondTwo thirdOne thirdTwo : Operand}
    (binds : symbol = Text.ofString "=" → rules.binds world frame secondOne)
    (firsts : rules.Operands world frame firstOne firstTwo)
    (seconds : rules.Operands world frame secondOne secondTwo)
    (thirds : rules.Operands world frame thirdOne thirdTwo) :
    rules.Tracks world (ternary left frame symbol firstOne secondOne thirdOne)
      (ternary right frame symbol firstTwo secondTwo thirdTwo) rules.Same := by
  unfold ternary
  by_cases choice : symbol = Text.ofString "?"
  · simp only [if_pos choice]
    refine tracks_bind (tracks_holds framed follows firsts) ?_
    rintro later met _ reaches rfl
    have framedLater := rules.frames_later reaches framed
    cases met with
    | true => exact tracks_resolve follows framedLater (seconds.later reaches)
    | false => exact tracks_resolve follows framedLater (thirds.later reaches)
  · simp only [if_neg choice]
    by_cases assignment : symbol = Text.ofString "="
    · simp only [if_pos assignment]
      refine tracks_bind (tracks_resolve follows framed firsts) ?_
      rintro one target _ reaches ⟨rfl, goodTarget⟩
      have framedOne := rules.frames_later reaches framed
      refine tracks_bind (tracks_resolve follows framedOne (thirds.later reaches)) ?_
      rintro two value _ further ⟨rfl, goodValue⟩
      refine tracks_bind (tracks_unresolved ((seconds.later reaches).later further)) ?_
      rintro three name _ beyond ⟨⟨rfl, -⟩, rfl⟩
      have through := rules.reaches_trans further beyond
      have bindsThree := rules.binds_later (rules.reaches_trans reaches through) (binds assignment)
      exact tracks_assignMember (rules.frames_later through framedOne) follows bindsThree
        (rules.values_later through goodTarget) (rules.values_later beyond goodValue)
    · simp only [if_neg assignment]
      refine tracks_bind (tracks_operator framed (.inr ⟨.inr rfl, assignment⟩)) ?_
      rintro zero function _ start ⟨rfl, operates⟩
      have framedZero := rules.frames_later start framed
      refine tracks_bind (tracks_resolve follows framedZero (firsts.later start)) ?_
      rintro one first _ reaches ⟨rfl, goodFirst⟩
      have framedOne := rules.frames_later reaches framedZero
      have secondsOne := (seconds.later start).later reaches
      refine tracks_bind (tracks_resolve follows framedOne secondsOne) ?_
      rintro two second _ further ⟨rfl, goodSecond⟩
      have framedTwo := rules.frames_later further framedOne
      have thirdsTwo := ((thirds.later start).later reaches).later further
      refine tracks_bind (tracks_resolve follows framedTwo thirdsTwo) ?_
      rintro three third _ beyond ⟨rfl, goodThird⟩
      have through := rules.reaches_trans further beyond
      have calls := operates three (rules.reaches_trans reaches through) [first, second, third] (by
        intro argument member
        simp only [List.mem_cons, List.not_mem_nil, or_false] at member
        rcases member with rfl | rfl | rfl
        · exact rules.values_later through goodFirst
        · exact rules.values_later beyond goodSecond
        · exact goodThird)
      exact tracks_weaken (follows.calls three function _ calls) fun _ _ _ _ answer => answer.1

/-- Stacks whose operands go together. -/
abbrev Stacks (rules : Correspondence) (world : rules.World) (frame : Frame) :
    Stack → Stack → Prop :=
  List.Forall₂ (rules.Operands world frame)

omit framed follows in
theorem Stacks.later {one two : Stack} {later : rules.World} (stacked : Stacks rules world frame one two)
    (reaches : rules.reaches world later) : Stacks rules later frame one two :=
  stacked.imp fun _ _ operands => operands.later reaches

omit framed follows in
theorem tracks_pop {one two : Stack} (stacked : Stacks rules world frame one two) :
    rules.Tracks world (pop one) (pop two) fun later left right =>
      rules.Operands later frame left.1 right.1 ∧ Stacks rules later frame left.2 right.2 ∧
        one = left.1 :: left.2 := by
  cases stacked with
  | nil => exact tracks_throw _
  | cons operands rest => exact tracks_pure ⟨operands, rest, rfl⟩

omit framed follows in
theorem tracks_popMany (count : Nat) {one two takenOne takenTwo : Stack}
    (stacked : Stacks rules world frame one two)
    (taken : Stacks rules world frame takenOne takenTwo) :
    rules.Tracks world (popMany count one takenOne) (popMany count two takenTwo)
      fun later left right =>
        Stacks rules later frame left.1 right.1 ∧ Stacks rules later frame left.2 right.2 ∧
          ∃ popped, left.1 = popped.reverse ++ takenOne ∧ one = popped ++ left.2 ∧
            popped.length = count := by
  induction count generalizing one two takenOne takenTwo with
  | zero => exact tracks_pure ⟨taken, stacked, [], rfl, rfl, rfl⟩
  | succ count ih =>
      cases stacked with
      | nil => exact tracks_throw _
      | @cons topOne topTwo restOne restTwo operands rest =>
          refine tracks_weaken (ih rest (.cons operands taken)) ?_
          rintro later left right reaches ⟨all, others, popped, content, rfl, length⟩
          refine ⟨all, others, topOne :: popped, ?_, rfl, by simp [length]⟩
          rw [content, List.reverse_cons, List.append_assoc]
          rfl

theorem tracks_popResolved (count : Nat) {one two : Stack} {taken : List Value}
    (stacked : Stacks rules world frame one two)
    (known : ∀ value ∈ taken, rules.values world value) :
    rules.Tracks world (popResolved left frame count one taken)
      (popResolved right frame count two taken)
      fun later left right =>
        AllSame rules later left.1 right.1 ∧ Stacks rules later frame left.2 right.2 := by
  induction count generalizing world one two taken with
  | zero => exact tracks_pure ⟨⟨rfl, known⟩, stacked⟩
  | succ count ih =>
      cases stacked with
      | nil => exact tracks_throw _
      | cons operands rest =>
          refine tracks_bind (tracks_pop (.cons operands rest)) ?_
          rintro first ⟨topOne, restOne⟩ ⟨topTwo, restTwo⟩ reaches ⟨operands, rest, -⟩
          have framedFirst := rules.frames_later reaches framed
          refine tracks_bind (tracks_resolve follows framedFirst operands) ?_
          rintro second value _ further ⟨rfl, good⟩
          refine ih (rules.frames_later further framedFirst) (rest.later further) ?_
          intro item member
          rcases List.mem_cons.mp member with rfl | inside
          · exact good
          · exact rules.values_later (rules.reaches_trans reaches further) (known item inside)

omit framed follows in
theorem define_congr (name : Value) {one two : List Operand} (body : Operand)
    (operands : List.Forall₂ (rules.Operands world frame) one two) :
    define frame name one body = define frame name two body := by
  have values : one.map define.valueOf = two.map define.valueOf := by
    induction operands with
    | nil => rfl
    | cons first rest ih =>
        rw [List.map_cons, List.map_cons, ih]
        cases first <;> rfl
  have texts : one.all define.isText = two.all define.isText := by
    induction operands with
    | nil => rfl
    | cons first rest ih =>
        simp only [List.map_cons, List.cons.injEq] at values
        rw [List.all_cons, List.all_cons, ih values.2]
        cases first <;> rfl
  unfold define
  simp only [values, texts]

omit follows in
theorem tracks_define (count : Int) {one two : Stack} (stacked : Stacks rules world frame one two)
    (binds : ∀ operand ∈ bound (.define count) one, rules.binds world frame operand) :
    rules.Tracks world (step left frame (.define count) one) (step right frame (.define count) two)
      fun later left right => Stacks rules later frame left right := by
  unfold step
  refine tracks_bind (tracks_pop stacked) ?_
  rintro first ⟨bodyOne, restOne⟩ ⟨bodyTwo, restTwo⟩ reaches ⟨bodies, rests, rfl⟩
  refine tracks_bind (tracks_popMany count.toNat rests .nil) ?_
  rintro second ⟨parametersOne, lowerOne⟩ ⟨parametersTwo, lowerTwo⟩ further
    ⟨parameters, lowers, popped, content, taken, length⟩
  refine tracks_bind (tracks_pop lowers) ?_
  rintro third ⟨nameOne, baseOne⟩ ⟨nameTwo, baseTwo⟩ beyond ⟨names, bases, lower⟩
  simp only [List.append_nil] at content taken lower bodies parameters names bases ⊢
  subst lower content taken
  have through := rules.reaches_trans reaches (rules.reaches_trans further beyond)
  have member (operand : Operand) (inside : operand = nameOne ∨ operand ∈ popped.reverse) :
      rules.binds third frame operand := by
    refine rules.binds_later through (binds operand ?_)
    rw [List.mem_reverse] at inside
    simp only [bound, ← length, List.take_length_add_append, List.mem_append]
    exact inside.symm.imp_right fun same => by simp [same]
  have valued : define.valueOf nameTwo = define.valueOf nameOne := by cases names <;> rfl
  rw [valued, ← define_congr _ _ (Stacks.later parameters beyond)]
  have framedThird := rules.frames_later through framed
  refine tracks_bind (rules.defines framedThird (member nameOne (.inl rfl))
    (fun parameter inside => member parameter (.inr inside))
    (bodies.later (rules.reaches_trans further beyond))) ?_
  rintro fourth value _ last ⟨rfl, good⟩
  exact tracks_pure (.cons (.value good) (Stacks.later bases last))

theorem tracks_step {one two : Instruction} {stackOne stackTwo : Stack}
    (instructions : rules.Instructions world frame one two)
    (stacked : Stacks rules world frame stackOne stackTwo)
    (binds : ∀ operand ∈ bound one stackOne, rules.binds world frame operand) :
    rules.Tracks world (step left frame one stackOne) (step right frame two stackTwo)
      fun later left right => Stacks rules later frame left right := by
  have pushed {later : rules.World} {valueOne valueTwo : Eval Value} {lowerOne lowerTwo : Stack}
      (lowers : Stacks rules later frame lowerOne lowerTwo)
      (tracked : rules.Tracks later valueOne valueTwo rules.Same) :
      rules.Tracks later (do return .value (← valueOne) :: lowerOne)
        (do return .value (← valueTwo) :: lowerTwo)
        fun last left right => Stacks rules last frame left right := by
    refine tracks_bind tracked ?_
    rintro last value _ reaches ⟨rfl, good⟩
    exact tracks_pure (.cons (.value good) (Stacks.later lowers reaches))
  cases instructions with
  | literal good => exact tracks_pure (.cons (.value good) stacked)
  | nested related => exact tracks_pure (.cons (.suspended related) stacked)
  | suspended related => exact tracks_pure (.cons (.suspended related) stacked)
  | target name => exact tracks_pure (.cons (.value (rules.opened world _ rfl)) stacked)
  | name name => exact pushed stacked (tracks_lookup framed name)
  | unary symbol =>
      refine tracks_bind (tracks_pop stacked) ?_
      rintro first ⟨operandOne, restOne⟩ ⟨operandTwo, restTwo⟩ reaches ⟨operands, rests, -⟩
      have framedFirst := rules.frames_later reaches framed
      refine tracks_bind (tracks_operator framedFirst (.inl rfl)) ?_
      rintro second function _ further ⟨rfl, operates⟩
      have framedSecond := rules.frames_later further framedFirst
      refine tracks_bind (tracks_resolve follows framedSecond (operands.later further)) ?_
      rintro third value _ beyond ⟨rfl, good⟩
      refine pushed (Stacks.later rests (rules.reaches_trans further beyond)) ?_
      refine tracks_weaken (follows.calls third function _ (operates third beyond [value] ?_))
        fun _ _ _ _ answer => answer.1
      exact fun argument member => List.mem_singleton.mp member ▸ good
  | binary symbol =>
      refine tracks_bind (tracks_pop stacked) ?_
      rintro first ⟨rightOne, restOne⟩ ⟨rightTwo, restTwo⟩ reaches ⟨rights, rests, rfl⟩
      refine tracks_bind (tracks_pop rests) ?_
      rintro second ⟨leftOne, lowerOne⟩ ⟨leftTwo, lowerTwo⟩ further ⟨lefts, lowers, rfl⟩
      have through := rules.reaches_trans reaches further
      refine pushed lowers (tracks_binary (rules.frames_later through framed) follows ?_ lefts
        (rights.later further))
      intro assignment
      refine rules.binds_later through (binds leftOne ?_)
      simp [bound, assignment]
  | ternary symbol =>
      refine tracks_bind (tracks_pop stacked) ?_
      rintro first ⟨thirdOne, restOne⟩ ⟨thirdTwo, restTwo⟩ reaches ⟨thirds, rests, rfl⟩
      refine tracks_bind (tracks_pop rests) ?_
      rintro second ⟨secondOne, lowerOne⟩ ⟨secondTwo, lowerTwo⟩ further ⟨seconds, lowers, rfl⟩
      refine tracks_bind (tracks_pop lowers) ?_
      rintro third ⟨firstOne, baseOne⟩ ⟨firstTwo, baseTwo⟩ beyond ⟨firsts, bases, -⟩
      have through := rules.reaches_trans further beyond
      refine pushed bases (tracks_ternary (rules.frames_later (rules.reaches_trans reaches through)
        framed) follows ?_ firsts (seconds.later beyond) (thirds.later through))
      intro assignment
      refine rules.binds_later (rules.reaches_trans reaches through) (binds secondOne ?_)
      simp [bound, assignment]
  | call count =>
      refine tracks_bind (tracks_popResolved framed follows count.toNat stacked nofun) ?_
      rintro first ⟨arguments, restOne⟩ ⟨_, restTwo⟩ reaches ⟨⟨rfl, known⟩, rests⟩
      refine tracks_bind (tracks_pop rests) ?_
      rintro second ⟨calleeOne, lowerOne⟩ ⟨calleeTwo, lowerTwo⟩ further ⟨callees, lowers, -⟩
      have framedSecond := rules.frames_later (rules.reaches_trans reaches further) framed
      refine tracks_bind (tracks_resolve follows framedSecond callees) ?_
      rintro third function _ beyond ⟨rfl, good⟩
      refine pushed (Stacks.later lowers beyond) ?_
      refine tracks_callTrusted (rules.frames_later beyond framedSecond) follows good ?_
      exact fun argument member => rules.values_later (rules.reaches_trans further beyond)
        (known argument member)
  | define count => exact tracks_define framed count stacked binds
  | member name =>
      refine tracks_bind (tracks_pop stacked) ?_
      rintro first ⟨targetOne, restOne⟩ ⟨targetTwo, restTwo⟩ reaches ⟨targets, rests, -⟩
      have framedFirst := rules.frames_later reaches framed
      refine tracks_bind (tracks_resolve follows framedFirst targets) ?_
      rintro second target _ further ⟨rfl, good⟩
      exact pushed (Stacks.later rests further)
        (tracks_readMember (rules.frames_later further framedFirst) good name)
  | discard =>
      refine tracks_bind (tracks_pop stacked) ?_
      rintro first ⟨_, restOne⟩ ⟨_, restTwo⟩ reaches ⟨-, rests, -⟩
      exact tracks_pure rests
  | array count =>
      refine tracks_bind (tracks_popResolved framed follows count.toNat stacked nofun) ?_
      rintro first ⟨items, restOne⟩ ⟨_, restTwo⟩ reaches ⟨⟨rfl, known⟩, rests⟩
      exact pushed rests (rules.acts (Action.tame_newList (rules.opened first) known))

/-- The end of a run: the only operand left is its value. -/
theorem tracks_ending {one two : Operand} (operands : rules.Operands world frame one two) :
    rules.Tracks world (do return unsigned (← resolve left frame one))
      (do return unsigned (← resolve right frame two)) rules.Same := by
  refine tracks_bind (tracks_resolve follows framed operands) ?_
  rintro later value _ reaches ⟨rfl, good⟩
  refine tracks_pure ⟨rfl, ?_⟩
  cases value with
  | float number => exact rules.opened later _ rfl
  | _ => exact good

theorem tracks_steps {one two : Program}
    (programs : List.Forall₂ (rules.Instructions world frame) one two)
    (free : ∀ operand, rules.binds world frame operand) {stackOne stackTwo : Stack}
    (stacked : Stacks rules world frame stackOne stackTwo) :
    rules.Tracks world (steps left frame one stackOne) (steps right frame two stackTwo)
      fun later left right => Stacks rules later frame left right := by
  induction one generalizing world two stackOne stackTwo with
  | nil =>
      cases programs with
      | nil => exact tracks_pure stacked
  | cons instruction rest ih =>
      cases programs with
      | cons instructions others =>
          have bindsFirst (operand : Operand) (_ : operand ∈ bound instruction stackOne) :=
            free operand
          refine tracks_bind (tracks_step framed follows instructions stacked bindsFirst) ?_
          intro later nextOne nextTwo reaches nextStacks
          exact ih (rules.frames_later reaches framed)
            (others.imp fun _ _ instructions => instructions.later reaches)
            (fun operand => rules.binds_later reaches (free operand)) nextStacks

/-- A run comes to the same if its instructions do. -/
theorem tracks_finished {one two : Program}
    (tracked : rules.Tracks world (steps left frame one []) (steps right frame two [])
      fun later => Stacks rules later frame) :
    rules.Tracks world (run left frame one) (run right frame two) rules.Same := by
  refine tracks_bind tracked ?_
  intro later stackOne stackTwo reaches stacked
  cases stacked with
  | nil => exact tracks_pure ⟨rfl, rules.opened later _ rfl⟩
  | cons operands rest =>
      cases rest with
      | nil => exact tracks_ending (rules.frames_later reaches framed) follows operands
      | cons _ _ => exact tracks_throw _

theorem tracks_run {one two : Program}
    (programs : List.Forall₂ (rules.Instructions world frame) one two)
    (free : ∀ operand, rules.binds world frame operand) :
    rules.Tracks world (run left frame one) (run right frame two) rules.Same :=
  tracks_finished framed follows (tracks_steps framed follows programs free .nil)

end

end Correspondence

end Machine

end Formula
