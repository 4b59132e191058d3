import Formula.Proofs.Reenactment

/-!
Whole runs that mirror each other: every term and every call, at every depth.
-/

namespace Formula

/-- A known name means what its scope binds it to, whatever functions have been registered. -/
theorem Knowable.lookup {options : Options} {values : Entries} (knowable : Knowable options values)
    {name : Text} {value : Value} (known : named values name = some value) {state : State}
    {frame : Machine.Frame} (operates : (state.dialect frame.dialect).Operates)
    (same : (state.dialect frame.dialect).options = options)
    (entries : ∀ entry ∈ (state.dialect frame.dialect).functions, entry ∈ standardFunctions ∨
      ∃ place serial, entry = (registeredName serial, .defined place))
    (held : named (state.heap.entries frame.scope) name = some value) :
    Machine.lookup frame name state = some (.ok value, state) := by
  refine Machine.lookup_named (knowable.proper known) (knowable.unnamed known entries) ?_ held
    (knowable.scalar known)
  rw [operates.unary, Dialect.enables, same]
  exact knowable.operator known

namespace Mirror

open Recursion (Closure Deferred Part ofEval)
open Machine (Frame)

variable {mirror : Mirror}

/-- Where the first run is, in a scope. -/
abbrev here (mirror : Mirror) (scope : Nat) : Frame := ⟨mirror.dialect, scope⟩

/-- Where the second run is then. -/
abbrev there (mirror : Mirror) (scope : Nat) : Frame := ⟨mirror.dialect, mirror.moves.maps.place scope⟩

namespace Stage

variable {stage after : mirror.Stage} {scope : Nat} {veiled : Bool}

/-- A scope that has come up, and whether a veil lies over it. -/
structure At (stage : mirror.Stage) (scope : Nat) (veiled : Bool) : Prop where
  has : stage.HasScope scope
  veil : stage.veiled scope = veiled

/-- Parts that go together: a known value and the moved one, or something deferred as each run has it. -/
inductive Parts (stage : mirror.Stage) (veiled : Bool) : Part → Part → Prop
  | value {value : Value} (known : stage.Knows value) :
      Parts stage veiled (.value value) (.value (value.move mirror.moves))
  | deferred {one two : Deferred} (twins : mirror.TwinsDeferred veiled one two) :
      Parts stage veiled (.deferred one) (.deferred two)

theorem At.later (reaches : stage.Reaches after) (placed : stage.At scope veiled) : after.At scope veiled :=
  ⟨placed.has.later reaches.data, (reaches.data.veiled scope placed.has.below).trans placed.veil⟩

theorem Parts.later (reaches : stage.Reaches after) {one two : Part} (parts : stage.Parts veiled one two) :
    after.Parts veiled one two := by
  cases parts with
  | value known => exact .value (known.later reaches.data)
  | deferred twins => exact .deferred twins

/-- The scope of a call on both sides. -/
theorem tracks_enter {closure other : Closure} (pairs : stage.Pairs closure other) {arguments : List Value}
    (known : ∀ argument ∈ arguments, stage.Knows argument) :
    stage.Tracks (ofEval (Recursion.enter closure arguments))
      (ofEval (Recursion.enter other (arguments.map (·.move mirror.moves))))
      fun later one two => two = mirror.moves.maps.place one ∧
        later.At one (mirror.inner (stage.veiled closure.scope)) := by
  intro one two mirrors
  have alike := (mirrors.heaps.alike pairs.scope).inner
  obtain ⟨entries, others, found, foundTwo, alike⟩ :=
    alike.overlay one.state.heap two.state.heap pairs.opens known
  rw [← pairs.parameters, ← pairs.scopeTwo] at foundTwo
  simp only [ofEval, Recursion.enter_apply, found, foundTwo]
  refine .ok (reaches_withData (stage.reaches_addScope _))
    (mirrors.data (stage.reaches_addScope _) (mirrors.heaps.addScope alike)) ⟨?_, ?_, ?_⟩
  · exact mirrors.heaps.place_maps.symm
  · rw [mirrors.heaps.sizeMaps]
    exact .inr (stage.addScope_hides _)
  · rw [mirrors.heaps.sizeMaps]
    exact stage.addScope_veiled _

variable {left right : Recursion.Perform}

section

variable (follows : Follows mirror left right)

include follows

/-- Every call. -/
theorem tracks_call {function : Value} {arguments : List Value} (calls : stage.Calls function arguments) :
    stage.Tracks (Recursion.call left function arguments)
      (Recursion.call right (function.move mirror.moves) (arguments.map (·.move mirror.moves)))
      (Answer function) := by
  cases function with
  | builtin function => exact tracks_callBuiltin follows calls
  | defined place =>
      cases calls with
      | ordinary known inside permitted =>
          refine tracks_get fun one two mirrors => ?_
          obtain ⟨closure, other, found, foundTwo, pairs⟩ :=
            mirrors.closures place (permitted.1 place rfl)
          simp only [found, foundTwo]
          refine tracks_bind (tracks_enter pairs inside) ?_ one two mirrors
          rintro later scope _ reaches ⟨rfl, has, veil⟩
          have ran := follows.runs later scope (.whole closure.body) (.whole other.body) has
            (veil ▸ .whole pairs.bodies)
          rw [pairs.dialect, pairs.dialectTwo]
          exact tracks_weaken ran fun _ _ _ _ same => ⟨same, nofun⟩
  | host serial name => exact tracks_pure ⟨⟨rfl, trivial⟩, nofun⟩
  | _ => exact tracks_refuse _

/-! Operators on parts. -/

theorem tracks_resolve (placed : stage.At scope veiled) {one two : Part} (parts : stage.Parts veiled one two) :
    stage.Tracks (Recursion.resolve left (mirror.here scope) one)
      (Recursion.resolve right (mirror.there scope) two) Same := by
  cases parts with
  | value known => exact tracks_pure ⟨rfl, known⟩
  | deferred twins =>
      obtain ⟨has, rfl⟩ := placed
      exact follows.runs stage scope _ _ has twins

theorem tracks_resolveAll (placed : stage.At scope veiled) {ones twos : List Part}
    (parts : List.Forall₂ (stage.Parts veiled) ones twos) :
    stage.Tracks (Recursion.resolveAll left (mirror.here scope) ones)
      (Recursion.resolveAll right (mirror.there scope) twos) AllSame := by
  induction parts with
  | nil => exact tracks_pure ⟨rfl, nofun⟩
  | cons part rest ih =>
      refine tracks_bind ih ?_
      rintro first values _ reaches ⟨rfl, all⟩
      refine tracks_bind (tracks_resolve follows (placed.later reaches) (part.later reaches)) ?_
      rintro second value _ further ⟨rfl, known⟩
      exact tracks_pure ⟨rfl, List.forall_mem_cons.mpr
        ⟨known, fun value member => (all value member).later further.data⟩⟩

theorem tracks_holds (placed : stage.At scope veiled) {one two : Part} (parts : stage.Parts veiled one two) :
    stage.Tracks (Recursion.holds left (mirror.here scope) one)
      (Recursion.holds right (mirror.there scope) two) fun _ met same => same = met := by
  refine tracks_bind (tracks_resolve follows placed parts) ?_
  rintro later value _ reaches ⟨rfl, known⟩
  refine tracks_get fun one two mirrors => .ok (.refl later) mirrors ?_
  exact mirrors.heaps.renamed.truth known

omit follows in
/-- Plain operators may be called on known values, and they are the same in both runs. -/
theorem calls_plain {function : Value} (plain : function.rebinds = false ∧ function.isDirect = true)
    {arguments : List Value} (known : ∀ argument ∈ arguments, stage.Knows argument) :
    stage.Calls function arguments ∧ function.move mirror.moves = function := by
  obtain ⟨rebinds, direct⟩ := plain
  cases function with
  | builtin builtin =>
      refine ⟨.ordinary (.inr rebinds) known (.of_plain nofun ?_), rfl⟩
      cases builtin <;> first | rfl | cases direct
  | _ => cases direct

/-- The call of a plain operator. -/
theorem tracks_plain {function : Value} (plain : function.rebinds = false ∧ function.isDirect = true)
    {arguments : List Value} (known : ∀ argument ∈ arguments, stage.Knows argument) :
    stage.Tracks (left (.call function arguments))
      (right (.call function (arguments.map (·.move mirror.moves)))) Same := by
  obtain ⟨calls, moved⟩ := calls_plain plain known
  have called := follows.calls stage function arguments calls
  rw [moved] at called
  exact tracks_weaken called fun _ _ _ _ answer => answer.1

/-- An operator that takes the values of both its parts. -/
theorem tracks_strict (placed : stage.At scope veiled) {symbol : Text} (other : symbol ≠ Text.ofString "=")
    {leftOne leftTwo rightOne rightTwo : Part} (lefts : stage.Parts veiled leftOne leftTwo)
    (rights : stage.Parts veiled rightOne rightTwo) :
    stage.Tracks
      (do let function ← ofEval (Machine.operator Dialect.binary (mirror.here scope) symbol)
          let one ← Recursion.resolve left (mirror.here scope) leftOne
          let two ← Recursion.resolve left (mirror.here scope) rightOne
          let result ← left (.call function [one, two])
          if symbol = Text.ofString "[" then
            ofEval (Eval.guardAgainst .element mirror.dialect result)
          return result)
      (do let function ← ofEval (Machine.operator Dialect.binary (mirror.there scope) symbol)
          let one ← Recursion.resolve right (mirror.there scope) leftTwo
          let two ← Recursion.resolve right (mirror.there scope) rightTwo
          let result ← right (.call function [one, two])
          if symbol = Text.ofString "[" then
            ofEval (Eval.guardAgainst .element mirror.dialect result)
          return result) Same := by
  refine tracks_bind (tracks_operator (.inr ⟨.inl rfl, other⟩)) ?_
  rintro first function _ reaches ⟨rfl, plain⟩
  refine tracks_bind (tracks_resolve follows (placed.later reaches) (lefts.later reaches)) ?_
  rintro second one _ further ⟨rfl, knownOne⟩
  have through := reaches.trans further
  refine tracks_bind (tracks_resolve follows (placed.later through) (rights.later through)) ?_
  rintro third two _ beyond ⟨rfl, knownTwo⟩
  have known : ∀ argument ∈ [one, two], third.Knows argument :=
    List.forall_mem_cons.mpr ⟨knownOne.later beyond.data, List.forall_mem_singleton.mpr knownTwo⟩
  refine tracks_bind (tracks_plain follows plain known) ?_
  rintro fourth result _ _ ⟨rfl, knownResult⟩
  split
  · refine tracks_bind (tracks_guardAgainst .element knownResult) fun last _ _ more _ => ?_
    exact tracks_pure ⟨rfl, knownResult.later more.data⟩
  · exact tracks_pure ⟨rfl, knownResult⟩

/-- Every operator with two parts but the assignment. -/
theorem tracks_binary (placed : stage.At scope veiled) {symbol : Text} (other : symbol ≠ Text.ofString "=")
    {leftOne leftTwo rightOne rightTwo : Part} (lefts : stage.Parts veiled leftOne leftTwo)
    (rights : stage.Parts veiled rightOne rightTwo) :
    stage.Tracks (Recursion.binary left (mirror.here scope) symbol leftOne rightOne)
      (Recursion.binary right (mirror.there scope) symbol leftTwo rightTwo) Same := by
  have verdict (later : mirror.Stage) (met : Bool) :
      later.Tracks (pure (.bool met)) (pure (.bool met)) Same := tracks_pure ⟨rfl, trivial⟩
  have second (later : mirror.Stage) (reaches : stage.Reaches later) :
      later.Tracks (do return .bool (← Recursion.holds left (mirror.here scope) rightOne))
        (do return .bool (← Recursion.holds right (mirror.there scope) rightTwo)) Same := by
    refine tracks_bind (tracks_holds follows (placed.later reaches) (rights.later reaches)) ?_
    rintro last met _ - rfl
    exact verdict last _
  unfold Recursion.binary
  by_cases conjunction : symbol = Text.ofString "and"
  · simp only [if_pos conjunction]
    refine tracks_bind (tracks_holds follows placed lefts) ?_
    rintro later _ met reaches rfl
    cases met with
    | true => exact second later reaches
    | false => exact verdict later false
  · simp only [if_neg conjunction]
    by_cases disjunction : symbol = Text.ofString "or"
    · simp only [if_pos disjunction]
      refine tracks_bind (tracks_holds follows placed lefts) ?_
      rintro later _ met reaches rfl
      cases met with
      | true => exact verdict later true
      | false => exact second later reaches
    · simp only [if_neg disjunction, if_neg other]
      exact tracks_strict follows placed other lefts rights

/-- The assignment to a name. -/
theorem tracks_assign (placed : stage.At scope veiled) {word : Text} (free : mirror.Binds veiled word)
    {one two : Part} (parts : stage.Parts veiled one two) :
    stage.Tracks (Recursion.binary left (mirror.here scope) Term.assignSymbol (.value (.text word)) one)
      (Recursion.binary right (mirror.there scope) Term.assignSymbol (.value (.text word)) two) Same := by
  refine tracks_bind (tracks_assignment (.inl ⟨rfl, rfl⟩)) ?_
  rintro first _ _ reaches ⟨rfl, rfl⟩
  refine tracks_bind (tracks_resolve follows (placed.later reaches) (parts.later reaches)) ?_
  rintro second value _ further ⟨rfl, known⟩
  obtain ⟨has, veil⟩ := placed.later (reaches.trans further)
  have called := follows.calls second _ _ (.assign has (veil.symm ▸ free) known)
  exact tracks_weaken called fun _ _ _ _ answer => answer.1

theorem tracks_assignMember {target value : Value} (known : stage.Knows target) (word : Text)
    (knownValue : stage.Knows value) :
    stage.Tracks (Recursion.assignMember left (mirror.here scope) target word value)
      (Recursion.assignMember right (mirror.there scope) (target.move mirror.moves) word
        (value.move mirror.moves)) Same := by
  unfold Recursion.assignMember
  cases reserved : Text.isReserved word with
  | true => exact tracks_throw (.bare rfl)
  | false =>
      cases target with
      | map place =>
          refine tracks_bind (tracks_assignment (.inr ⟨rfl, rfl⟩)) ?_
          rintro later _ _ reaches ⟨rfl, rfl⟩
          have called := follows.calls later _ _ (@Calls.assignMember mirror later place word value known
            (knownValue.later reaches.data))
          exact tracks_weaken called fun _ _ _ _ answer => answer.1
      | _ => exact tracks_throw ⟨rfl, trivial, known⟩

theorem tracks_callTrusted {function : Value} (known : stage.Knows function) {arguments : List Value}
    (inside : ∀ argument ∈ arguments, stage.Knows argument) :
    stage.Tracks (Recursion.callTrusted left (mirror.here scope) function arguments)
      (Recursion.callTrusted right (mirror.there scope) (function.move mirror.moves)
        (arguments.map (·.move mirror.moves))) Same := by
  unfold Recursion.callTrusted
  rw [Value.isCallable_move]
  cases callable : function.isCallable with
  | false => exact tracks_throw ⟨rfl, known⟩
  | true =>
      refine tracks_bind (tracks_guardAgainst .call known) fun first _ _ reaches trusted => ?_
      have knownFirst (argument : Value) (member : argument ∈ arguments) : first.Knows argument :=
        (inside argument member).later reaches.data
      refine tracks_bind (tracks_guardAll knownFirst) fun second _ _ further trustedAll => ?_
      have calls : second.Calls function arguments :=
        .ordinary (known.later (reaches.trans further).data)
          (fun argument member => (knownFirst argument member).later further.data)
          (.of_trusted ((trusted callable).later further) trustedAll)
      exact tracks_weaken (follows.calls second _ _ calls) fun _ _ _ _ answer => answer.1

omit follows in
theorem tracks_define (placed : stage.At scope veiled) {name : Text} {parameters : List Text}
    {body other : Term} (binds : mirror.Binds veiled name)
    (opens : ∀ parameter ∈ parameters, mirror.Binds (mirror.inner veiled) parameter)
    (bodies : mirror.Twins (mirror.inner veiled) body other) :
    stage.Tracks (Recursion.define (mirror.here scope) name parameters body)
      (Recursion.define (mirror.there scope) name parameters other) Same := by
  obtain ⟨has, rfl⟩ := placed
  intro one two mirrors
  have pairs : stage.Pairs ⟨name, parameters, body, mirror.dialect, scope⟩
      ⟨name, parameters, other, mirror.dialect, mirror.moves.maps.place scope⟩ :=
    ⟨rfl, rfl, rfl, rfl, has, rfl, opens, bodies⟩
  refine .ok stage.reaches_define (mirrors.define pairs binds) ⟨?_, ?_⟩
  · exact congrArg Value.defined mirrors.place_functions.symm
  · exact .inr (mirrors.size ▸ stage.functions_based)

/-! Terms. -/

omit follows in
theorem tracks_value {one two : Recursion.Compute Value} (tracks : stage.Tracks one two Same) :
    stage.Tracks (do return Part.value (← one)) (do return Part.value (← two))
      fun later one two => later.Parts veiled one two := by
  refine tracks_bind tracks ?_
  rintro later value _ _ ⟨rfl, known⟩
  exact tracks_pure (.value known)

omit follows in
/-- Under a veil the second run knows what stays bound. -/
theorem knows_known (placed : stage.At scope true) {one two : Recursion.World}
    (mirrors : stage.Mirrors one two) :
    Machine.Knows mirror.veil.known (mirror.there scope) two.state := by
  refine ⟨mirrors.tables.operatesTwo, fun name value known => ?_⟩
  have alike := mirrors.heaps.alike placed.has
  rw [placed.veil] at alike
  exact mirror.veil.knowable.lookup known mirrors.tables.operatesTwo mirrors.tables.optionsTwo
    mirrors.tables.entriesTwo (alike.named_known known)

/-- A term in the second run that comes to the value that the first run has at once. -/
theorem tracks_supplied (placed : stage.At scope true) {value : Value} {one two : Term}
    (scalar : value.isScalar = true)
    (yields : Term.Yields mirror.veil.known mirror.effort two value)
    (came : ∀ here there, stage.Mirrors here there →
      Recursion.part left (mirror.here scope) one here = some (.ok (.value value), here)) :
    stage.Tracks (Recursion.part left (mirror.here scope) one)
      (Recursion.part right (mirror.there scope) two)
      fun later one two => later.Parts true one two := by
  intro here there mirrors
  rcases follows.supplies _ _ _ _ yields (knows_known placed mirrors) with found | ⟨late, spent⟩
  · have parts := @Parts.value mirror stage true value (World.knows_scalar scalar)
    rw [Value.move_scalar _ scalar] at parts
    rw [came here there mirrors, found]
    exact .ok (.refl stage) mirrors parts
  · rw [spent]
    exact .late late _

/-- A term in the second run that comes to what a name is bound to. -/
theorem tracks_supplies (placed : stage.At scope true) {word : Text} {value : Value} {two : Term}
    (shares : mirror.veil.shares word) (known : named mirror.veil.known word = some value)
    (yields : Term.Yields mirror.veil.known mirror.effort two value) :
    stage.Tracks (Recursion.part left (mirror.here scope) (.name word))
      (Recursion.part right (mirror.there scope) two)
      fun later one two => later.Parts true one two := by
  have scalar := mirror.veil.knowable.scalar known
  refine tracks_supplied follows placed scalar yields fun one two mirrors => ?_
  have alike := mirrors.heaps.alike placed.has
  rw [placed.veil] at alike
  have same := alike.same word fun _ => shares
  rw [alike.named_known known] at same
  obtain ⟨held, found, moved⟩ := Option.map_eq_some_iff.mp same.symm
  have scalarHeld : held.isScalar = true := by
    rw [← Value.isScalar_move mirror.moves, moved]
    exact scalar
  rw [Value.move_scalar _ scalarHeld] at moved
  subst moved
  have came : Machine.lookup (mirror.here scope) word one.state = some (.ok held, one.state) :=
    mirror.veil.knowable.lookup known mirrors.tables.operates mirrors.tables.options
      (fun entry member => (mirrors.tables.entries entry member).imp_right
        fun ⟨serial, place, same, _⟩ => ⟨place, serial, same⟩) found
  rw [Recursion.part, bind_run, ofEval, came]
  rfl

end

mutual

/-- Every term comes to parts that go together. -/
theorem tracks_part (follows : Follows mirror left right) (stage : mirror.Stage)
    (placed : stage.At scope veiled) (term : Term) {other : Term} (twins : mirror.Twins veiled term other) :
    stage.Tracks (Recursion.part left (mirror.here scope) term)
      (Recursion.part right (mirror.there scope) other)
      fun later one two => later.Parts veiled one two := by
  cases term with
  | literal value =>
      cases twins with
      | literal held =>
          rw [Recursion.part, Recursion.part]
          have parts := @Parts.value mirror stage veiled value (held.knows _)
          rw [held.move] at parts
          exact tracks_pure parts
      | yields alters scalar yields =>
          exact tracks_supplied follows placed scalar yields fun _ _ _ => by rw [Recursion.part]; rfl
  | name word =>
      cases twins with
      | name reads means =>
          rw [Recursion.part, Recursion.part]
          exact tracks_value (tracks_lookup placed.has reads (placed.veil.symm ▸ means))
      | supplies alters shares known yields => exact tracks_supplies follows placed shares known yields
  | unary symbol operand =>
      cases twins with | unary operands =>
      rw [Recursion.part, Recursion.part]
      refine tracks_bind (tracks_part follows stage placed operand operands)
        fun first _ _ reaches parts => ?_
      refine tracks_bind (tracks_operator (.inl rfl)) ?_
      rintro second function _ further ⟨rfl, plain⟩
      refine tracks_bind (tracks_resolve follows (placed.later (reaches.trans further))
        (parts.later further)) ?_
      rintro third value _ _ ⟨rfl, known⟩
      exact tracks_value (tracks_plain follows plain (List.forall_mem_singleton.mpr known))
  | binary symbol left right =>
      cases twins with | binary other lefts rights =>
      rw [Recursion.part, Recursion.part]
      refine tracks_bind (tracks_part follows stage placed left lefts) fun first _ _ reaches partsLeft => ?_
      refine tracks_bind (tracks_part follows first (placed.later reaches) right rights)
        fun second _ _ further partsRight => ?_
      exact tracks_value (tracks_binary follows (placed.later (reaches.trans further)) other
        (partsLeft.later further) partsRight)
  | shortCircuit symbol left right =>
      cases twins with | shortCircuit other lefts rights =>
      rw [Recursion.part, Recursion.part]
      refine tracks_bind (tracks_part follows stage placed left lefts) fun first _ _ reaches partsLeft => ?_
      exact tracks_value (tracks_binary follows (placed.later reaches) other partsLeft
        (.deferred (.whole rights)))
  | conditional condition yes no =>
      cases twins with | conditional conditions yeses noes =>
      rw [Recursion.part, Recursion.part]
      refine tracks_bind (tracks_part follows stage placed condition conditions)
        fun first _ _ reaches parts => ?_
      refine tracks_bind (tracks_holds follows (placed.later reaches) parts) ?_
      rintro second _ met further rfl
      have chosen := placed.later (reaches.trans further)
      cases met with
      | true => exact tracks_value (tracks_resolve follows chosen (.deferred (.whole yeses)))
      | false => exact tracks_value (tracks_resolve follows chosen (.deferred (.whole noes)))
  | assign target value =>
      cases twins with | assign binds values =>
      rw [Recursion.part, Recursion.part]
      exact tracks_value (tracks_assign follows placed binds (.deferred (.whole values)))
  | assignMember object key value =>
      cases twins with | assignMember objects values =>
      rw [Recursion.part, Recursion.part]
      refine tracks_bind (tracks_part follows stage placed object objects) fun first _ _ reaches parts => ?_
      refine tracks_bind (tracks_resolve follows (placed.later reaches) parts) ?_
      rintro second target _ further ⟨rfl, known⟩
      refine tracks_bind (tracks_resolve follows (placed.later (reaches.trans further))
        (.deferred (.whole values))) ?_
      rintro third result _ last ⟨rfl, knownResult⟩
      exact tracks_value (tracks_assignMember follows (known.later last.data) key knownResult)
  | define name parameters body =>
      cases twins with | define binds opens bodies =>
      rw [Recursion.part, Recursion.part]
      exact tracks_value (tracks_define placed binds opens bodies)
  | call callee arguments =>
      cases twins with | call callees each =>
      rw [Recursion.part, Recursion.part]
      refine tracks_bind (tracks_part follows stage placed callee callees) fun first _ _ reaches parts => ?_
      refine tracks_bind (tracks_parts follows first (placed.later reaches) arguments each)
        fun second _ _ further parted => ?_
      have through := reaches.trans further
      refine tracks_bind (tracks_resolveAll follows (placed.later through) parted) ?_
      rintro third values _ beyond ⟨rfl, known⟩
      refine tracks_bind (tracks_resolve follows (placed.later (through.trans beyond))
        (parts.later (further.trans beyond))) ?_
      rintro fourth function _ last ⟨rfl, knownFunction⟩
      exact tracks_value (tracks_callTrusted follows knownFunction
        fun value member => (known value member).later last.data)
  | member object key =>
      cases twins with | member objects =>
      rw [Recursion.part, Recursion.part]
      refine tracks_bind (tracks_part follows stage placed object objects) fun first _ _ reaches parts => ?_
      refine tracks_bind (tracks_resolve follows (placed.later reaches) parts) ?_
      rintro second target _ _ ⟨rfl, known⟩
      exact tracks_value (tracks_readMember known key)
  | array items =>
      cases twins with | array each =>
      rw [Recursion.part, Recursion.part]
      refine tracks_bind (tracks_parts follows stage placed items each) fun first _ _ reaches parted => ?_
      refine tracks_bind (tracks_resolveAll follows (placed.later reaches) parted) ?_
      rintro second values _ _ ⟨rfl, known⟩
      exact tracks_value (tracks_act (Action.bare_newList _) fun _ _ reflects => World.outcome_newList reflects known)
  | statement body =>
      cases twins with | statement bodies =>
      rw [Recursion.part, Recursion.part]
      exact tracks_pure (.deferred (.whole bodies))
  | sequence first rest =>
      cases twins with | sequence firsts rests =>
      rw [Recursion.part, Recursion.part]
      exact tracks_pure (.deferred (.statements firsts rests))

theorem tracks_parts (follows : Follows mirror left right) (stage : mirror.Stage)
    (placed : stage.At scope veiled) (terms : List Term) {others : List Term}
    (twins : mirror.TwinsEach veiled terms others) :
    stage.Tracks (Recursion.parts left (mirror.here scope) terms)
      (Recursion.parts right (mirror.there scope) others)
      fun later ones twos => List.Forall₂ (later.Parts veiled) ones twos := by
  cases terms with
  | nil =>
      cases twins
      exact tracks_pure .nil
  | cons term rest =>
      cases twins with | cons firsts rests =>
      rw [Recursion.parts, Recursion.parts]
      refine tracks_bind (tracks_part follows stage placed term firsts) fun first _ _ reaches part => ?_
      refine tracks_bind (tracks_parts follows first (placed.later reaches) rest rests)
        fun second _ _ further each => ?_
      exact tracks_pure (.cons (part.later further) each)

end

section

variable (follows : Follows mirror left right)

include follows

/-- Everything deferred. -/
theorem tracks_run (placed : stage.At scope veiled) {one two : Deferred}
    (twins : mirror.TwinsDeferred veiled one two) :
    stage.Tracks (Recursion.run left (mirror.here scope) one)
      (Recursion.run right (mirror.there scope) two) Same := by
  have last (later : mirror.Stage) (placed : later.At scope veiled) {term other : Term}
      (twins : mirror.Twins veiled term other) :
      later.Tracks
        (do let part ← Recursion.part left (mirror.here scope) term
            return Machine.unsigned (← Recursion.resolve left (mirror.here scope) part))
        (do let part ← Recursion.part right (mirror.there scope) other
            return Machine.unsigned (← Recursion.resolve right (mirror.there scope) part)) Same := by
    refine tracks_bind (tracks_part follows later placed term twins) fun first _ _ reaches parts => ?_
    refine tracks_bind (tracks_resolve follows (placed.later reaches) parts) ?_
    rintro second value _ _ ⟨rfl, known⟩
    exact tracks_pure ⟨by cases value <;> rfl, by cases value <;> exact known⟩
  cases twins with
  | whole terms => exact last stage placed terms
  | statements firsts rests =>
      refine tracks_bind (tracks_part follows stage placed _ firsts) fun later _ _ reaches _ => ?_
      exact last later (placed.later reaches) rests

/-- One level of tasks more on both sides. -/
theorem follows_fulfil (supplies : Supplies mirror (Recursion.fulfil right)) :
    Follows mirror (Recursion.fulfil left) (Recursion.fulfil right) where
  calls _ _ _ calls := tracks_call follows calls
  runs _ _ _ _ has twins := tracks_run follows ⟨has, rfl⟩ twins
  supplies := supplies

end

/-- Whatever is to be worked out, to whatever depth, comes to the same in worlds that mirror each other.
The second run may be given more fuel, for the terms that take the place of others, if the first one may
lack some; without it, the second one may. -/
theorem follows_perform {spare : Nat} (enough : mirror.late ∨ mirror.effort ≤ spare)
    (early : mirror.early ∨ spare = 0) (depth : Nat) :
    Follows mirror (Recursion.perform depth) (Recursion.perform (depth + spare)) := by
  have supplies (depth : Nat) : Supplies mirror (Recursion.perform (depth + spare)) := by
    intro term value frame world yields knows
    refine (yields.reads (fun _ _ => mirror.veil.knowable.scalar) knows (depth + spare)).imp_right ?_
    rintro ⟨less, spent⟩
    exact ⟨enough.resolve_right fun fits => by omega, spent⟩
  induction depth with
  | zero =>
      refine ⟨fun _ _ _ _ _ _ _ => ?_, fun _ _ _ _ _ _ _ _ _ => ?_, supplies 0⟩
      · rcases early with allowed | rfl
        · exact .early allowed _
        · exact .spent
      · rcases early with allowed | rfl
        · exact .early allowed _
        · exact .spent
  | succ depth ih =>
      have again := supplies (depth + 1)
      rw [Nat.add_right_comm] at again ⊢
      exact follows_fulfil ih again

end Stage

end Mirror

end Formula
