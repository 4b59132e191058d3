import Formula.Proofs.Checked
import Formula.Proofs.Pairing
import Formula.Proofs.Scanning

/-!
Simplification preserves meaning: a program and its simplified form come to the same value or the same
failure, and leave the same state.
-/

namespace Formula

open Machine

namespace Setting

variable {setting : Setting} {world : World} {one two : State}

/-- In a context of the runs a known name means what is known of it. -/
theorem Paired.lookup_known (paired : setting.Paired world one two) {state : State}
    (alike : state = one.withFunctions state.heap.functions) {scope : Nat}
    (inside : world.scopes scope) {name : Text} {value : Value}
    (known : named setting.values name = some value) :
    lookup ⟨setting.dialect, scope⟩ name state = some (.ok value, state) := by
  have tables : state.dialect setting.dialect = one.dialect setting.dialect := by
    rw [alike]
    rfl
  have entries : state.heap.entries scope = one.heap.entries scope := by
    rw [alike]
    rfl
  have unnamed := setting.knowable.unnamed known fun entry member =>
    (paired.functions entry member).imp_right fun ⟨place, serial, same, _⟩ => ⟨place, serial, same⟩
  have operators : (one.dialect setting.dialect).unary.get? name = none ∨
      (one.dialect setting.dialect).enables name = false := by
    have enables : (one.dialect setting.dialect).enables name =
        (Dialect.standard setting.options).enables name := by
      rw [Dialect.enables, paired.options]
      rfl
    rw [paired.operates.unary, enables]
    exact setting.knowable.operator known
  have held := (paired.scopes scope inside).2.2 name value known
  refine lookup_named (setting.knowable.proper known) ?_ ?_ ?_ (setting.knowable.scalar known)
  · rwa [tables]
  · rwa [tables]
  · rwa [entries]

theorem Paired.knows (paired : setting.Paired world one two) {state : State}
    (alike : state = one.withFunctions state.heap.functions) {frame : Frame}
    (framed : setting.relations.frames world frame) : Knows setting.values frame state := by
  obtain ⟨dialect, scope⟩ := frame
  obtain ⟨rfl, inside⟩ := framed
  refine ⟨?_, fun name value known => paired.lookup_known alike inside known⟩
  rw [alike]
  exact paired.operates

end Setting

namespace Machine

variable {names : Text → Prop}

theorem target_of_take {demands : List Demand} {shapes lower : List Shape} {stack : Stack}
    (fits : Fits names shapes stack) (taken : take demands shapes = some lower) {operand : Operand}
    (member : (Demand.target, operand) ∈ demands.zip stack) :
    ∃ word, operand = .value (.text word) ∧ names word := by
  induction demands generalizing shapes stack with
  | nil => cases member
  | cons demand demands ih =>
      cases fits with
      | nil => cases taken
      | @cons shape top _ _ first rest =>
          simp only [take] at taken
          split at taken
          · rename_i accepted
            rcases List.mem_cons.mp member with here | below
            · cases here
              cases of_decide_eq_true accepted
              cases operand with
              | suspended program => cases first
              | value value =>
                  cases value with
                  | text word => exact ⟨word, rfl, first⟩
                  | _ => cases first
            · exact ih rest taken below
          · cases taken

/-- The operands to which an instruction binds something are where it demands targets. -/
theorem target_of_bound {instruction : Instruction} {stack : Stack} {operand : Operand}
    (member : operand ∈ bound instruction stack) :
    (Demand.target, operand) ∈ instruction.demands.zip stack := by
  have assigned {symbol : Text} {last target : Operand} {rest : Stack} {other : List Demand}
      {more : List Demand} (inside : operand ∈ if symbol = Text.ofString "=" then [target] else []) :
      (Demand.target, operand) ∈ (if symbol = Text.ofString "=" then
        .suspended :: .target :: more else other).zip (last :: target :: rest) := by
    split at inside
    · rename_i assignment
      cases List.mem_singleton.mp inside
      rw [if_pos assignment]
      exact List.mem_cons_of_mem _ List.mem_cons_self
    · cases inside
  cases instruction with
  | binary symbol =>
      rcases stack with _ | ⟨last, _ | ⟨target, rest⟩⟩
      · cases member
      · cases member
      · exact assigned member
  | ternary symbol =>
      rcases stack with _ | ⟨last, _ | ⟨target, rest⟩⟩
      · cases member
      · cases member
      · exact assigned member
  | define count =>
      cases stack with
      | nil => cases member
      | cons body rest =>
          refine List.mem_cons_of_mem _ ?_
          have among : operand ∈ rest.take (count.toNat + 1) := member
          obtain ⟨place, below, rfl⟩ := List.mem_iff_getElem.mp among
          rw [List.length_take] at below
          rw [List.mem_iff_getElem]
          refine ⟨place, by simp; omega, ?_⟩
          rw [List.getElem_zipWith, List.getElem_replicate, List.getElem_take]
  | _ => cases member

theorem bound_fits {instruction : Instruction} {shapes lower : List Shape} {stack : Stack}
    (fits : Fits names shapes stack) (taken : take instruction.demands shapes = some lower)
    {operand : Operand} (member : operand ∈ bound instruction stack) :
    ∃ word, operand = .value (.text word) ∧ names word :=
  target_of_take fits taken (target_of_bound member)

namespace Correspondence

/-- What a computation gives anyway may be added to what goes together. -/
theorem tracks_also {rules : Correspondence} {α β : Type} {world : rules.World} {left : Eval α}
    {right : Eval β} {post : rules.World → α → β → Prop} {also : α → Prop}
    (tracked : rules.Tracks world left right post) (gives : Eval.Gives also left) :
    rules.Tracks world left right fun later one two => post later one two ∧ also one := by
  intro state other states outcome after found
  obtain ⟨later, counterpart, reached, reaches, came, ready, outcomes⟩ :=
    tracked state other states outcome after found
  refine ⟨later, counterpart, reached, reaches, came, ready, ?_⟩
  cases outcomes with
  | ok related => exact .ok ⟨related, gives state _ after found⟩
  | error failure => exact .error failure

end Correspondence

end Machine

namespace Setting

/-- Whether nothing is known of a name. -/
abbrev Unnamed (setting : Setting) (name : Text) : Prop := named setting.values name = none

open Machine.Correspondence

variable {setting : Setting} {left right : Perform} {frame : Frame}

theorem scalars (setting : Setting) (name : Text) (value : Value)
    (known : named setting.values name = some value) : value.isScalar = true :=
  setting.knowable.scalar known

/-- The value of a stretch that was folded is a good one. -/
theorem good_comes {stretch : Program} {value : Value} {shapes result : List Shape}
    (comes : Comes (knownFacts setting.values) stretch value) (plain : stretch.Plain)
    (scanned : scan stretch shapes = some result) : setting.good value :=
  setting.made value (Value.isGiven_of_isScalar (comes.scalar plain setting.scalars scanned))

section

variable (follows : setting.correspondence.Follows left right)

include follows

/-- An instruction that stands in both programs leaves stacks that go together, and targets only where
its shapes say so. -/
theorem tracks_alike {world : World} (framed : setting.correspondence.frames world frame)
    {one two : Instruction} (instructions : setting.correspondence.Instructions world frame one two)
    (free : ∀ name, one = .target name → setting.Unnamed name)
    {shapes lower : List Shape} {stackOne stackTwo : Stack}
    (fits : Fits setting.Unnamed shapes stackOne)
    (taken : take one.demands shapes = some lower)
    (stacked : Stacks setting.correspondence world frame stackOne stackTwo) :
    setting.correspondence.Tracks world (step left frame one stackOne) (step right frame two stackTwo)
      fun later nextOne nextTwo => Stacks setting.correspondence later frame nextOne nextTwo ∧
        Fits setting.Unnamed (one.yields ++ lower) nextOne := by
  have binds (operand : Operand) (member : operand ∈ bound one stackOne) :
      setting.correspondence.binds world frame operand := bound_fits fits taken member
  have tracked := tracks_step framed follows instructions stacked binds
  refine tracks_weaken (tracks_also tracked (gives_step left frame free)) ?_
  rintro later nextOne nextTwo - ⟨nextStacked, leaves⟩
  exact ⟨nextStacked, fits_leaves fits taken leaves⟩

omit follows in
/-- An instruction of a modest program goes together with itself. -/
theorem instructions_refl {world : World} {instruction : Instruction} {rest : Program}
    (modest : Program.Modest setting.values (instruction :: rest)) :
    setting.correspondence.Instructions world frame instruction instruction := by
  cases instruction with
  | literal value => exact .literal (setting.made value (Value.isGiven_of_isScalar modest.head))
  | nested program =>
      exact .nested ⟨.refl program, modest.nested.1, modest.nested.1, modest.nested.2, modest.nested.2⟩
  | suspended program => cases modest.sound
  | _ => constructor

/-- What follows an instruction that stands in both programs. -/
theorem tracks_next {world : World} (framed : setting.correspondence.frames world frame)
    {one two : Instruction} (instructions : setting.correspondence.Instructions world frame one two)
    (free : ∀ name, one = .target name → setting.Unnamed name)
    {shapes : List Shape} {stackOne stackTwo : Stack}
    (fits : Fits setting.Unnamed shapes stackOne)
    (stacked : Stacks setting.correspondence world frame stackOne stackTwo) {restOne restTwo : Program}
    {result : List Shape} (scanned : scan (one :: restOne) shapes = some result)
    (rests : ∀ later lower nextOne nextTwo, setting.correspondence.frames later frame →
      Fits setting.Unnamed (one.yields ++ lower) nextOne →
      Stacks setting.correspondence later frame nextOne nextTwo →
      take one.demands shapes = some lower →
      setting.correspondence.Tracks later (steps left frame restOne nextOne)
        (steps right frame restTwo nextTwo) fun last => Stacks setting.correspondence last frame) :
    setting.correspondence.Tracks world (steps left frame (one :: restOne) stackOne)
      (steps right frame (two :: restTwo) stackTwo)
      fun later => Stacks setting.correspondence later frame := by
  rw [scan] at scanned
  cases taken : take one.demands shapes with
  | none => simp [taken] at scanned
  | some lower =>
      refine tracks_bind
        (tracks_alike follows framed instructions free fits taken stacked) ?_
      rintro later nextOne nextTwo reaches ⟨nextStacked, nextFits⟩
      exact rests later lower nextOne nextTwo (setting.correspondence.frames_later reaches framed)
        nextFits nextStacked taken

variable (worksLeft : Works True left) (worksRight : Works False right)

include worksLeft worksRight

/-- Programs in the place of each other leave stacks that go together: the value of a stretch is what
the stretch comes to in every state of the runs. -/
theorem tracks_exchanges {world : World} (framed : setting.correspondence.frames world frame)
    {one two : Program} (exchanges : Exchanges (knownFacts setting.values) one two)
    (modestOne : one.Modest setting.values) (modestTwo : two.Modest setting.values)
    {shapes resultOne resultTwo : List Shape} (scannedOne : scan one shapes = some resultOne)
    (scannedTwo : scan two shapes = some resultTwo) {stackOne stackTwo : Stack}
    (fits : Fits setting.Unnamed shapes stackOne)
    (stacked : Stacks setting.correspondence world frame stackOne stackTwo) :
    setting.correspondence.Tracks world (steps left frame one stackOne) (steps right frame two stackTwo)
      fun later => Stacks setting.correspondence later frame := by
  induction exchanges generalizing world shapes stackOne stackTwo with
  | nil => exact tracks_pure stacked
  | same instruction rest ih =>
      refine tracks_next follows framed (instructions_refl modestOne) (fun name same => ?_) fits stacked
        scannedOne ?_
      · subst same
        exact modestOne.head
      · intro later lower nextOne nextTwo framedLater nextFits nextStacked taken
        rw [scan, taken] at scannedOne scannedTwo
        exact ih framedLater modestOne.tail modestTwo.tail scannedOne scannedTwo nextFits nextStacked
  | @nested inner other one two parts rest ihParts ih =>
      have counterparts : setting.Counterparts inner other :=
        ⟨parts, modestOne.nested.1, modestTwo.nested.1, modestOne.nested.2, modestTwo.nested.2⟩
      refine tracks_next follows framed (.nested counterparts) (by simp) fits stacked scannedOne
        ?_
      intro later lower nextOne nextTwo framedLater nextFits nextStacked taken
      rw [scan, taken] at scannedOne
      cases taken
      exact ih framedLater modestOne.tail modestTwo.tail scannedOne scannedTwo nextFits nextStacked
  | @folded stretch one two value comes rest ih =>
      rw [scan_append, Option.bind_eq_some_iff] at scannedOne
      obtain ⟨between, first, last⟩ := scannedOne
      cases comes.scanned first
      intro state other paired
      have knows : Knows setting.values frame state := paired.knows rfl framed
      have reads := reads_comes knows worksLeft comes modestOne.left.plain setting.scalars first stackOne
      have good := good_comes comes modestOne.left.plain first
      have fitted : Fits setting.Unnamed (.value :: shapes)
        (.value value :: stackOne) := .cons trivial fits
      have tracked := ih framed modestOne.right modestTwo.tail last scannedTwo fitted
        (.cons (.value good) stacked) state other paired
      intro outcome after found
      rw [steps_append, Eval.bind_apply] at found
      rcases reads with came | ⟨-, came⟩
      · rw [came] at found
        exact tracked outcome after found
      · rw [came] at found
        cases found
  | @unfolded stretch one two value comes rest ih =>
      rw [scan_append, Option.bind_eq_some_iff] at scannedTwo
      obtain ⟨between, first, last⟩ := scannedTwo
      cases comes.scanned first
      intro state other paired
      have knows : Knows setting.values frame other := paired.knows paired.resembles.alike framed
      have reads := reads_comes knows worksRight comes modestTwo.left.plain setting.scalars first stackTwo
      have good := good_comes comes modestTwo.left.plain first
      have fitted : Fits setting.Unnamed (.value :: shapes)
        (.value value :: stackOne) := .cons trivial fits
      have tracked := ih framed modestOne.tail modestTwo.right scannedOne last fitted
        (.cons (.value good) stacked) state other paired
      have came : steps right frame stretch stackTwo other = some (.ok (.value value :: stackTwo), other) :=
        reads.resolve_right fun spent => spent.1
      intro outcome after found
      obtain ⟨later, counterpart, reached, reaches, ends, states, outcomes⟩ :=
        tracked outcome after found
      refine ⟨later, counterpart, reached, reaches, ?_, states, outcomes⟩
      rw [steps_append, Eval.bind_apply, came]
      exact ends

end

/-- With one level of requests more, either of two programs in the place of each other comes to what
the other comes to. -/
theorem follows_perform (depth : Nat) :
    setting.correspondence.Follows (perform depth) (perform (depth + 1)) := by
  induction depth with
  | zero =>
      constructor
      · intro world frame one two framed counterparts state other paired outcome after found
        cases found
      · intro world function arguments calls state other paired outcome after found
        cases found
  | succ depth ih =>
      constructor
      · intro world frame one two framed counterparts
        obtain ⟨_, scannedOne, -⟩ := settles_iff.mp counterparts.settlesOne
        obtain ⟨_, scannedTwo, -⟩ := settles_iff.mp counterparts.settlesTwo
        exact tracks_finished framed ih
          (tracks_exchanges ih (works_perform depth) (works_perform_succ depth) framed
            counterparts.exchanges counterparts.modestOne counterparts.modestTwo scannedOne scannedTwo
            .nil .nil)
      · intro world function arguments calls
        exact tracks_call ih calls

end Setting

/-- What a program comes to in a scope of a state, with requests nested as deep as it takes. -/
def Machine.Evaluates (dialect : Nat) (program : Program) (scope : Nat) (state : State)
    (outcome : Except Failure Value) (after : State) : Prop :=
  ∃ depth, perform depth (.run dialect program scope) state = some (outcome, after)

/-- A heap in which no call of a value rebinds a name of a scope: it does not hold both the scope's
mapping itself and one of the functions behind `=`. -/
def Heap.Shields (heap : Heap) (scope : Nat) : Prop :=
  heap.Holds (fun value => value.rebinds = false) ∨
    heap.Holds fun value => ∀ place, value = .map place → place < heap.maps.size ∧ place ≠ scope

theorem State.Resembles.symm {one two : State} (resembles : one.Resembles two) :
    two.Resembles one where
  alike := by
    rw [resembles.alike]
    rfl
  signatures := resembles.signatures.symm

namespace Setting

variable {setting : Setting} {world : World} {one two after : State} {first second : Program}
  {scope : Nat} {outcome : Except Failure Value}

theorem Counterparts.symm (counterparts : setting.Counterparts first second) :
    setting.Counterparts second first where
  exchanges := counterparts.exchanges.symm
  modestOne := counterparts.modestTwo
  modestTwo := counterparts.modestOne
  settlesOne := counterparts.settlesTwo
  settlesTwo := counterparts.settlesOne

theorem Counterparts.evaluates (counterparts : setting.Counterparts first second)
    (paired : setting.Paired world one two) (inside : world.scopes scope)
    (evaluates : Evaluates setting.dialect first scope one outcome after) :
    ∃ counterpart, Evaluates setting.dialect second scope two outcome counterpart ∧
      after.Resembles counterpart := by
  obtain ⟨depth, came⟩ := evaluates
  obtain ⟨later, counterpart, reached, -, reaches, ready, outcomes⟩ :=
    (follows_perform depth).runs world ⟨setting.dialect, scope⟩ first second ⟨rfl, inside⟩
      counterparts one two paired outcome after came
  refine ⟨reached, ⟨depth + 1, ?_⟩, ready.resembles⟩
  cases outcomes with
  | ok related =>
      rw [related.1]
      exact reaches
  | error failure => exact reaches

end Setting

/-- Folding a modest program gives a modest one. -/
theorem Folds.contents_modest {values : Entries} {before after : Program}
    (folds : Folds (knownFacts values) before after) (modest : before.Modest values)
    (scalars : ∀ name value, named values name = some value → value.isScalar = true)
    {shapes result : List Shape} (scanned : scan before shapes = some result) :
    ∀ instruction ∈ after.contents, instruction.Modest values := by
  induction folds generalizing shapes result with
  | nil => exact modest.contents
  | constant comes rest ih =>
      rw [scan_append, Option.bind_eq_some_iff] at scanned
      obtain ⟨between, first, last⟩ := scanned
      have scalar := comes.scalar modest.left.plain scalars first
      intro instruction member
      rcases List.mem_cons.mp member with rfl | later
      · exact scalar
      · exact ih modest.right last instruction later
  | nested parts rest ihParts ih =>
      obtain ⟨inner, settled⟩ := modest.nested
      obtain ⟨_, first, -⟩ := settles_iff.mp settled
      intro instruction member
      rcases List.mem_append.mp member with here | later
      · exact ihParts inner first instruction here
      · exact ih modest.tail scanned instruction later
  | same instruction rest ih =>
      rw [scan] at scanned
      split at scanned
      · intro other member
        rw [Program.contents_cons, List.mem_append] at member
        rcases member with here | later
        · exact modest.contents other (List.mem_append_left _ here)
        · exact ih modest.tail scanned other later
      · cases scanned

namespace Heap

variable {heap : Heap} {options : Options} {values : Entries}

/-- The setting of the runs in a scope of a shielded heap. -/
theorem Shields.setting {scope : Nat} (shields : heap.Shields scope)
    (knowable : Knowable options values) (dialect : Nat) :
    ∃ setting : Setting, setting.values = values ∧ setting.options = options ∧
      setting.dialect = dialect ∧ setting.scope = scope ∧ setting.size = heap.maps.size ∧
      heap.Holds setting.good := by
  rcases shields with none | none
  · refine ⟨⟨values, options, dialect, scope, heap.maps.size, fun value => value.rebinds = false,
      knowable, fun value free => ?_, fun _ plain => plain, .inl fun _ => id⟩,
      rfl, rfl, rfl, rfl, rfl, none⟩
    cases value with
    | builtin function => cases free
    | _ => rfl
  · refine ⟨⟨values, options, dialect, scope, heap.maps.size,
      fun value => ∀ place, value = .map place → place < heap.maps.size ∧ place ≠ scope,
      knowable, fun value free place same => ?_, fun _ _ _ same => ?_, .inr fun place ours good => ?_⟩,
      rfl, rfl, rfl, rfl, rfl, none⟩
    · rw [same] at free
      cases free
    · cases same
    · obtain ⟨below, other⟩ := good place rfl
      rcases ours with here | new
      · exact other here
      · omega

end Heap

/-- A state whose dialect is the standard one is paired with itself. -/
theorem Setting.paired_refl {setting : Setting} {state : State}
    (standard : state.dialect setting.dialect = .standard setting.options)
    (inside : setting.scope < state.heap.maps.size) (sized : setting.size = state.heap.maps.size)
    (holds : state.heap.Holds setting.good) (binds : setting.Binds (state.heap.entries setting.scope)) :
    setting.Paired ⟨fun _ => False, fun place => place = setting.scope⟩ state state where
  resembles := .refl state
  holds := holds
  size := Nat.le_of_eq sized
  operates := by
    rw [standard]
    exact Dialect.operates_standard _
  options := by rw [standard]; rfl
  functions entry member := by
    rw [standard] at member
    exact .inl member
  scopes := by
    rintro place rfl
    exact ⟨.inl rfl, inside, binds⟩
  own _ known := known.elim

end Formula
