import Formula.Proofs.Correctness
import Formula.Proofs.Footing
import Formula.Proofs.Preservation

/-!
Calls in one and the same state: of a function that reads a parameter, with a value given for it, and of
one whose body has that value in place of the parameter.
-/

namespace Formula

namespace Machine

/-- What the call of a value comes to, with some amount of fuel. -/
def Calls (function : Value) (arguments : List Value) (state : State) (outcome : Except Failure Value)
    (after : State) : Prop :=
  ∃ depth, perform depth (.call function arguments) state = some (outcome, after)

/-- Arguments with a value in place of what is given for a parameter. -/
def fixed (word : Text) (value : Value) : List Text → List Value → List Value
  | parameter :: parameters, argument :: arguments =>
    (if parameter = word then value else argument) :: fixed word value parameters arguments
  | _, arguments => arguments

/-- Scopes that differ at most in a name still do when arguments are laid over them that differ at most in
what is given for that name. -/
theorem overlay_fixed (heap : Heap) {word : Text} {value : Value} {parameters : List Text}
    {arguments : List Value} {left right : Entries}
    (others : ∀ name, name ≠ word → named right name = named left name)
    (bound : named right word = some value ∨ word ∈ parameters ∧ parameters.length ≤ arguments.length) :
    ∃ entries laid, overlay heap (parameters.map .text) arguments left = .ok entries ∧
      overlay heap (parameters.map .text) (fixed word value parameters arguments) right = .ok laid ∧
        (∀ name, name ≠ word → named laid name = named entries name) ∧ named laid word = some value := by
  induction parameters generalizing arguments left right with
  | nil => exact ⟨left, right, rfl, rfl, others, bound.resolve_right fun inside => nomatch inside.1⟩
  | cons parameter parameters ih =>
      cases arguments with
      | nil => exact ⟨left, right, rfl, rfl, others, bound.resolve_right fun inside => nomatch inside.2⟩
      | cons argument arguments =>
          refine ih (fun name other => ?_) ?_
          · by_cases here : parameter = name
            · subst here
              rw [heap.named_bind_self, heap.named_bind_self, if_neg other]
            · rw [heap.named_bind here, heap.named_bind here, others name other]
          · by_cases here : parameter = word
            · subst here
              rw [heap.named_bind_self, if_pos rfl]
              exact .inl rfl
            · rw [heap.named_bind here]
              refine bound.imp_right fun ⟨inside, covered⟩ => ⟨?_, Nat.le_of_succ_le_succ covered⟩
              exact (List.mem_cons.mp inside).resolve_left fun same => here same.symm

/-- The call of a function is a run of its body in a new scope. -/
theorem perform_call {state : State} {place : Nat} {function : DefinedFunction} {arguments : List Value}
    {program : Program} {entries : Entries} (found : state.heap.function? place = some function)
    (body : function.body = .suspended program)
    (laid : overlay state.heap function.parameters arguments (state.heap.entries function.scope) = .ok entries)
    (depth : Nat) :
    perform (depth + 1) (.call (.defined place) arguments) state =
      perform depth (.run function.dialect program state.heap.maps.size)
        { state with heap := (state.heap.addMap entries).2 } := by
  change call (perform depth) (.defined place) arguments state = _
  have called : call (perform depth) (.defined place) arguments state =
      callDefined (perform depth) function arguments state := by
    rw [call, Eval.get_bind_apply]
    rw [found]
  rw [called, callDefined_apply, laid, body]
  rfl

end Machine

/-- A value whose data is there. -/
def Heap.Has (heap : Heap) (value : Value) : Prop :=
  ∀ place, value.place? = some place → place ∈ heap.places

/-- A state in which nothing refers to data that is not there. -/
structure State.Whole (state : State) : Prop where
  items : ∀ place, ∀ item ∈ state.heap.sequence place, state.heap.Has item
  entries : ∀ place, ∀ entry ∈ state.heap.entries place, state.heap.Has entry.1 ∧ state.heap.Has entry.2
  scopes : ∀ function ∈ state.heap.functions, function.scope < state.heap.maps.size
  bodies : ∀ function ∈ state.heap.functions, ∀ program value, function.body = .suspended program →
    .literal value ∈ program.contents → state.heap.Has value

/-- What a value leads to when a scope is added was there before. -/
theorem State.Whole.mem_of_leads {state : State} (whole : state.Whole) (added : Entries) {value : Value}
    {goal : Heap.Place} (has : state.heap.Has value) (leads : (state.heap.addMap added).2.Leads goal value) :
    goal ∈ state.heap.places := by
  have same {place : Nat} (inside : Heap.Place.map place ∈ state.heap.places) :
      (state.heap.addMap added).2.entries place = state.heap.entries place := by
    rw [Heap.entries_push, if_neg (Nat.ne_of_lt (Heap.map_mem_places_iff.mp inside))]
  induction leads with
  | here here => exact has _ here
  | item here member _ ih => exact ih (whole.items _ _ member)
  | key here member _ ih => exact ih (whole.entries _ _ (same (has _ here) ▸ member)).1
  | entry here member _ ih => exact ih (whole.entries _ _ (same (has _ here) ▸ member)).2

/-- Two runs of bodies in the scope of a call, of which the second one may read a name. -/
def entering (world : Recursion.World) {options : Options} (dialect : Nat) {word : Text} {value : Value}
    (knowable : Knowable options [(.text word, value)]) (left : Entries) {right : Entries}
    (bound : named right word = some value) (early late : Prop) : Footing where
  world := { world with state := { world.state with heap := (world.state.heap.addMap left).2 } }
  options := options
  dialect := dialect
  scopes place := place == world.state.heap.maps.size
  avoid place := place = .map world.state.heap.maps.size
  trusted place := ∃ closure, world.closures[place]? = some closure ∧ closure.dialect = dialect
  veil :=
    { binds := fun name => name != word
      shares := fun name => name ≠ word
      rest := Entries.besides (· != word) right
      known := [(.text word, value)]
      lasts := true
      knowable := knowable
      rests := fun {name found} known => by
        rw [named_cons] at known
        split at known
        · rename_i same
          obtain rfl : word = name := beq_iff_eq.mp same
          cases known
          have free : (word != word) = false := by simp
          exact ⟨free, (@named_besides (· != word) word free right).trans bound⟩
        · cases known
      thin := nofun }
  exact := False
  early := early
  late := late
  effort := 1
  inside place apart := by
    obtain rfl : place = world.state.heap.maps.size := beq_iff_eq.mp apart
    simp [Heap.addMap]
  avoided := Heap.Place.map_of_beq

section

variable {world : Recursion.World} {options : Options} {dialect : Nat} {word : Text} {value : Value}
  {knowable : Knowable options [(.text word, value)]} {left right : Entries}
  {bound : named right word = some value} {early late : Prop}

/-- What was there before the call may come up. -/
theorem entering_spares (whole : world.compiled.Whole) {held : Value}
    (has : world.compiled.heap.Has held) :
    (entering world dialect knowable left bound early late).Spares held := by
  intro place leads
  have inside := whole.mem_of_leads left has
    (@Heap.Leads.in_heap (entering world dialect knowable left bound early late).heap _ _
      (world.compiled.heap.addMap left).2 rfl rfl leads)
  cases place with
  | sequence place =>
      have below : place < world.state.heap.sequences.size := Heap.sequence_mem_places_iff.mp inside
      exact ⟨Heap.sequence_mem_places_iff.mpr below, nofun⟩
  | map place =>
      have below : place < world.state.heap.maps.size := Heap.map_mem_places_iff.mp inside
      refine ⟨Heap.map_mem_places_iff.mpr ?_, fun same => ?_⟩
      · exact Nat.lt_of_lt_of_le below (by simp [entering, Heap.addMap])
      · cases same
        exact Nat.lt_irrefl _ below

theorem entering_ready {known : List Options} {serials : List Nat} (whole : world.compiled.Whole)
    (orderly : world.compiled.Orderly) (registers : world.compiled.Registers known serials)
    (created : known[dialect]? = some options) :
    (entering world dialect knowable left bound early late).Ready := by
  refine @Footing.ready_of_registers _ known serials ?_ created
    (fun place closure found own => ⟨closure, found, own⟩) ?_
  · exact registers.congr rfl rfl (Nat.le_refl _)
  · rintro place ⟨closure, found, own⟩
    have compiled : world.compiled.heap.function? place = some closure.compiled := by
      rw [Recursion.compiled_function?, found]
      rfl
    have member : closure.compiled ∈ world.compiled.heap.functions := Array.mem_of_getElem? compiled
    refine ⟨closure, found, own, .inl (entering_spares whole ?_), ?_, fun value held => ?_⟩
    · rintro place ⟨⟩
      exact Heap.map_mem_places_iff.mpr (whole.scopes _ member)
    · exact Term.ordinary_of_disciplined (orderly place _ _ compiled rfl)
    · exact entering_spares whole (whole.bodies _ member _ value rfl held)

/-- The scopes of both calls are alike but for the name. -/
theorem entering_beside (others : ∀ name, name ≠ word → named right name = named left name)
    (whole : world.compiled.Whole) (inside : ∀ entry ∈ left, world.compiled.heap.Has entry.2) :
    (entering world dialect knowable left bound early late).Beside
      { world with state := { world.state with heap := (world.state.heap.addMap right).2 } } where
  sequences := rfl
  size := by simp [entering, Heap.addMap]
  maps place apart := by
    have other : place ≠ world.state.heap.maps.size := beq_eq_false_iff_ne.mp apart
    change (world.state.heap.addMap right).2.entries place = (world.state.heap.addMap left).2.entries place
    rw [Heap.entries_push, Heap.entries_push, if_neg other, if_neg other]
  scopes place apart := by
    obtain rfl : place = world.state.heap.maps.size := beq_iff_eq.mp apart
    change (entering world dialect knowable left bound early late).stage.Alike true
      ((world.state.heap.addMap left).2.entries _) ((world.state.heap.addMap right).2.entries _)
    rw [Heap.entries_push, Heap.entries_push, if_pos rfl, if_pos rfl]
    refine ⟨fun name shares => ?_, fun name held shares found => ?_, fun _ => rfl, False.elim⟩
    · simp only [Footing.move_value, Option.map_id']
      exact others name (shares rfl)
    · obtain ⟨entry, member, rfl⟩ := mem_of_named found
      exact Footing.knows_of_spares (entering_spares whole (inside entry member)) _
  dialects := rfl
  definitions := rfl
  seed := rfl
  closures := rfl

/-- What both calls have left agrees. -/
theorem entering_agrees (whole : world.compiled.Whole) {term other : Term}
    {depth depthTwo context : Nat} {outcome : Except Failure Value} {one two : Recursion.World}
    {later : (entering world dialect knowable left bound early late).mirror.Stage}
    (arrives : (entering world dialect knowable left bound early late).Arrives outcome one two later)
    (cameOne : Recursion.evaluate depth dialect term world.state.heap.maps.size
      (entering world dialect knowable left bound early late).world = some (outcome, one))
    (cameTwo : Recursion.evaluate depthTwo dialect other world.state.heap.maps.size
      { world with state := { world.state with heap := (world.state.heap.addMap right).2 } } =
        some (outcome, two))
    (inside : context < world.compiled.heap.maps.size) :
    one.compiled.Agrees context outcome two.compiled := by
  have spares : (entering world dialect knowable left bound early late).Spares (.map context) := by
    refine entering_spares whole ?_
    rintro place ⟨⟩
    exact Heap.map_mem_places_iff.mpr inside
  refine ⟨?_, fun name held found => arrives.shares ?_, fun value same =>
    arrives.shares (arrives.knows value same), arrives.signatures ?_⟩
  · have same := arrives.mirrors.heaps.maps context spares
    rw [Footing.move_entries] at same
    rwa [show (entering world dialect knowable left bound early late).mirror.moves.maps.place context =
      context from Shift.place_still ..] at same
  · obtain ⟨entry, member, rfl⟩ := mem_of_named found
    exact (arrives.mirrors.heaps.entries context spares entry member).2
  · intro place function found
    refine ⟨Machine.function?_lasts found (Recursion.perform_compiled cameOne), ?_⟩
    have came := Recursion.perform_compiled cameTwo
    exact Machine.function?_lasts (by exact found) came

end

open Machine in
/-- Functions that differ at most in their bodies, of which the first comes to what the second does wherever
a parameter is known: calls of both agree if the second is given what is known. -/
theorem calls_agree {world : Recursion.World} {options : Options} {known : List Options}
    {serials : List Nat} {dialect scope place other : Nat} {word name nameTwo : Text} {value : Value}
    {parameters : List Text} {one two : Term} {arguments : List Value} (whole : world.compiled.Whole)
    (orderly : world.compiled.Orderly) (registers : world.compiled.Registers known serials)
    (created : known[dialect]? = some options) (knowable : Knowable options [(.text word, value)])
    (found : world.compiled.heap.function? place =
      some ⟨name, parameters.map .text, .suspended one.code, dialect, scope⟩)
    (foundTwo : world.compiled.heap.function? other =
      some ⟨nameTwo, parameters.map .text, .suspended two.code, dialect, scope⟩)
    (inside : word ∈ parameters) (covered : parameters.length ≤ arguments.length)
    (has : ∀ argument ∈ arguments, world.compiled.heap.Has argument)
    (twins : ∀ {left right : Entries} {bound : named right word = some value} {early late : Prop},
      (entering world dialect knowable left bound early late).mirror.Twins true one two)
    (outcome : Except Failure Value) :
    (∀ after, Calls (.defined other) (fixed word value parameters arguments) world.compiled outcome after →
      ∃ counterpart, Calls (.defined place) arguments world.compiled outcome counterpart ∧
        ∀ context < world.compiled.heap.maps.size, counterpart.Agrees context outcome after) ∧
    ∀ after, Calls (.defined place) arguments world.compiled outcome after →
      ∃ counterpart, Calls (.defined other) (fixed word value parameters arguments) world.compiled outcome
          counterpart ∧
        ∀ context < world.compiled.heap.maps.size, after.Agrees context outcome counterpart := by
  obtain ⟨entries, laid, overlaid, overlaidTwo, others, bound⟩ :=
    @overlay_fixed world.compiled.heap word value parameters arguments (world.compiled.heap.entries scope) _
      (fun _ _ => rfl) (.inr ⟨inside, covered⟩)
  have held (entry : Value × Value) (member : entry ∈ entries) : world.compiled.heap.Has entry.2 :=
    (mem_overlay overlaid member).elim (has _) fun old => (whole.entries _ _ old).2
  have ends (early late : Prop) (spare : Nat) (enough : late ∨ 1 ≤ spare) (none : early ∨ spare = 0)
      (depth : Nat) := Footing.ends_run (entering_ready whole orderly registers created)
    (entering_beside others whole held) enough none
    (beq_self_eq_true world.state.heap.maps.size) (@twins entries laid bound early late) depth
  have call := perform_call found rfl overlaid
  have callTwo := perform_call foundTwo rfl overlaidTwo
  constructor
  · rintro after ⟨depth, came⟩
    cases depth with
    | zero => cases came
    | succ depth =>
        rw [callTwo] at came
        obtain ⟨later, ran, rfl⟩ := @Recursion.perform_of_compiled _ (.run dialect (.whole two) _)
          { world with state := { world.state with heap := (world.state.heap.addMap laid).2 } } _ _ came
        obtain ⟨one, stage, again, arrives⟩ := Footing.arrives_right
          (ends False True 0 (.inl trivial) (.inr rfl) depth) id ran
        refine ⟨one.compiled, ⟨depth + 1, (call depth).trans (Recursion.perform_compiled again)⟩,
          fun context inside => ?_⟩
        exact entering_agrees whole arrives again ran inside
  · rintro after ⟨depth, came⟩
    cases depth with
    | zero => cases came
    | succ depth =>
        rw [call] at came
        obtain ⟨later, ran, rfl⟩ := @Recursion.perform_of_compiled _ (.run dialect (.whole one) _)
          { world with state := { world.state with heap := (world.state.heap.addMap entries).2 } } _ _ came
        obtain ⟨two, stage, again, arrives⟩ := Footing.arrives_left
          (ends True False 1 (.inr (Nat.le_refl 1)) (.inl trivial) depth) id ran
        refine ⟨two.compiled, ⟨depth + 2, (callTwo (depth + 1)).trans (Recursion.perform_compiled again)⟩,
          fun context inside => ?_⟩
        exact entering_agrees whole arrives ran again inside

end Formula
