import Formula.Proofs.Circulation
import Formula.Proofs.Coding
import Formula.Proofs.Contents
import Formula.Proofs.Knowledge

/-!
One pass of simplification is enough. In what it leaves, no literals stand before an operator or a member
step that could be worked out, so that a second pass finds nothing to do and calls nothing.
-/

namespace Formula

/-- Whether a value, if it is a mapping or an object, has the same entries on two heaps. -/
def Value.Stays (value : Value) (before after : Heap) : Prop :=
  ∀ place, value = .map place ∨ value = .object place → after.entries place = before.entries place

namespace Value.Stays

variable {value : Value} {first second third : Heap}

theorem refl (value : Value) (heap : Heap) : value.Stays heap heap := fun _ _ => rfl

theorem trans (one : value.Stays first second) (two : value.Stays second third) :
    value.Stays first third :=
  fun place held => (two place held).trans (one place held)

theorem member (stays : value.Stays first second) (word : Text) :
    second.member value word = first.member value word := by
  cases value with
  | map place | object place =>
      have same := stays place (by simp)
      simp only [Heap.member, Heap.lookup_text, same]
  | _ => rfl

end Value.Stays

/-- Whether a member of a value is callable, as methods are. -/
def Heap.HasCallable (heap : Heap) (object : Value) (word : Text) : Prop :=
  match heap.member object word with
  | .method => True
  | .value value => value.isCallable = true

namespace Simplification

theorem known?_eq (values : Entries) (heap : Heap) (word : Text) :
    known? values heap word = (named values word).filter (!·.isCallable) := by
  rw [known?, Heap.lookup_text]

/-- What keeps an instruction from being folded with the literals before it, the latest first. -/
def Stops (heap : Heap) (values : Entries) (pending : List Value) : Instruction → Prop
  | .literal _ | .nested _ => False
  | .name word => known? values heap word = none
  | .unary _ => pending = []
  | .binary _ => pending.length < 2
  | .ternary _ => pending.length < 3
  | .member word => ∀ object, pending.head? = some object →
    Text.isReserved word = false ∧ heap.HasCallable object word
  | _ => True

/-- Programs in which nothing can be folded, after some literals. -/
inductive Fixed (heap : Heap) (values : Entries) : List Value → Program → Prop
  | nil (pending : List Value) : Fixed heap values pending []
  | literal {value : Value} {pending : List Value} {rest : Program}
      (after : Fixed heap values (value :: pending) rest) :
      Fixed heap values pending (.literal value :: rest)
  | nested {pending : List Value} {part rest : Program} (inner : Fixed heap values [] part)
      (after : Fixed heap values [] rest) : Fixed heap values pending (.nested part :: rest)
  | stopped {pending : List Value} {instruction : Instruction} {rest : Program}
      (stops : Stops heap values pending instruction) (after : Fixed heap values [] rest) :
      Fixed heap values pending (instruction :: rest)

variable {perform : Machine.Perform} {dialect : Nat} {values : Entries} {pending : List Value}
  {program : Program} {state : State}

/-- An instruction that is kept from being folded stays where it is, and nothing happens. -/
theorem simplifyStep_stopped {instruction : Instruction}
    (stops : Stops state.heap values pending instruction) :
    simplifyStep perform dialect values pending instruction state =
      some (.ok (flushed pending ++ [instruction], []), state) := by
  cases instruction with
  | literal value => cases stops
  | nested part => cases stops
  | name word =>
      have unknown : known? values state.heap word = none := stops
      simp only [simplifyStep, Eval.get_bind_apply, unknown, Eval.pure_apply]
  | unary symbol =>
      obtain rfl : pending = [] := stops
      rfl
  | binary symbol =>
      rcases pending with _ | ⟨right, _ | ⟨left, lower⟩⟩
      · rfl
      · rfl
      · have few : lower.length + 1 + 1 < 2 := stops
        omega
  | ternary symbol =>
      rcases pending with _ | ⟨third, _ | ⟨second, _ | ⟨first, lower⟩⟩⟩
      · rfl
      · rfl
      · rfl
      · have few : lower.length + 1 + 1 + 1 < 3 := stops
        omega
  | member word =>
      cases pending with
      | nil => rfl
      | cons object pending =>
          obtain ⟨proper, callable⟩ := stops object rfl
          simp only [simplifyStep, proper, Bool.false_eq_true, if_false, Eval.get_bind_apply]
          unfold Heap.HasCallable at callable
          cases found : state.heap.member object word with
          | method => rfl
          | value value =>
              rw [found] at callable
              simp only [callable, if_true, Eval.pure_apply]
  | _ => rfl

/-- A pass over a program in which nothing can be folded. -/
theorem simplifyFrom_fixed (fixed : Fixed state.heap values pending program) :
    simplifyFrom perform dialect values pending program state =
      some (.ok (flushed pending ++ program), state) := by
  induction fixed with
  | nil pending => simp [simplifyFrom]
  | literal after ih =>
      simp only [simplifyFrom, simplifyStep, Eval.bind_apply, ih, Eval.pure_apply]
      simp [flushed]
  | nested inner after ihInner ih =>
      simp only [simplifyFrom, simplifyStep, Eval.bind_apply, ihInner, ih, Eval.pure_apply]
      simp [flushed]
  | stopped stops after ih =>
      simp only [simplifyFrom, Eval.bind_apply, simplifyStep_stopped stops, ih, Eval.pure_apply]
      simp [flushed]

theorem Stops.move {before after : Heap} {others : Entries} {instruction : Instruction}
    (stops : Stops before values pending instruction)
    (names : ∀ word, known? values before word = none → known? others after word = none)
    (stays : ∀ value ∈ pending, value.Stays before after) : Stops after others pending instruction := by
  cases instruction with
  | name word => exact names word stops
  | member word =>
      intro object first
      obtain ⟨proper, callable⟩ := stops object first
      have same := (stays object (List.mem_of_mem_head? first)).member word
      refine ⟨proper, ?_⟩
      rwa [Heap.HasCallable, same]
  | _ => exact stops

/-- Nothing can be folded either with fewer values, on a heap where the literals have the same entries. -/
theorem Fixed.move {before after : Heap} {others : Entries} (fixed : Fixed before values pending program)
    (names : ∀ word, known? values before word = none → known? others after word = none)
    (stays : ∀ value ∈ pending, value.Stays before after)
    (listed : ∀ value, .literal value ∈ Program.contents program → value.Stays before after) :
    Fixed after others pending program := by
  induction fixed with
  | nil pending => exact .nil pending
  | literal rest ih =>
      refine .literal (ih ?_ ?_)
      · intro value member
        rcases List.mem_cons.mp member with rfl | member
        · exact listed value List.mem_cons_self
        · exact stays value member
      · intro value member
        exact listed value (List.mem_cons_of_mem _ member)
  | nested inner rest ihInner ih =>
      refine .nested (ihInner nofun ?_) (ih nofun ?_)
      · intro value member
        exact listed value (List.mem_append_left _ member)
      · intro value member
        exact listed value (List.mem_append_right _ member)
  | stopped stops rest ih =>
      refine .stopped (stops.move names stays) (ih nofun ?_)
      intro value member
      exact listed value (List.mem_append_right _ member)

/-- Literals in front of a program stand before it as those that are pending do. -/
theorem fixed_flushed {heap : Heap} {literals lower : List Value} {rest : Program} :
    Fixed heap values lower (flushed literals ++ rest) ↔ Fixed heap values (literals ++ lower) rest := by
  induction literals generalizing rest with
  | nil => rfl
  | cons value literals ih =>
      have moved : flushed (value :: literals) ++ rest = flushed literals ++ .literal value :: rest := by
        simp [flushed]
      rw [moved, ih]
      constructor
      · intro fixed
        cases fixed with
        | literal after => exact after
        | stopped stops after => cases stops
      · exact .literal

theorem mem_flushed {value : Value} (member : value ∈ pending) :
    .literal value ∈ Program.contents (flushed pending) := by
  induction pending with
  | nil => cases member
  | cons first pending ih =>
      have last : flushed (first :: pending) = flushed pending ++ [.literal first] := by simp [flushed]
      rw [last, Program.contents_append, List.mem_append]
      rcases List.mem_cons.mp member with rfl | member
      · exact .inr List.mem_cons_self
      · exact .inl (ih member)

/-- What stands later in a program stands after some literals of its own. -/
theorem Fixed.later {heap : Heap} {before rest : Program}
    (fixed : Fixed heap values pending (before ++ rest)) : ∃ literals, Fixed heap values literals rest := by
  induction before generalizing pending with
  | nil => exact ⟨pending, fixed⟩
  | cons instruction before ih =>
      cases fixed with
      | literal after => exact ih after
      | nested inner after => exact ih after
      | stopped stops after => exact ih after

end Simplification

/-- A program, or one that is nested in it at any depth. -/
inductive Program.Within : Program → Program → Prop
  | self (program : Program) : Within program program
  | nested {part inner program : Program} (member : .nested inner ∈ program)
      (within : Within part inner) : Within part program

/-- Programs in which no instruction can be worked out with the literals right before it, and no name has
a value that is put in its place. -/
structure Program.Folded (heap : Heap) (values : Entries) (program : Program) : Prop where
  unary : ∀ operand symbol, ¬ [.literal operand, .unary symbol] <:+: program
  binary : ∀ left right symbol, ¬ [.literal left, .literal right, .binary symbol] <:+: program
  ternary : ∀ first second third symbol,
    ¬ [.literal first, .literal second, .literal third, .ternary symbol] <:+: program
  name : ∀ word value, .name word ∈ program → named values word = some value → value.isCallable = true
  member : ∀ object word, [.literal object, .member word] <:+: program → heap.HasCallable object word

namespace Simplification

variable {perform : Machine.Perform} {dialect : Nat} {heap : Heap} {values : Entries}
  {pending : List Value} {program : Program}

/-- What stands in a program right after some literals is not to be folded with them. -/
theorem Fixed.infixed (fixed : Fixed heap values pending program) (literals : List Value)
    {instruction : Instruction} (inside : flushed literals ++ [instruction] <:+: program) :
    ∃ lower after, Fixed heap values (literals ++ lower) (instruction :: after) := by
  obtain ⟨before, after, rfl⟩ := inside
  rw [List.append_assoc] at fixed
  obtain ⟨lower, fixed⟩ := fixed.later
  rw [List.append_assoc, fixed_flushed] at fixed
  exact ⟨lower, after, fixed⟩

theorem Fixed.folded (fixed : Fixed heap values pending program) : program.Folded heap values where
  unary operand symbol inside := by
    obtain ⟨lower, after, fixed⟩ := fixed.infixed [operand] inside
    cases fixed with
    | stopped stops after => cases stops
  binary left right symbol inside := by
    obtain ⟨lower, after, fixed⟩ := fixed.infixed [right, left] inside
    cases fixed with
    | stopped stops after =>
        have few : (right :: left :: lower).length < 2 := stops
        rw [List.length_cons, List.length_cons] at few
        omega
  ternary first second third symbol inside := by
    obtain ⟨lower, after, fixed⟩ := fixed.infixed [third, second, first] inside
    cases fixed with
    | stopped stops after =>
        have few : (third :: second :: first :: lower).length < 3 := stops
        rw [List.length_cons, List.length_cons, List.length_cons] at few
        omega
  name word value member found := by
    obtain ⟨before, after, rfl⟩ := List.append_of_mem member
    obtain ⟨literals, fixed⟩ := fixed.later
    cases fixed with
    | stopped stops after =>
        have unknown : known? values heap word = none := stops
        rw [known?_eq, found] at unknown
        simpa [Option.filter] using unknown
  member object word inside := by
    obtain ⟨lower, after, fixed⟩ := fixed.infixed [object] inside
    cases fixed with
    | stopped stops after => exact (stops object rfl).2

/-- The programs within a program that is fixed are fixed. -/
theorem Fixed.within {part : Program} (within : part.Within program)
    (fixed : Fixed heap values [] program) : Fixed heap values [] part := by
  induction within with
  | self => exact fixed
  | nested member within ih =>
      obtain ⟨before, after, rfl⟩ := List.append_of_mem member
      obtain ⟨literals, fixed⟩ := fixed.later
      cases fixed with
      | nested inner after => exact ih inner
      | stopped stops after => cases stops

/-- Whether no assignment in a program stands right after known values, of which some are there. -/
def Defers (count : Nat) (program : Program) : Prop :=
  (program.Every fun instruction =>
    instruction ≠ .binary (Text.ofString "=") ∧ instruction ≠ .ternary (Text.ofString "=")) ∨
  soundAll program = true ∧
    ∃ lower after, scan program (List.replicate count .value ++ lower) = some after

namespace Defers

variable {count : Nat} {instruction : Instruction} {rest : Program}

theorem binary {symbol : Text} (defers : Defers (count + 1) (.binary symbol :: rest)) :
    symbol ≠ Text.ofString "=" := by
  rintro rfl
  rcases defers with without | ⟨-, lower, after, scanned⟩
  · exact (without _ List.mem_cons_self).1 rfl
  · cases scanned

theorem ternary {symbol : Text} (defers : Defers (count + 1) (.ternary symbol :: rest)) :
    symbol ≠ Text.ofString "=" := by
  rintro rfl
  rcases defers with without | ⟨-, lower, after, scanned⟩
  · exact (without _ List.mem_cons_self).2 rfl
  · cases scanned

theorem nested {part : Program} (defers : Defers count (.nested part :: rest)) : Defers 0 part := by
  rcases defers with without | ⟨sound, -⟩
  · exact .inl fun instruction member => without instruction (List.mem_append_left _ member)
  · obtain ⟨inner, -⟩ := Bool.and_eq_true_iff.mp sound
    obtain ⟨settled, sound⟩ := Bool.and_eq_true_iff.mp inner
    obtain ⟨shape, scanned, -⟩ := settles_iff.mp settled
    exact .inr ⟨sound, [], [shape], scanned⟩

/-- After an instruction, whatever it is. -/
theorem kept (defers : Defers count (instruction :: rest)) : Defers 0 rest := by
  rcases defers with without | ⟨sound, lower, after, scanned⟩
  · exact .inl fun other member => without other (List.mem_append_right _ member)
  · obtain ⟨-, sound⟩ := Bool.and_eq_true_iff.mp sound
    simp only [scan] at scanned
    split at scanned
    · exact .inr ⟨sound, _, after, scanned⟩
    · cases scanned

/-- After an instruction that takes known values and leaves one. -/
theorem pushed (taken : Nat) {total : Nat} (defers : Defers total (instruction :: rest))
    (counted : total = taken + count) (demands : instruction.demands = List.replicate taken .operand)
    (yields : instruction.yields = [.value]) : Defers (count + 1) rest := by
  subst counted
  rcases defers with without | ⟨sound, lower, after, scanned⟩
  · exact .inl fun other member => without other (List.mem_append_right _ member)
  · obtain ⟨-, sound⟩ := Bool.and_eq_true_iff.mp sound
    have takes := Term.take_operands (List.replicate taken .value)
      (fun shape member => List.eq_of_mem_replicate member ▸ nofun) (List.replicate count .value ++ lower)
    rw [List.length_replicate] at takes
    simp only [scan, demands, List.replicate_add, List.append_assoc, takes, yields] at scanned
    exact .inr ⟨sound, lower, after, scanned⟩

end Defers

/-- A call of an operator other than `=` that came to a value. -/
inductive Applied (perform : Machine.Perform) (dialect : Nat) (state after : State) : Prop
  | unary {symbol : Text} {operand value : Value}
      (came : applyOperator perform dialect Dialect.unary symbol [operand] state = some (.ok value, after))
  | binary {symbol : Text} {left right value : Value} (other : symbol ≠ Text.ofString "=")
      (came : applyOperator perform dialect Dialect.binary symbol [left, right] state =
        some (.ok value, after))
  | ternary {symbol : Text} {first second third value : Value} (other : symbol ≠ Text.ofString "=")
      (came : applyOperator perform dialect Dialect.ternary symbol [first, second, third] state =
        some (.ok value, after))

/-- Whether the operators, in some states and in those that they lead to, leave the mappings and objects
among some values as they are. -/
def Spares (perform : Machine.Perform) (dialect : Nat) (held : Value → Prop) (states : State → Prop) : Prop :=
  ∀ {state after}, states state → Applied perform dialect state after →
    states after ∧ ∀ value, held value → value.Stays state.heap after.heap

theorem stopped_ok {instruction : Instruction} {done : Program} {later : List Value} {state after : State}
    (stops : Stops state.heap values pending instruction)
    (found : simplifyStep perform dialect values pending instruction state = some (.ok (done, later), after)) :
    done = flushed pending ++ [instruction] ∧ later = [] ∧ after = state ∧
      Stops state.heap values pending instruction := by
  rw [simplifyStep_stopped stops] at found
  cases found
  exact ⟨rfl, rfl, rfl, stops⟩

/-- A member step on a literal reads the member, unless it is callable. -/
theorem member_cases {object : Value} {word : Text} {done : Program} {later : List Value} {state after : State}
    (found : simplifyStep perform dialect values (object :: pending) (.member word) state =
      some (.ok (done, later), after)) :
    Stops state.heap values (object :: pending) (.member word) ∨
      done = [] ∧ later.length = pending.length + 1 ∧ after = state := by
  cases reserved : Text.isReserved word with
  | true =>
      simp only [simplifyStep, reserved, if_true] at found
      cases found
  | false =>
      by_cases callable : state.heap.HasCallable object word
      · left
        intro first same
        obtain rfl := Option.some.inj same
        exact ⟨reserved, callable⟩
      · right
        simp only [simplifyStep, reserved, Bool.false_eq_true, if_false, Eval.get_bind_apply] at found
        unfold Heap.HasCallable at callable
        cases member : state.heap.member object word with
        | method => exact absurd trivial (by rwa [member] at callable)
        | value value =>
            rw [member] at callable
            simp only [member, if_neg callable] at found
            cases found
            exact ⟨rfl, rfl, rfl⟩

/-- What an instruction comes to: a literal that may still be folded, or itself right after literals that it
cannot be folded with. -/
theorem simplifyStep_cases {instruction : Instruction} {rest done : Program} {later : List Value}
    {state after : State} (defers : Defers pending.length (instruction :: rest))
    (found : simplifyStep perform dialect values pending instruction state = some (.ok (done, later), after)) :
    (done = [] ∧ Defers later.length rest ∧ (after = state ∨ Applied perform dialect state after)) ∨
    (done = flushed pending ++ [instruction] ∧ later = [] ∧ after = state ∧
      Stops state.heap values pending instruction) ∨
    ∃ part inner, instruction = .nested part ∧ done = flushed pending ++ [.nested inner] ∧ later = [] ∧
      simplifyFrom perform dialect values [] part state = some (.ok inner, after) := by
  cases instruction with
  | literal value =>
      simp only [simplifyStep, Eval.pure_apply] at found
      cases found
      exact .inl ⟨rfl, defers.pushed 0 (Nat.zero_add _).symm rfl rfl, .inl rfl⟩
  | name word =>
      cases named : known? values state.heap word with
      | some value =>
          simp only [simplifyStep, Eval.get_bind_apply, named, Eval.pure_apply] at found
          cases found
          exact .inl ⟨rfl, defers.pushed 0 (Nat.zero_add _).symm rfl rfl, .inl rfl⟩
      | none => exact .inr (.inl (stopped_ok named found))
  | nested part =>
      simp only [simplifyStep] at found
      obtain ⟨inner, between, came, built⟩ := Eval.bind_eq_ok found
      cases built
      exact .inr (.inr ⟨part, inner, rfl, rfl, rfl, came⟩)
  | unary symbol =>
      cases pending with
      | nil => exact .inr (.inl (stopped_ok rfl found))
      | cons operand lower =>
          simp only [simplifyStep] at found
          obtain ⟨value, between, came, built⟩ := Eval.bind_eq_ok found
          cases built
          exact .inl ⟨rfl, defers.pushed 1 (Nat.add_comm _ 1) rfl rfl, .inr (.unary came)⟩
  | binary symbol =>
      rcases pending with _ | ⟨right, _ | ⟨left, lower⟩⟩
      · exact .inr (.inl (stopped_ok Nat.zero_lt_two found))
      · exact .inr (.inl (stopped_ok Nat.one_lt_two found))
      · have other := defers.binary
        simp only [simplifyStep] at found
        obtain ⟨value, between, came, built⟩ := Eval.bind_eq_ok found
        cases built
        refine .inl ⟨rfl, defers.pushed 2 (Nat.add_comm _ 2) ?_ rfl, .inr (.binary other came)⟩
        rw [Instruction.demands, if_neg other]
        rfl
  | ternary symbol =>
      rcases pending with _ | ⟨third, _ | ⟨second, _ | ⟨first, lower⟩⟩⟩
      · exact .inr (.inl (stopped_ok (Nat.zero_lt_succ 2) found))
      · exact .inr (.inl (stopped_ok (Nat.one_lt_succ_succ 1) found))
      · exact .inr (.inl (stopped_ok (Nat.lt_succ_self 2) found))
      · have other := defers.ternary
        have lasts : Defers (lower.length + 1) rest := by
          refine defers.pushed 3 (Nat.add_comm _ 3) ?_ rfl
          rw [Instruction.demands, if_neg other]
          rfl
        simp only [simplifyStep] at found
        split at found
        · rw [Eval.get_bind_apply] at found
          cases found
          exact .inl ⟨rfl, lasts, .inl rfl⟩
        · obtain ⟨value, between, came, built⟩ := Eval.bind_eq_ok found
          cases built
          exact .inl ⟨rfl, lasts, .inr (.ternary other came)⟩
  | member word =>
      cases pending with
      | nil =>
          have bare : Stops state.heap values [] (.member word) := by
            intro object first
            cases first
          exact .inr (.inl (stopped_ok bare found))
      | cons object lower =>
          rcases member_cases found with stops | ⟨rfl, count, rfl⟩
          · exact .inr (.inl (stopped_ok stops found))
          · have lasts := defers.pushed 1 (Nat.add_comm _ 1) rfl rfl
            exact .inl ⟨rfl, count ▸ lasts, .inl rfl⟩
  | _ => exact .inr (.inl (stopped_ok trivial found))

/-- A pass leaves a program in which nothing can be folded any more, if the operators that it calls spare
the literals that it leaves. -/
theorem fixed_from {held : Value → Prop} {states : State → Prop} {pending : List Value} {result : Program}
    {state after : State} (spares : Spares perform dialect held states) (program : List Instruction)
    (known : states state) (defers : Defers pending.length program)
    (found : simplifyFrom perform dialect values pending program state = some (.ok result, after))
    (listed : ∀ value, .literal value ∈ Program.contents result → held value) :
    states after ∧ (∀ value, held value → value.Stays state.heap after.heap) ∧
      Fixed after.heap values [] result := by
  cases program with
  | nil =>
      cases found
      refine ⟨known, fun value _ => .refl value _, ?_⟩
      have ended : Fixed state.heap values [] (flushed pending ++ []) := fixed_flushed.mpr (.nil _)
      rwa [List.append_nil] at ended
  | cons instruction rest =>
      obtain ⟨⟨done, later⟩, between, came, continued⟩ := Eval.bind_eq_ok found
      obtain ⟨others, last, finished, built⟩ := Eval.bind_eq_ok continued
      cases built
      have remaining (value : Value) (member : .literal value ∈ Program.contents others) : held value := by
        refine listed value ?_
        rw [Program.contents_append]
        exact List.mem_append_right _ member
      have kept : Defers ([] : List Value).length rest := defers.kept
      rcases simplifyStep_cases defers came with
        ⟨rfl, defers, same | applied⟩ | ⟨rfl, rfl, rfl, stops⟩ | ⟨part, inner, rfl, rfl, rfl, nested⟩
      · subst same
        exact fixed_from spares rest known defers finished remaining
      · obtain ⟨known, stays⟩ := spares known applied
        obtain ⟨known, staysLater, fixed⟩ := fixed_from spares rest known defers finished remaining
        exact ⟨known, fun value held => (stays value held).trans (staysLater value held), fixed⟩
      · obtain ⟨known, stays, fixed⟩ := fixed_from spares rest known kept finished remaining
        refine ⟨known, stays, ?_⟩
        -- The instruction stands after the literals that were pending; a member of the last one is still
        -- callable at the end, since the calls in between spare the literals.
        rw [List.append_assoc, fixed_flushed, List.append_nil]
        refine .stopped (stops.move ?_ ?_) fixed
        · intro word unknown
          rwa [known?_eq] at unknown ⊢
        · intro value member
          refine stays value (listed value ?_)
          rw [Program.contents_append, Program.contents_append]
          exact List.mem_append_left _ (List.mem_append_left _ (mem_flushed member))
      · have inside (value : Value) (member : .literal value ∈ Program.contents inner) : held value := by
          refine listed value ?_
          rw [Program.contents_append, Program.contents_append]
          refine List.mem_append_left _ (List.mem_append_right _ ?_)
          exact List.mem_append_left _ member
        have within : Defers ([] : List Value).length part := defers.nested
        obtain ⟨known, staysInner, fixedInner⟩ := fixed_from spares part known within nested inside
        obtain ⟨known, stays, fixed⟩ := fixed_from spares rest known kept finished remaining
        refine ⟨known, fun value held => (staysInner value held).trans (stays value held), ?_⟩
        rw [List.append_assoc, fixed_flushed, List.append_nil]
        refine .nested (fixedInner.move ?_ nofun ?_) fixed
        · intro word unknown
          rwa [known?_eq] at unknown ⊢
        · intro value member
          exact stays value (inside value member)

/-- The standard operators other than `=` write into no mapping. -/
theorem spares_standard (depth dialect : Nat) (held : Value → Prop) :
    Spares (Machine.perform depth) dialect held fun state => (state.dialect dialect).Operates := by
  have writes {table : Dialect → Table} {symbol : Text} {operands : List Value} {value : Value}
      {state after : State} (operates : (state.dialect dialect).Operates)
      (kind : ∀ function ∈ (table (state.dialect dialect)).map (·.2),
        function ∈ standardUnary.map (·.2) ∨ function ∈ standardBinary.map (·.2) ∨
          function ∈ standardTernary.map (·.2))
      (proper : ∀ entry ∈ table (state.dialect dialect), entry.1 = symbol → entry.2.rebinds = false)
      (came : applyOperator (Machine.perform depth) dialect table symbol operands state =
        some (.ok value, after)) :
      (after.dialect dialect).Operates ∧ ∀ value, held value → value.Stays state.heap after.heap := by
    obtain ⟨function, heap, found, applied, rfl⟩ := applyOperator_ok kind came
    have still : (Value.builtin function).rebinds = false := proper _ (Table.mem_of_get? found) rfl
    have all : state.heap.Holds fun _ => True := ⟨fun _ _ _ => trivial, fun _ _ _ => trivial⟩
    have tame : Action.Tame (fun _ => True) (fun _ => False) (fun _ => True) (function.apply operands) :=
      function.tame_apply (fun _ _ => trivial) (fun _ _ => trivial) fun rebinds => by
        rw [still] at rebinds
        cases rebinds
    obtain ⟨-, keeps⟩ := tame.keeps state.heap all _ applied
    exact ⟨operates, fun value _ place _ => keeps.entries place id⟩
  intro state after operates applied
  cases applied with
  | unary came =>
      refine writes operates ?_ ?_ came
      · rw [operates.unary]
        exact fun function member => .inl member
      · rw [operates.unary]
        exact fun entry member _ => (by decide : ∀ entry ∈ standardUnary, entry.2.rebinds = false) entry member
  | binary other came =>
      refine writes operates ?_ ?_ came
      · rw [operates.binary]
        exact fun function member => .inr (.inl member)
      · rw [operates.binary]
        rintro entry member rfl
        exact (by decide : ∀ entry ∈ standardBinary, entry.1 ≠ Text.ofString "=" → entry.2.rebinds = false)
          entry member other
  | ternary other came =>
      refine writes operates ?_ ?_ came
      · rw [operates.ternary]
        exact fun function member => .inr (.inr member)
      · rw [operates.ternary]
        rintro entry member rfl
        exact (by decide : ∀ entry ∈ standardTernary, entry.1 ≠ Text.ofString "=" → entry.2.rebinds = false)
          entry member other

end Simplification

open Simplification in
/-- One pass of simplification does all that can be done. For a program in circulation, or one without
assignments, and operators that leave the mappings and objects among the literals of the result as they
are, a second pass, with the same values or with none, gives the result back and calls nothing, whatever
the operators are by then; and in no program within the result can anything be folded. -/
theorem Program.simplify_settles {perform : Machine.Perform} {dialect : Nat} {values : Entries}
    {states : State → Prop} {program result : Program} {state after : State}
    (assigns : Circulating program ∨ program.Every fun instruction =>
      instruction ≠ .binary (Text.ofString "=") ∧ instruction ≠ .ternary (Text.ofString "="))
    (known : states state)
    (spares : Spares perform dialect (fun value => .literal value ∈ result.contents) states)
    (found : program.simplify perform dialect values state = some (.ok result, after)) :
    (∀ other otherDialect,
      result.simplify other otherDialect values after = some (.ok result, after) ∧
        result.simplify other otherDialect [] after = some (.ok result, after)) ∧
      ∀ part : Program, part.Within result → part.Folded after.heap values := by
  have defers : Defers ([] : List Value).length program := by
    refine assigns.symm.imp id fun circulating => ?_
    obtain ⟨settled, sound⟩ := Bool.and_eq_true_iff.mp circulating.disciplined
    obtain ⟨shape, scanned, -⟩ := settles_iff.mp settled
    exact ⟨sound, [], [shape], scanned⟩
  obtain ⟨-, -, fixed⟩ := fixed_from spares program known defers found fun value listed => listed
  have bare : Fixed after.heap [] [] result :=
    fixed.move (fun word _ => rfl) nofun fun value _ => .refl value after.heap
  refine ⟨fun other otherDialect => ⟨simplifyFrom_fixed fixed, simplifyFrom_fixed bare⟩, ?_⟩
  intro part within
  exact (fixed.within within).folded

namespace Program

/-- A member that is callable stays, and the number after it is not added to it. -/
theorem simplify_settles_of_member :
    ∃ term, parse (.standard {}) (Text.ofString "f(y) = y + 1 * 2; m.k + x") = .ok term ∧
      ∃ (state : State) (result : Program), result = [.nested [.target (Text.ofString "f"), .target (Text.ofString "y"),
          .nested [.name (Text.ofString "y"), .literal (.int 2), .binary (Text.ofString "+")], .define 1, .discard,
          .literal (.map 0), .member (Text.ofString "k"), .literal (.int 5), .binary (Text.ofString "+")]] ∧
        term.code.simplify (Machine.perform 2) 0
            [(.text (Text.ofString "m"), .map 0), (.text (Text.ofString "x"), .int 5)] state =
          some (.ok result, state) ∧
        ∀ other, result.simplify other 0 [] state = some (.ok result, state) := by
  obtain ⟨term, parsed, code⟩ := parse_code (by decide +kernel : (reading (.standard {})
    (Text.ofString "f(y) = y + 1 * 2; m.k + x")).comesTo [.nested [.target (Text.ofString "f"),
      .target (Text.ofString "y"), .nested [.name (Text.ofString "y"), .literal (.int 1), .literal (.int 2),
      .binary (Text.ofString "*"), .binary (Text.ofString "+")], .define 1, .discard,
      .name (Text.ofString "m"), .member (Text.ofString "k"), .name (Text.ofString "x"),
      .binary (Text.ofString "+")]] = true)
  let state : State := ⟨{ maps := #[[(.text (Text.ofString "k"), .builtin .abs)]] }, #[.standard {}], 0, 0⟩
  have simplified : term.code.simplify (Machine.perform 2) 0
      [(.text (Text.ofString "m"), .map 0), (.text (Text.ofString "x"), .int 5)] state =
        some (.ok [.nested [.target (Text.ofString "f"), .target (Text.ofString "y"),
          .nested [.name (Text.ofString "y"), .literal (.int 2), .binary (Text.ofString "+")], .define 1, .discard,
          .literal (.map 0), .member (Text.ofString "k"), .literal (.int 5), .binary (Text.ofString "+")]], state) := by
    rw [code]
    rfl
  have operates : (state.dialect 0).Operates := Dialect.operates_standard {}
  obtain ⟨again, -⟩ := simplify_settles (.inl (.parsed parsed)) operates
    (Simplification.spares_standard 2 0 _) simplified
  exact ⟨term, parsed, state, _, rfl, simplified, fun other => (again other 0).2⟩

/-- A host function that empties the first mapping when it is called with the number one. It gives its
argument back. -/
def poke : Machine.Perform
  | .call _ [.int number] => do
    let state ← get
    set (if number = 1 then { state with heap := state.heap.setEntries 0 [] } else state)
    return .int number
  | .call _ (operand :: _) => return operand
  | _ => return .null

/-- No argument is a mapping that is emptied. -/
theorem stays_poke {function value operand : Value} {operands : List Value} {state after : State}
    (came : poke (.call function operands) state = some (.ok value, after)) (member : operand ∈ operands) :
    operand.Stays state.heap after.heap := by
  match operands with
  | [.int number] =>
      obtain rfl := List.mem_singleton.mp member
      rintro place (held | held) <;> cases held
  | [.null] | [.bool _] | [.float _] | [.notANumber _] | [.text _] | [.list _] | [.tuple _] | [.map _]
  | [.object _] | [.builtin _] | [.defined _] | [.host _ _] =>
      cases came
      exact .refl operand state.heap
  | first :: _ :: _ =>
      cases first <;>
      · cases came
        exact .refl operand state.heap

/-- An operator that leaves its operands as they are may write into a mapping that the program holds
elsewhere. A member that was callable is a value then, and the second pass reads it. -/
theorem member_read_later :
    let start : State := ⟨{ maps := #[[(.text (Text.ofString "k"), .builtin .abs)]] },
      #[⟨{}, [(Text.ofString "poke", .host 0 (Text.ofString "poke"))], [], [], [], []⟩], 0, 0⟩
    (∀ table symbol operands value state after,
      Simplification.applyOperator poke 0 table symbol operands state = some (.ok value, after) →
        ∀ operand ∈ operands, operand.Stays state.heap after.heap) ∧
      ∃ after, simplify poke 0 [] [.literal (.map 0), .member (Text.ofString "k"), .discard, .literal (.int 1),
          .unary (Text.ofString "poke")] start =
            some (.ok [.literal (.map 0), .member (Text.ofString "k"), .discard, .literal (.int 1)], after) ∧
        simplify poke 0 [] [.literal (.map 0), .member (Text.ofString "k"), .discard, .literal (.int 1)] after =
          some (.ok [.literal .null, .discard, .literal (.int 1)], after) := by
  intro start
  refine ⟨?_, _, rfl, rfl⟩
  intro table symbol operands value state after came operand member
  simp only [Simplification.applyOperator, Eval.get_bind_apply] at came
  cases found : (table (state.dialect 0)).get? symbol with
  | none =>
      rw [found] at came
      cases came
  | some function =>
      rw [found] at came
      exact stays_poke came member

end Program

end Formula
