import Formula.Lowering
import Formula.Program.Rendering
import Formula.Proofs.Discipline

/-!
What disciplined programs are translated to: the renderer has a text for each, and lowering refuses
them only for what arrays do not know.
-/

namespace Formula

theorem length_take {demands : List Demand} {stack lower : List Shape}
    (taken : take demands stack = some lower) : stack.length = demands.length + lower.length := by
  induction demands generalizing stack with
  | nil =>
      cases taken
      simp
  | cons demand demands ih =>
      cases stack with
      | nil => cases taken
      | cons shape stack =>
          simp only [take] at taken
          split at taken
          · simp only [List.length_cons, ih taken]
            omega
          · cases taken

namespace Rendering

theorem pop_bind {parts : Parts} (enough : 1 ≤ parts.length) :
    ∃ part rest, rest.length + 1 = parts.length ∧
      ∀ next : Text × Parts → Except Failure Parts, (pop parts >>= next) = next (part, rest) := by
  cases parts with
  | nil => simp at enough
  | cons part rest => exact ⟨part, rest, rfl, fun _ => rfl⟩

theorem length_takeParts {count : Int} {parts : Parts} (counts : 0 ≤ count)
    (enough : count.toNat ≤ parts.length) :
    (takeParts count parts).2.length + count.toNat = parts.length := by
  have fits : count ≤ parts.length := by omega
  simp only [takeParts, available, if_pos fits, List.length_drop]
  omega

variable {heap : Heap}

/-- An instruction that has its operands is rendered, and leaves as many texts as operands at least. -/
theorem renders_instruction {instruction : Instruction} (sound : instruction.sound = true)
    (inner : ∀ part, instruction = .nested part → ∃ text, instructions heap part [] = .ok text)
    {stack lower : List Shape} {parts : Parts}
    (taken : take instruction.demands stack = some lower) (enough : stack.length ≤ parts.length) :
    ∃ after, Rendering.instruction heap instruction parts = .ok after ∧
      (instruction.yields ++ lower).length ≤ after.length := by
  have length := length_take taken
  rw [instruction.length_demands] at length
  rw [List.length_append, instruction.length_yields]
  cases instruction with
  | suspended program => simp [Instruction.sound] at sound
  | literal value | name word | target word | discard =>
      refine ⟨_, rfl, ?_⟩
      simp only [Instruction.taken, Instruction.left, List.length_cons] at length ⊢
      omega
  | unary symbol | member word =>
      simp only [Instruction.taken, Instruction.left] at length ⊢
      obtain ⟨part, rest, count, popped⟩ := @pop_bind parts (by omega)
      refine ⟨_, by rw [Rendering.instruction, popped]; rfl, ?_⟩
      rw [List.length_cons]
      omega
  | binary symbol =>
      simp only [Instruction.taken, Instruction.left] at length ⊢
      obtain ⟨right, rest, count, popped⟩ := @pop_bind parts (by omega)
      obtain ⟨left, under, countUnder, poppedUnder⟩ := @pop_bind rest (by omega)
      refine ⟨_, by rw [Rendering.instruction, popped]; exact poppedUnder _, ?_⟩
      rw [List.length_cons]
      omega
  | ternary symbol =>
      simp only [Instruction.taken, Instruction.left] at length ⊢
      obtain ⟨third, rest, count, popped⟩ := @pop_bind parts (by omega)
      obtain ⟨second, under, countUnder, poppedUnder⟩ := @pop_bind rest (by omega)
      obtain ⟨first, base, countBase, poppedBase⟩ := @pop_bind under (by omega)
      obtain ⟨text, built⟩ : ∃ text, ternary symbol first second third = .ok text := by
        simp only [Instruction.sound, Bool.or_eq_true, decide_eq_true_eq] at sound
        rcases sound with rfl | rfl
        · exact ⟨_, rfl⟩
        · exact ⟨_, rfl⟩
      have rendered : Rendering.instruction heap (.ternary symbol) parts = .ok (text :: base) := by
        rw [Rendering.instruction, popped]
        refine (poppedUnder _).trans ((poppedBase _).trans ?_)
        simp only [built]
        rfl
      refine ⟨_, rendered, ?_⟩
      rw [List.length_cons]
      omega
  | call count =>
      have counts : 0 ≤ count := of_decide_eq_true sound
      simp only [Instruction.taken, Instruction.left] at length ⊢
      have split := @length_takeParts count parts counts (by omega)
      obtain ⟨callee, rest, single, popped⟩ := @pop_bind (takeParts count parts).2 (by omega)
      refine ⟨_, by rw [Rendering.instruction]; exact popped _, ?_⟩
      rw [List.length_cons]
      omega
  | define count =>
      have counts : 0 ≤ count := of_decide_eq_true sound
      simp only [Instruction.taken, Instruction.left] at length ⊢
      obtain ⟨body, rest, single, popped⟩ := @pop_bind parts (by omega)
      have split := @length_takeParts count rest counts (by omega)
      obtain ⟨name, under, last, poppedName⟩ := @pop_bind (takeParts count rest).2 (by omega)
      refine ⟨_, by rw [Rendering.instruction, popped]; exact poppedName _, ?_⟩
      rw [List.length_cons]
      omega
  | nested part =>
      obtain ⟨text, rendered⟩ := inner part rfl
      simp only [Instruction.taken, Instruction.left] at length ⊢
      refine ⟨_, by rw [Rendering.instruction, rendered]; rfl, ?_⟩
      rw [List.length_cons]
      omega
  | array count =>
      have counts : 0 ≤ count := of_decide_eq_true sound
      simp only [Instruction.taken, Instruction.left] at length ⊢
      have split := @length_takeParts count parts counts (by omega)
      refine ⟨_, rfl, ?_⟩
      change _ ≤ (takeParts count parts).2.length + 1
      omega

theorem renders (program : List Instruction) (sound : soundAll program = true)
    {stack result : List Shape} {parts : Parts} (found : scan program stack = some result)
    (enough : stack.length ≤ parts.length) :
    ∃ after, instructions heap program parts = .ok after := by
  cases program with
  | nil => exact ⟨parts, rfl⟩
  | cons first rest =>
      simp only [soundAll, Bool.and_eq_true] at sound
      simp only [scan] at found
      cases taken : take first.demands stack with
      | none => simp [taken] at found
      | some lower =>
          rw [taken] at found
          have inner (part : Program) (same : first = .nested part) :
              ∃ text, instructions heap part [] = .ok text := by
            subst same
            simp only [Instruction.sound, Bool.and_eq_true, settles_iff] at sound
            obtain ⟨⟨⟨shape, settled, -⟩, soundPart⟩, -⟩ := sound
            exact renders part soundPart settled (Nat.zero_le _)
          obtain ⟨middle, rendered, still⟩ := renders_instruction sound.1 inner taken enough
          obtain ⟨after, finished⟩ := renders rest sound.2 found still
          exact ⟨after, by rw [instructions, rendered]; exact finished⟩

end Rendering

namespace Lowering

variable {α β : Type} {post : α → Prop} {final : β → Prop}

/-- A computation that refuses only what arrays do not know. -/
def Refuses (post : α → Prop) (build : Build α) : Prop :=
  ∀ nodes, match build nodes with
    | .ok (result, _) => post result
    | .error failure => ∃ cause, failure = .unsupported cause ∧ cause ≠ .valueCount

theorem refuses_pure {result : α} (holds : post result) : Refuses post (pure result) :=
  fun _ => holds

theorem refuses_unsupported {cause : UnsupportedCause} (other : cause ≠ .valueCount) :
    Refuses post (unsupported cause) :=
  fun _ => ⟨cause, rfl, other⟩

theorem refuses_refused {cause : UnsupportedCause} (other : cause ≠ .valueCount)
    (next : α → Build β) : Refuses final (unsupported cause >>= next) :=
  fun _ => ⟨cause, rfl, other⟩

theorem refuses_bind {first : Build α} {next : α → Build β} (holds : Refuses post first)
    (follows : ∀ result, post result → Refuses final (next result)) :
    Refuses final (first >>= next) := by
  intro nodes
  change match (first nodes >>= fun outcome => next outcome.1 outcome.2) with
    | .ok (result, _) => final result
    | .error failure => ∃ cause, failure = .unsupported cause ∧ cause ≠ .valueCount
  have given := holds nodes
  cases came : first nodes with
  | error failure =>
      rw [came] at given
      exact given
  | ok outcome =>
      rw [came] at given
      exact follows outcome.1 given outcome.2

theorem refuses_weaken {weaker : α → Prop} {build : Build α} (holds : Refuses post build)
    (implies : ∀ result, post result → weaker result) : Refuses weaker build := by
  intro nodes
  have given := holds nodes
  cases came : build nodes with
  | error failure =>
      rw [came] at given
      exact given
  | ok outcome =>
      rw [came] at given
      exact implies outcome.1 given

theorem share_apply (item : Node) (nodes : Array Node) :
    share item nodes =
      match nodes.findIdx? item.merges with
      | some position => .ok (position, nodes)
      | none => .ok (nodes.size, nodes.push item) := by
  change (match nodes.findIdx? item.merges with
    | some position => _
    | none => _ : Build Nat) nodes = _
  cases nodes.findIdx? item.merges <;> rfl

theorem refuses_share (item : Node) : Refuses (fun _ => True) (share item) := by
  intro nodes
  rw [share_apply]
  cases nodes.findIdx? item.merges <;> trivial

theorem refuses_pop {stack : Stack} (enough : 1 ≤ stack.length) :
    Refuses (fun popped => popped.2.length + 1 = stack.length) (pop stack) := by
  cases stack with
  | nil => simp at enough
  | cons top rest => exact refuses_pure rfl

theorem refuses_node (place : Text) (entry : Entry) : Refuses (fun _ => True) (node place entry) := by
  cases entry with
  | node position => exact refuses_pure trivial
  | function name => exact refuses_unsupported (by simp)

theorem refuses_popNode (place : Text) {stack : Stack} (enough : 1 ≤ stack.length) :
    Refuses (fun popped => popped.2.length + 1 = stack.length) (popNode place stack) := by
  refine refuses_bind (refuses_pop enough) fun popped count => ?_
  exact refuses_bind (refuses_node place popped.1) fun _ _ => refuses_pure count

theorem refuses_popNodes (place : Text) (count : Nat) {stack : Stack} (taken : List Nat)
    (enough : count ≤ stack.length) :
    Refuses (fun popped => popped.2.length + count = stack.length)
      (popNodes place count stack taken) := by
  induction count generalizing stack taken with
  | zero => exact refuses_pure rfl
  | succ count ih =>
      refine refuses_bind (refuses_popNode place (by omega)) fun popped one => ?_
      refine refuses_weaken (ih (popped.1 :: taken) (by omega)) fun others rest => ?_
      omega

theorem refuses_pushed {build : Build Nat} {stack : Stack} {size : Nat}
    (holds : Refuses (fun _ => True) build) (length : stack.length + 1 = size) :
    Refuses (fun after => after.length = size) (do return .node (← build) :: stack) :=
  refuses_bind holds fun _ _ => refuses_pure length

variable {heap : Heap} {arguments : List Text} {functions : Table}

/-- An instruction that has its operands is lowered, unless arrays do not know it. -/
theorem refuses_instruction {instruction : Instruction}
    (inner : ∀ part, instruction = .nested part →
      Refuses (fun _ => True) (lowerProgram heap arguments functions [] part))
    {stack : Stack} (enough : instruction.taken ≤ stack.length) :
    Refuses (fun after => after.length + instruction.taken = stack.length + instruction.left)
      (lowerInstruction heap arguments functions stack instruction) := by
  cases instruction with
  | literal value =>
      conv => arg 2; whnf
      split
      · exact refuses_pushed (refuses_share _) rfl
      · exact refuses_unsupported (by simp)
  | name name =>
      change Refuses _ (if name ∈ arguments then _
        else if name ∈ arrayFunctions ∧ functions.holds name then _ else _)
      split
      · exact refuses_pushed (refuses_share _) rfl
      · split
        · exact refuses_pure rfl
        · exact refuses_unsupported (by simp)
  | unary symbol =>
      simp only [Instruction.taken, Instruction.left] at enough ⊢
      change Refuses _ (if symbol ∈ unaryArrayOperators then _ else _)
      split
      · refine refuses_bind (refuses_popNode symbol enough) fun operand one => ?_
        exact refuses_weaken (refuses_pushed (refuses_share _) rfl) fun after length => by omega
      · exact refuses_refused (by simp) _
  | binary symbol =>
      simp only [Instruction.taken, Instruction.left] at enough ⊢
      change Refuses _ (if symbol ∈ binaryArrayOperators then _ else _)
      split
      · refine refuses_bind (refuses_popNode symbol (by omega)) fun right one => ?_
        refine refuses_bind (refuses_popNode symbol (by omega)) fun left two => ?_
        exact refuses_weaken (refuses_pushed (refuses_share _) rfl) fun after length => by omega
      · exact refuses_refused (by simp) _
  | ternary symbol =>
      simp only [Instruction.taken, Instruction.left] at enough ⊢
      change Refuses _ (if symbol = Text.ofString "?" then _ else _)
      split
      · refine refuses_bind (refuses_popNode symbol (by omega)) fun third one => ?_
        refine refuses_bind (refuses_popNode symbol (by omega)) fun second two => ?_
        refine refuses_bind (refuses_popNode symbol (by omega)) fun first three => ?_
        exact refuses_weaken (refuses_pushed (refuses_share _) rfl) fun after length => by omega
      · exact refuses_refused (by simp) _
  | call count =>
      simp only [Instruction.taken, Instruction.left] at enough ⊢
      refine refuses_bind (refuses_popNodes _ count.toNat [] (by omega)) fun inputs many => ?_
      refine refuses_bind (refuses_pop (by omega)) fun popped one => ?_
      obtain ⟨callee, rest⟩ := popped
      cases callee with
      | function name =>
          refine refuses_weaken (refuses_pushed (refuses_share _) rfl) fun after length => ?_
          simp only at one
          omega
      | node position => exact refuses_unsupported (by simp)
  | array count =>
      simp only [Instruction.taken, Instruction.left] at enough ⊢
      refine refuses_bind (refuses_popNodes _ count.toNat [] enough) fun inputs many => ?_
      exact refuses_weaken (refuses_pushed (refuses_share _) rfl) fun after length => by omega
  | nested part => exact refuses_pushed (inner part rfl) rfl
  | discard =>
      refine refuses_bind (refuses_pop enough) fun popped count => refuses_pure ?_
      exact count
  | target name => exact refuses_unsupported (by simp)
  | define count => exact refuses_unsupported (by simp)
  | member name => exact refuses_unsupported (by simp)
  | suspended part => exact refuses_unsupported (by simp)

/-- A sound program that comes to one operand is lowered, unless arrays do not know it. -/
theorem refuses_program (program : List Instruction) (sound : soundAll program = true)
    {shapes : List Shape} {shape : Shape} (found : scan program shapes = some [shape])
    {stack : Stack} (length : stack.length = shapes.length) :
    Refuses (fun _ => True) (lowerProgram heap arguments functions stack program) := by
  cases program with
  | nil =>
      cases found
      obtain ⟨entry, rfl⟩ := List.length_eq_one_iff.mp length
      exact refuses_node _ entry
  | cons first rest =>
      simp only [soundAll, Bool.and_eq_true] at sound
      simp only [scan] at found
      cases taken : take first.demands shapes with
      | none => simp [taken] at found
      | some lower =>
          rw [taken] at found
          have sizes := length_take taken
          rw [first.length_demands] at sizes
          have inner (part : Program) (same : first = .nested part) :
              Refuses (fun _ => True) (lowerProgram heap arguments functions [] part) := by
            subst same
            simp only [Instruction.sound, Bool.and_eq_true, settles_iff] at sound
            obtain ⟨⟨⟨last, settled, -⟩, soundPart⟩, -⟩ := sound
            exact refuses_program part soundPart settled rfl
          refine refuses_bind (refuses_instruction inner (by omega)) fun after sized => ?_
          refine refuses_program rest sound.2 found ?_
          rw [List.length_append, first.length_yields]
          omega

end Lowering

end Formula
