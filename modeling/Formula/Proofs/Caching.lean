import Formula.Proofs.Evaluation
import Formula.Session

/-!
The cache of graphs. A graph is kept under the text of its program, so a call that finds one gets the
graph of some program with that text: of its own, wherever texts tell programs apart.
-/

namespace Formula

namespace Table

theorem holds_iff {table : Table} {name : Text} : table.holds name = true ↔ name ∈ table.map (·.1) := by
  induction table with
  | nil => simp [holds, get?]
  | cons entry rest ih =>
      obtain ⟨key, function⟩ := entry
      simp only [holds, get?, List.lookup_cons] at ih ⊢
      split
      next same => simp [eq_of_beq same]
      next different =>
        have different : name ≠ key := by simpa using different
        simp [ih, different]

end Table

namespace Lowering

variable {heap : Heap} {arguments : List Text} {functions others : Table}

theorem lowerInstruction_names (agree : ∀ name, functions.holds name = others.holds name)
    {instruction : Instruction}
    (inner : ∀ part, instruction = .nested part →
      lowerProgram heap arguments functions [] part = lowerProgram heap arguments others [] part)
    (stack : Stack) :
    lowerInstruction heap arguments functions stack instruction =
      lowerInstruction heap arguments others stack instruction := by
  cases instruction with
  | name name =>
      change (if name ∈ arguments then _
        else if name ∈ arrayFunctions ∧ functions.holds name = true then _ else _) = _
      rw [agree]
      rfl
  | nested part =>
      change lowerProgram heap arguments functions [] part >>= _ = _
      rw [inner part rfl]
      rfl
  | _ => rfl

/-- Lowering asks for the names of the functions only. -/
theorem lowerProgram_names (agree : ∀ name, functions.holds name = others.holds name)
    (program : List Instruction) (stack : Stack) :
    lowerProgram heap arguments functions stack program =
      lowerProgram heap arguments others stack program := by
  cases program with
  | nil => rcases stack with _ | ⟨entry, _ | ⟨other, rest⟩⟩ <;> rfl
  | cons first rest =>
      have inner (part : Program) (_ : first = .nested part) :
          lowerProgram heap arguments functions [] part =
            lowerProgram heap arguments others [] part := lowerProgram_names agree part []
      simp only [lowerProgram, lowerInstruction_names agree inner, lowerProgram_names agree rest]

end Lowering

/-- A class of programs of which the text tells how they are lowered. -/
def Tells (plain : Heap → Program → Prop) : Prop :=
  ∀ heap program heapOther other text, plain heap program → plain heapOther other →
    program.render heap = .ok text → other.render heapOther = .ok text →
      ∀ functions arguments,
        program.lower heap functions arguments = other.lower heapOther functions arguments

/-- Whether a graph is what a program of a class with the text of a key is lowered to, for the arguments
and the names of functions of the key. -/
def CacheKey.Holds (plain : Heap → Program → Prop) (key : CacheKey) (graph : Graph) : Prop :=
  ∃ heap program, plain heap program ∧ program.render heap = .ok key.text ∧
    ∀ functions : Table, (∀ name, name ∈ functions.map (·.1) ↔ name ∈ key.functions) →
      program.lower heap functions key.arguments = .ok graph

def GraphCache.Sound (plain : Heap → Program → Prop) (cache : GraphCache) : Prop :=
  ∀ key graph, (key, graph) ∈ cache.entries → key.Holds plain graph

theorem Program.lower_names {heap : Heap} {functions others : Table} {arguments : List Text}
    {program : Program} (agree : ∀ name, name ∈ functions.map (·.1) ↔ name ∈ others.map (·.1)) :
    program.lower heap functions arguments = program.lower heap others arguments := by
  have same (name : Text) : functions.holds name = others.holds name := by
    rw [Bool.eq_iff_iff, Table.holds_iff, Table.holds_iff, agree]
  rw [Program.lower, Program.lower, Lowering.lowerProgram_names same]

namespace CacheKey

theorem agrees_iff {left right : CacheKey} : left.agrees right = true ↔
    left.dialect = right.dialect ∧ left.text = right.text ∧ left.arguments = right.arguments ∧
      ∀ name, name ∈ left.functions ↔ name ∈ right.functions := by
  simp only [agrees, Bool.and_eq_true, beq_iff_eq, List.all_eq_true, List.contains_iff_mem, and_assoc]
  refine and_congr_right fun _ => and_congr_right fun _ => and_congr_right fun _ => ?_
  exact ⟨fun ⟨forward, backward⟩ name => ⟨forward name, backward name⟩,
    fun same => ⟨fun name => (same name).mp, fun name => (same name).mpr⟩⟩

end CacheKey

namespace GraphCache

variable {plain : Heap → Program → Prop} {cache : GraphCache}

theorem find?_some {key : CacheKey} {graph : Graph} (found : cache.find? key = some graph) :
    ∃ kept, (kept, graph) ∈ cache.entries ∧ kept.agrees key = true := by
  obtain ⟨⟨kept, graph⟩, first, rfl⟩ := Option.map_eq_some_iff.mp found
  exact ⟨kept, List.mem_of_find?_eq_some first, by simpa using List.find?_some first⟩

/-- A graph that is found is what a program of the class with the text is lowered to. -/
theorem Sound.find? (sound : cache.Sound plain) {key : CacheKey} {graph : Graph}
    (found : cache.find? key = some graph) : key.Holds plain graph := by
  obtain ⟨kept, member, agrees⟩ := find?_some found
  obtain ⟨-, text, arguments, names⟩ := CacheKey.agrees_iff.mp agrees
  obtain ⟨heap, program, among, rendered, lowered⟩ := sound kept graph member
  refine ⟨heap, program, among, text ▸ rendered, fun functions same => ?_⟩
  exact arguments ▸ lowered functions fun name => (same name).trans (names name).symm

end GraphCache

namespace Work

variable {α β : Type}

theorem bind_apply (first : Work α) (next : α → Work β) (session : Session) :
    (first >>= next) session =
      match first session with
      | none => none
      | some (.ok value, after) => next value after
      | some (.error failure, after) => some (.error failure, after) := by
  rw [bind_run]
  rcases first session with _ | ⟨_ | value, after⟩ <;> rfl

theorem ofEval_apply (computation : Eval α) (session : Session) :
    ofEval computation session =
      (computation session.state).map fun (outcome, state) => (outcome, { session with state := state }) := by
  simp only [ofEval]
  cases computation session.state <;> rfl

end Work

namespace Expression

variable {depth : Nat} {expression : Expression} {arguments : List Text} {values : Entries}
  {session after : Session} {plain : Heap → Program → Prop}

/-- The values that are put in place of names: those of the names that are no arguments. -/
def bound (arguments : List Text) (values : Entries) : Entries :=
  values.filter fun entry => !lower.isArgument arguments entry.1

/-- What the graph of an expression is kept under. -/
def key (expression : Expression) (arguments : List Text) (text : Text) (session : Session) : CacheKey where
  dialect := expression.dialect
  text := text
  arguments := arguments
  functions := (session.state.dialect expression.dialect).functions.map (·.1)

/-- The graph of a simplified expression with some text, from the cache or added to it. -/
def fetch (expression : Expression) (arguments : List Text) (text : Text) (session : Session) :
    Except Failure Graph × Session :=
  let cache := session.cache
  let key := expression.key arguments text session
  match cache.find? key with
  | some graph => (.ok graph, { session with cache := { cache with hits := cache.hits + 1 } })
  | none =>
    let missed := { cache with misses := cache.misses + 1 }
    match expression.lowerSimplified session arguments with
    | .ok graph =>
      (.ok graph, { session with cache := { missed with entries := (key, graph) :: missed.entries } })
    | .error failure => (.error failure, { session with cache := missed })

theorem simplify_cache {known : Entries} {outcome : Except Failure Expression}
    (came : expression.simplify depth known session = some (outcome, after)) :
    after.cache = session.cache := by
  simp only [simplify, Work.bind_apply, Work.ofEval_apply] at came
  rcases ran : expression.program.simplify (Machine.perform depth) expression.dialect known
    session.state with _ | ⟨result, state⟩
  · simp [ran] at came
  · cases result <;> · rw [ran] at came; cases came; rfl

theorem render_apply : expression.render session =
    match expression.program.render session.state.heap with
    | .ok text => some (.ok text, session)
    | .error failure => some (.error failure, session) := by
  simp only [render, Work.bind_apply]
  change (match expression.program.render session.state.heap with | _ => _) = _
  cases expression.program.render session.state.heap <;> rfl

/-- A call simplifies the expression and writes it down, and then it lowers it or fetches the graph. -/
theorem lower_eq (cached : Bool) : expression.lower depth arguments values cached =
    (expression.simplify depth (bound arguments values) >>= fun simplified =>
      simplified.render >>= fun text => ExceptT.mk fun session =>
        some (if cached then simplified.fetch arguments text session
          else (simplified.lowerSimplified session arguments, session))) := by
  refine bind_congr fun simplified => bind_congr fun text => funext fun session => ?_
  cases cached with
  | false =>
      change (liftM (simplified.lowerSimplified session arguments) : Work Graph) session =
        some (simplified.lowerSimplified session arguments, session)
      cases simplified.lowerSimplified session arguments <;> rfl
  | true =>
      change (match session.cache.find? (simplified.key arguments text session) with
        | some graph => (do set _; pure graph : Work Graph)
        | none => (do
            set _
            let graph ← liftM (simplified.lowerSimplified session arguments)
            set _
            pure graph : Work Graph)) session = some (simplified.fetch arguments text session)
      simp only [fetch]
      cases session.cache.find? (simplified.key arguments text session) with
      | some graph => rfl
      | none => cases simplified.lowerSimplified session arguments <;> rfl

/-- How a call goes: it simplifies the expression and writes it down, whether it may use the cache or
not, and then it lowers it or fetches the graph. -/
theorem lower_cases (depth : Nat) (expression : Expression) (arguments : List Text) (values : Entries)
    (session : Session) :
    (∀ cached, expression.lower depth arguments values cached session = none) ∨
    (∃ failure after, after.cache = session.cache ∧ ∀ cached,
      expression.lower depth arguments values cached session = some (.error failure, after)) ∨
    ∃ simplified after text,
      expression.simplify depth (bound arguments values) session = some (.ok simplified, after) ∧
      after.cache = session.cache ∧ simplified.program.render after.state.heap = .ok text ∧
      expression.lower depth arguments values false session =
        some (simplified.lowerSimplified after arguments, after) ∧
      expression.lower depth arguments values true session =
        some (simplified.fetch arguments text after) := by
  simp only [lower_eq, Work.bind_apply]
  rcases came : expression.simplify depth (bound arguments values) session with _ | ⟨outcome, after⟩
  · exact .inl fun _ => rfl
  · have cache := simplify_cache came
    right
    cases outcome with
    | error failure => exact .inl ⟨failure, after, cache, fun _ => rfl⟩
    | ok simplified =>
        simp only [render_apply]
        cases rendered : simplified.program.render after.state.heap with
        | error failure => exact .inl ⟨failure, after, cache, fun _ => rfl⟩
        | ok text => exact .inr ⟨simplified, after, text, rfl, cache, rendered, rfl, rfl⟩

/-- What is kept after a call is what programs of the class are lowered to. -/
theorem fetch_sound {text : Text} (sound : session.cache.Sound plain)
    (among : plain session.state.heap expression.program)
    (rendered : expression.program.render session.state.heap = .ok text) :
    (expression.fetch arguments text session).2.cache.Sound plain := by
  rw [fetch]
  cases session.cache.find? (expression.key arguments text session) with
  | some graph => exact sound
  | none =>
      cases lowered : expression.lowerSimplified session arguments with
      | error failure => exact sound
      | ok graph =>
          intro key kept member
          rcases List.mem_cons.mp member with same | member
          · cases same
            exact ⟨_, _, among, rendered, fun functions names =>
              (Program.lower_names names).trans lowered⟩
          · exact sound key kept member

/-- A graph that is fetched is the one that the program is lowered to. -/
theorem fetch_outcome (tells : Tells plain) {text : Text} (sound : session.cache.Sound plain)
    (among : plain session.state.heap expression.program)
    (rendered : expression.program.render session.state.heap = .ok text) :
    (expression.fetch arguments text session).1 = expression.lowerSimplified session arguments := by
  rw [fetch]
  cases found : session.cache.find? (expression.key arguments text session) with
  | some graph =>
      obtain ⟨heap, program, amongOther, renderedOther, lowered⟩ := sound.find? found
      rw [lowerSimplified, tells _ _ _ _ _ among amongOther rendered renderedOther]
      exact (lowered _ fun name => .rfl).symm
  | none => cases expression.lowerSimplified session arguments <;> rfl

/-- Whether a call simplifies an expression to a program of a class. -/
def StaysIn (plain : Heap → Program → Prop) (depth : Nat) (expression : Expression)
    (arguments : List Text) (values : Entries) (session : Session) : Prop :=
  ∀ simplified after,
    expression.simplify depth (bound arguments values) session = some (.ok simplified, after) →
      plain after.state.heap simplified.program

end Expression

namespace Session

/-- The sessions that calls lead to, as long as the programs that they lower are of a class. Between the
calls the state may change in any way, and graphs may be dropped from the cache, one by one or all. -/
inductive Reached (plain : Heap → Program → Prop) : Session → Prop
  | opened {session : Session} (none : session.cache.entries = []) : Reached plain session
  | lowered {session after : Session} {depth : Nat} {expression : Expression} {arguments : List Text}
      {values : Entries} {cached : Bool} {outcome : Except Failure Graph}
      (earlier : Reached plain session)
      (stays : expression.StaysIn plain depth arguments values session)
      (came : expression.lower depth arguments values cached session = some (outcome, after)) :
      Reached plain after
  | changed {session after : Session} (earlier : Reached plain session)
      (dropped : after.cache.entries ⊆ session.cache.entries) : Reached plain after

variable {plain : Heap → Program → Prop} {session : Session}

theorem Reached.sound (reached : Reached plain session) : session.cache.Sound plain := by
  induction reached with
  | opened none =>
      intro key graph member
      rw [none] at member
      cases member
  | changed earlier dropped sound => exact fun key graph member => sound key graph (dropped member)
  | @lowered session after depth expression arguments values cached outcome earlier stays came sound =>
      rcases Expression.lower_cases depth expression arguments values session with
        never | ⟨failure, between, same, fails⟩ |
          ⟨simplified, between, text, simplifies, same, rendered, plainly, fetched⟩
      · rw [never] at came
        cases came
      · rw [fails] at came
        cases came
        rw [same]
        exact sound
      · have sound : between.cache.Sound plain := same ▸ sound
        cases cached with
        | false =>
            rw [plainly] at came
            cases came
            exact sound
        | true =>
            have reads : (simplified.fetch arguments text between).2 = after :=
              congrArg Prod.snd (Option.some.inj (fetched.symm.trans came))
            rw [← reads]
            exact Expression.fetch_sound sound (stays _ _ simplifies) rendered

/-- Whether the second node of a graph is an argument. -/
def secondIsArgument : Except Failure Graph → Bool
  | .ok graph =>
    match (graph.nodes[1]?).map Node.operation with
    | some (.argument _) => true
    | _ => false
  | .error _ => false

end Session

end Formula
