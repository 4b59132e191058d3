import Formula.Proofs.Mirror
import Formula.Proofs.Provenance
import Formula.Proofs.Yielding

/-!
Terms side by side: the second run may have another term in place of a literal or of a name, if that term
comes to the same scalar under the veil.
-/

namespace Formula

namespace Term

mutual

/-- The names that a term binds in its own scope, which the bodies of functions do not. -/
def assigned : Term → List Text
  | .literal _ | .name _ => []
  | .unary _ operand => operand.assigned
  | .binary _ left right | .shortCircuit _ left right => left.assigned ++ right.assigned
  | .conditional condition yes no => condition.assigned ++ yes.assigned ++ no.assigned
  | .assign target value => target :: value.assigned
  | .assignMember object _ value => object.assigned ++ value.assigned
  | .define function _ _ => [function]
  | .call callee arguments => callee.assigned ++ assignedAll arguments
  | .member object _ => object.assigned
  | .array items => assignedAll items
  | .statement body => body.assigned
  | .sequence first rest => first.assigned ++ rest.assigned

def assignedAll : List Term → List Text
  | [] => []
  | term :: rest => term.assigned ++ assignedAll rest

end

variable (sought : Text)

mutual

theorem substitute_name (term : Term) : substitute sought (.name sought) term = term := by
  match term with
  | .literal _ => rfl
  | .name word =>
      rw [substitute]
      split
      · rename_i same
        rw [same]
      · rfl
  | .unary _ operand | .member operand _ | .assign _ operand | .define _ _ operand | .statement operand =>
      rw [substitute, substitute_name operand]
  | .binary _ left right | .shortCircuit _ left right | .assignMember left _ right |
      .sequence left right =>
      rw [substitute, substitute_name left, substitute_name right]
  | .conditional condition yes no =>
      rw [substitute, substitute_name condition, substitute_name yes, substitute_name no]
  | .call callee arguments =>
      rw [substitute, substitute_name callee, substituteEach_name arguments]
  | .array items => rw [substitute, substituteEach_name items]

theorem substituteEach_name (terms : List Term) : substituteEach sought (.name sought) terms = terms := by
  match terms with
  | [] => rfl
  | term :: rest => rw [substituteEach, substitute_name term, substituteEach_name rest]

end

end Term

namespace Program

theorem mem_contents_targets {names : List Text} {name : Text} :
    .target name ∈ contents (names.map .target) ↔ name ∈ names := by
  induction names with
  | nil => simp [contents, allContents]
  | cons first rest ih =>
      rw [List.map_cons, contents_cons, List.mem_append, ih, List.mem_cons]
      simp [Instruction.contents]

theorem mem_contents_codeAll {terms : List Term} {term : Term} (among : term ∈ terms)
    {instruction : Instruction} (member : instruction ∈ term.code.contents) :
    instruction ∈ contents (Term.codeAll terms) := by
  induction terms with
  | nil => cases among
  | cons first rest ih =>
      rw [Term.codeAll, contents_append, List.mem_append]
      rcases List.mem_cons.mp among with rfl | later
      · exact .inl member
      · exact .inr (ih later)

end Program

namespace Term

theorem mem_assignedAll {terms : List Term} {name : Text} :
    name ∈ assignedAll terms ↔ ∃ term ∈ terms, name ∈ term.assigned := by
  induction terms with
  | nil => simp [assignedAll]
  | cons first rest ih => simp [assignedAll, ih]

/-- A name that a term binds in its own scope is among its targets. -/
theorem target_of_assigned (term : Term) {name : Text} (member : name ∈ term.assigned) :
    .target name ∈ term.code.contents := by
  match term with
  | .literal _ | .name _ => cases member
  | .unary _ operand | .member operand _ | .statement operand =>
      simp [code, Program.contents_append, Program.contents_cons, Program.contents_nested,
        target_of_assigned operand member]
  | .binary _ left right | .shortCircuit _ left right | .assignMember left _ right
  | .sequence left right =>
      have either := (List.mem_append.mp member).imp (target_of_assigned left) (target_of_assigned right)
      simp only [code, Program.contents_append, Program.contents_cons, Program.contents_nested,
        List.mem_append]
      tauto
  | .conditional condition yes no =>
      have either := (List.mem_append.mp member).imp_left List.mem_append.mp
      have each := either.imp (Or.imp (target_of_assigned condition) (target_of_assigned yes))
        (target_of_assigned no)
      simp only [code, Program.contents_append, Program.contents_cons, Program.contents_nested,
        List.mem_append]
      tauto
  | .assign target value =>
      rcases List.mem_cons.mp member with rfl | later
      · exact List.mem_cons_self
      · simp [code, Program.contents_cons, Program.contents_nested, target_of_assigned value later]
  | .define function _ _ =>
      rw [List.mem_singleton.mp member]
      exact List.mem_cons_self
  | .call callee arguments =>
      rw [code, Program.contents_append, Program.contents_append, List.mem_append, List.mem_append]
      refine .inl ((List.mem_append.mp member).imp (target_of_assigned callee) fun among => ?_)
      obtain ⟨argument, inside, held⟩ := mem_assignedAll.mp among
      exact Program.mem_contents_codeAll inside (target_of_assigned argument held)
  | .array items =>
      rw [code, Program.contents_append, List.mem_append]
      obtain ⟨item, inside, held⟩ := mem_assignedAll.mp member
      exact .inl (Program.mem_contents_codeAll inside (target_of_assigned item held))

end Term

namespace Mirror

open Program
open Recursion (Deferred)

variable (mirror : Mirror)

/-- Whether both runs look up the same under a name: it names no registered function, unless these have the
same names. -/
def Reads (word : Text) : Prop := mirror.aligned ∨ ∀ serial, word ≠ registeredName serial

/-- Whether a name means the same to both runs, in a scope or before any scope is asked. -/
def Means (veiled : Bool) (word : Text) : Prop := mirror.Shares veiled word ∨ mirror.options.Settles word

/-- Values that are known from the start and stay in their place. -/
def Holds (value : Value) : Prop :=
  value.isScalar = true ∨ mirror.still ∧ ∀ world : mirror.World, world.Knows value

mutual

/-- Terms that come to the same in both runs, under a veil or without one. -/
inductive Twins : Bool → Term → Term → Prop
  | literal {veiled : Bool} {value : Value} (held : mirror.Holds value) :
      Twins veiled (.literal value) (.literal value)
  | name {veiled : Bool} {word : Text} (reads : mirror.Reads word) (means : mirror.Means veiled word) :
      Twins veiled (.name word) (.name word)
  /-- A term that comes to the value of a literal. -/
  | yields {value : Value} {two : Term} (alters : mirror.alters) (scalar : value.isScalar = true)
      (yields : Term.Yields mirror.veil.known mirror.effort two value) : Twins true (.literal value) two
  /-- A term that comes to what a name is known to be bound to. -/
  | supplies {word : Text} {value : Value} {two : Term} (alters : mirror.alters)
      (shares : mirror.veil.shares word)
      (known : named mirror.veil.known word = some value)
      (yields : Term.Yields mirror.veil.known mirror.effort two value) : Twins true (.name word) two
  | unary {veiled : Bool} {symbol : Text} {one two : Term} (operands : Twins veiled one two) :
      Twins veiled (.unary symbol one) (.unary symbol two)
  | binary {veiled : Bool} {symbol : Text} {left one right two : Term} (other : symbol ≠ Term.assignSymbol)
      (lefts : Twins veiled left one) (rights : Twins veiled right two) :
      Twins veiled (.binary symbol left right) (.binary symbol one two)
  | shortCircuit {veiled : Bool} {symbol : Text} {left one right two : Term}
      (other : symbol ≠ Term.assignSymbol) (lefts : Twins veiled left one) (rights : Twins veiled right two) :
      Twins veiled (.shortCircuit symbol left right) (.shortCircuit symbol one two)
  | conditional {veiled : Bool} {condition one yes two no three : Term}
      (conditions : Twins veiled condition one) (yeses : Twins veiled yes two)
      (noes : Twins veiled no three) :
      Twins veiled (.conditional condition yes no) (.conditional one two three)
  | assign {veiled : Bool} {target : Text} {one two : Term} (binds : mirror.Binds veiled target)
      (values : Twins veiled one two) : Twins veiled (.assign target one) (.assign target two)
  | assignMember {veiled : Bool} {key : Text} {object one value two : Term}
      (objects : Twins veiled object one) (values : Twins veiled value two) :
      Twins veiled (.assignMember object key value) (.assignMember one key two)
  | define {veiled : Bool} {name : Text} {parameters : List Text} {one two : Term}
      (binds : mirror.Binds veiled name)
      (opens : ∀ parameter ∈ parameters, mirror.Binds (mirror.inner veiled) parameter)
      (bodies : Twins (mirror.inner veiled) one two) :
      Twins veiled (.define name parameters one) (.define name parameters two)
  | call {veiled : Bool} {callee one : Term} {arguments others : List Term}
      (callees : Twins veiled callee one) (each : TwinsEach veiled arguments others) :
      Twins veiled (.call callee arguments) (.call one others)
  | member {veiled : Bool} {key : Text} {one two : Term} (objects : Twins veiled one two) :
      Twins veiled (.member one key) (.member two key)
  | array {veiled : Bool} {items others : List Term} (each : TwinsEach veiled items others) :
      Twins veiled (.array items) (.array others)
  | statement {veiled : Bool} {one two : Term} (bodies : Twins veiled one two) :
      Twins veiled (.statement one) (.statement two)
  | sequence {veiled : Bool} {first one rest two : Term} (firsts : Twins veiled first one)
      (rests : Twins veiled rest two) : Twins veiled (.sequence first rest) (.sequence one two)

inductive TwinsEach : Bool → List Term → List Term → Prop
  | nil {veiled : Bool} : TwinsEach veiled [] []
  | cons {veiled : Bool} {one two : Term} {ones twos : List Term} (first : Twins veiled one two)
      (rest : TwinsEach veiled ones twos) : TwinsEach veiled (one :: ones) (two :: twos)

end

/-- Something deferred that comes to the same in both runs. -/
inductive TwinsDeferred (veiled : Bool) : Deferred → Deferred → Prop
  | whole {one two : Term} (terms : mirror.Twins veiled one two) :
      TwinsDeferred veiled (.whole one) (.whole two)
  | statements {first one rest two : Term} (firsts : mirror.Twins veiled first one)
      (rests : mirror.Twins veiled rest two) :
      TwinsDeferred veiled (.statements first rest) (.statements one two)

/-- What may stand in a term but for some names to read: values of before, names to read that mean the same,
and names to bind that the scopes of calls may bind. -/
def Admits (spare : Text → Prop) (veiled : Bool) : Instruction → Prop
  | .literal value => mirror.Holds value
  | .name word => spare word ∨ mirror.Reads word ∧ mirror.Means veiled word
  | .target word => mirror.Binds (mirror.inner veiled) word
  | _ => True

/-- A term that both runs may come upon. -/
structure Fits (spare : Text → Prop) (veiled : Bool) (term : Term) : Prop where
  ordinary : term.ordinary = true
  contents : ∀ instruction ∈ term.code.contents, mirror.Admits spare veiled instruction
  assigned : ∀ name ∈ term.assigned, mirror.Binds veiled name

variable {mirror} {veiled : Bool} {spare : Text → Prop}

theorem Holds.knows {value : Value} (held : mirror.Holds value) (world : mirror.World) :
    world.Knows value :=
  held.elim World.knows_scalar fun known => known.2 world

theorem Holds.move {value : Value} (held : mirror.Holds value) : value.move mirror.moves = value :=
  held.elim (Value.move_scalar _) fun known => (mirror.steady known.1).1 value

namespace Fits

/-- A part of a term. -/
theorem part {term other : Term} (fits : mirror.Fits spare veiled term) (ordinary : other.ordinary = true)
    (inside : other.code.contents ⊆ term.code.contents) (bound : other.assigned ⊆ term.assigned) :
    mirror.Fits spare veiled other :=
  ⟨ordinary, fun instruction member => fits.contents instruction (inside member),
    fun name member => fits.assigned name (bound member)⟩

theorem literal {value : Value} (fits : mirror.Fits spare veiled (.literal value)) : mirror.Holds value :=
  fits.contents (.literal value) List.mem_cons_self

theorem name {word : Text} (fits : mirror.Fits spare veiled (.name word)) :
    spare word ∨ mirror.Reads word ∧ mirror.Means veiled word :=
  fits.contents (.name word) List.mem_cons_self

theorem unary {symbol : Text} {operand : Term} (fits : mirror.Fits spare veiled (.unary symbol operand)) :
    mirror.Fits spare veiled operand :=
  fits.part fits.ordinary (fun _ member => by simp [Term.code, Program.contents_append, member])
    (List.Subset.refl _)

theorem binary {symbol : Text} {left right : Term}
    (fits : mirror.Fits spare veiled (.binary symbol left right)) :
    symbol ≠ Term.assignSymbol ∧ mirror.Fits spare veiled left ∧ mirror.Fits spare veiled right := by
  have ordinary := fits.ordinary
  simp only [Term.ordinary, Bool.and_eq_true, decide_eq_true_eq] at ordinary
  refine ⟨ordinary.1.1, fits.part ordinary.1.2 ?_ (List.subset_append_left ..),
    fits.part ordinary.2 ?_ (List.subset_append_right ..)⟩
  · exact fun _ member => by simp [Term.code, Program.contents_append, member]
  · exact fun _ member => by simp [Term.code, Program.contents_append, member]

theorem shortCircuit {symbol : Text} {left right : Term}
    (fits : mirror.Fits spare veiled (.shortCircuit symbol left right)) :
    symbol ≠ Term.assignSymbol ∧ mirror.Fits spare veiled left ∧ mirror.Fits spare veiled right := by
  have ordinary := fits.ordinary
  simp only [Term.ordinary, Bool.and_eq_true, decide_eq_true_eq] at ordinary
  refine ⟨ordinary.1.1, fits.part ordinary.1.2 ?_ (List.subset_append_left ..),
    fits.part ordinary.2 ?_ (List.subset_append_right ..)⟩
  · exact fun _ member => by simp [Term.code, Program.contents_append, member]
  · exact fun _ member => by
      simp [Term.code, Program.contents_append, Program.contents_cons, contents_nested, member]

theorem conditional {condition yes no : Term}
    (fits : mirror.Fits spare veiled (.conditional condition yes no)) :
    mirror.Fits spare veiled condition ∧ mirror.Fits spare veiled yes ∧ mirror.Fits spare veiled no := by
  have ordinary := fits.ordinary
  simp only [Term.ordinary, Bool.and_eq_true] at ordinary
  refine ⟨fits.part ordinary.1.1 ?_ ?_, fits.part ordinary.1.2 ?_ ?_,
    fits.part ordinary.2 ?_ (List.subset_append_right ..)⟩
  · exact fun _ member => by simp [Term.code, Program.contents_append, member]
  · exact List.subset_append_of_subset_left _ (List.subset_append_left ..)
  · exact fun _ member => by
      simp [Term.code, Program.contents_append, Program.contents_cons, contents_nested, member]
  · exact List.subset_append_of_subset_left _ (List.subset_append_right ..)
  · exact fun _ member => by
      simp [Term.code, Program.contents_append, Program.contents_cons, contents_nested, member]

theorem assign {target : Text} {value : Term} (fits : mirror.Fits spare veiled (.assign target value)) :
    mirror.Binds veiled target ∧ mirror.Fits spare veiled value :=
  ⟨fits.assigned target List.mem_cons_self, fits.part fits.ordinary
    (fun _ member => by simp [Term.code, Program.contents_cons, contents_nested, member])
    (List.subset_cons_self ..)⟩

theorem assignMember {object value : Term} {key : Text}
    (fits : mirror.Fits spare veiled (.assignMember object key value)) :
    mirror.Fits spare veiled object ∧ mirror.Fits spare veiled value := by
  have ordinary := fits.ordinary
  simp only [Term.ordinary, Bool.and_eq_true] at ordinary
  refine ⟨fits.part ordinary.1 ?_ (List.subset_append_left ..),
    fits.part ordinary.2 ?_ (List.subset_append_right ..)⟩
  · exact fun _ member => by simp [Term.code, Program.contents_append, member]
  · exact fun _ member => by
      simp [Term.code, Program.contents_append, Program.contents_cons, contents_nested, member]

theorem define {function : Text} {parameters : List Text} {body : Term}
    (fits : mirror.Fits spare veiled (.define function parameters body)) :
    mirror.Binds veiled function ∧
      (∀ parameter ∈ parameters, mirror.Binds (mirror.inner veiled) parameter) ∧
        mirror.Fits spare (mirror.inner veiled) body := by
  have inside : body.code.contents ⊆ (Term.define function parameters body).code.contents :=
    fun _ member => by
      simp [Term.code, Program.contents_cons, Program.contents_append, contents_nested, member]
  refine ⟨fits.assigned function List.mem_cons_self, fun parameter member => ?_, fits.ordinary,
    fun instruction member => ?_, fun name member => ?_⟩
  · refine fits.contents (.target parameter) ?_
    have among : Instruction.target parameter ∈ Program.contents (parameters.map .target) :=
      mem_contents_targets.mpr member
    simp [Term.code, Program.contents_cons, Program.contents_append, among]
  · have admits := fits.contents instruction (inside member)
    cases instruction with
    | name word => exact admits.imp_right fun ⟨reads, means⟩ => ⟨reads, means.imp_left (·.inner)⟩
    | target word =>
        have binds : mirror.Binds (mirror.inner veiled) word := admits
        rwa [← mirror.inner_inner veiled] at binds
    | _ => exact admits
  · exact fits.contents (.target name) (inside (body.target_of_assigned member))

theorem call {callee : Term} {arguments : List Term}
    (fits : mirror.Fits spare veiled (.call callee arguments)) :
    mirror.Fits spare veiled callee ∧ ∀ argument ∈ arguments, mirror.Fits spare veiled argument := by
  have ordinary := fits.ordinary
  simp only [Term.ordinary, Bool.and_eq_true, Term.allOrdinary_iff] at ordinary
  refine ⟨fits.part ordinary.1 ?_ (List.subset_append_left ..), fun argument among =>
    fits.part (ordinary.2 argument among) ?_ fun name member => ?_⟩
  · exact fun _ member => by simp [Term.code, Program.contents_append, member]
  · exact fun _ member => by
      simp [Term.code, Program.contents_append, mem_contents_codeAll among member]
  · exact List.mem_append_right _ (Term.mem_assignedAll.mpr ⟨argument, among, member⟩)

theorem member {object : Term} {key : Text} (fits : mirror.Fits spare veiled (.member object key)) :
    mirror.Fits spare veiled object :=
  fits.part fits.ordinary (fun _ member => by simp [Term.code, Program.contents_append, member])
    (List.Subset.refl _)

theorem array {items : List Term} (fits : mirror.Fits spare veiled (.array items)) :
    ∀ item ∈ items, mirror.Fits spare veiled item := by
  have ordinary := fits.ordinary
  simp only [Term.ordinary, Term.allOrdinary_iff] at ordinary
  refine fun item among => fits.part (ordinary item among) ?_ fun name member => ?_
  · exact fun _ member => by
      simp [Term.code, Program.contents_append, mem_contents_codeAll among member]
  · exact Term.mem_assignedAll.mpr ⟨item, among, member⟩

theorem statement {body : Term} (fits : mirror.Fits spare veiled (.statement body)) :
    mirror.Fits spare veiled body :=
  fits.part fits.ordinary
    (fun _ member => by simp [Term.code, Program.contents_cons, contents_nested, member])
    (List.Subset.refl _)

theorem sequence {first rest : Term} (fits : mirror.Fits spare veiled (.sequence first rest)) :
    mirror.Fits spare veiled first ∧ mirror.Fits spare veiled rest := by
  have ordinary := fits.ordinary
  simp only [Term.ordinary, Bool.and_eq_true] at ordinary
  refine ⟨fits.part ordinary.1 ?_ (List.subset_append_left ..),
    fits.part ordinary.2 ?_ (List.subset_append_right ..)⟩
  · exact fun _ member => by
      simp [Term.code, Program.contents_append, Program.contents_cons, contents_nested, member]
  · exact fun _ member => by
      simp [Term.code, Program.contents_append, Program.contents_cons, contents_nested, member]

end Fits

section

variable {sought : Text} {left right : Term}

mutual

/-- Terms that fit but for a name come to the same in both runs with twins in place of the name. -/
theorem twins_substitute (only : ∀ word, spare word → word = sought) (veiled : Bool)
    (each : ∀ under, under = veiled ∨ under = mirror.inner veiled →
      spare sought ∨ mirror.Reads sought ∧ mirror.Means under sought → mirror.Twins under left right)
    (term : Term) (fits : mirror.Fits spare veiled term) :
    mirror.Twins veiled (Term.substitute sought left term) (Term.substitute sought right term) := by
  cases term with
  | literal value => exact .literal fits.literal
  | name word =>
      rw [Term.substitute, Term.substitute]
      split
      · rename_i same
        exact each veiled (.inl rfl) (same ▸ fits.name)
      · rename_i other
        obtain ⟨reads, means⟩ := fits.name.resolve_left fun free => other (only word free)
        exact .name reads means
  | unary symbol operand => exact .unary (twins_substitute only veiled each operand fits.unary)
  | binary symbol one two =>
      obtain ⟨other, fitsOne, fitsTwo⟩ := fits.binary
      exact .binary other (twins_substitute only veiled each one fitsOne)
        (twins_substitute only veiled each two fitsTwo)
  | shortCircuit symbol one two =>
      obtain ⟨other, fitsOne, fitsTwo⟩ := fits.shortCircuit
      exact .shortCircuit other (twins_substitute only veiled each one fitsOne)
        (twins_substitute only veiled each two fitsTwo)
  | conditional condition yes no =>
      obtain ⟨fitsCondition, fitsYes, fitsNo⟩ := fits.conditional
      exact .conditional (twins_substitute only veiled each condition fitsCondition)
        (twins_substitute only veiled each yes fitsYes) (twins_substitute only veiled each no fitsNo)
  | assign target value =>
      exact .assign fits.assign.1 (twins_substitute only veiled each value fits.assign.2)
  | assignMember object key value =>
      exact .assignMember (twins_substitute only veiled each object fits.assignMember.1)
        (twins_substitute only veiled each value fits.assignMember.2)
  | define name parameters body =>
      obtain ⟨binds, opens, fitsBody⟩ := fits.define
      refine .define binds opens
        (twins_substitute only (mirror.inner veiled) (fun under lies => each under ?_) body fitsBody)
      rw [inner_inner, or_self] at lies
      exact .inr lies
  | call callee arguments =>
      exact .call (twins_substitute only veiled each callee fits.call.1)
        (twins_substituteEach only veiled each arguments fits.call.2)
  | member object key => exact .member (twins_substitute only veiled each object fits.member)
  | array items => exact .array (twins_substituteEach only veiled each items fits.array)
  | statement body => exact .statement (twins_substitute only veiled each body fits.statement)
  | sequence first rest =>
      exact .sequence (twins_substitute only veiled each first fits.sequence.1)
        (twins_substitute only veiled each rest fits.sequence.2)

theorem twins_substituteEach (only : ∀ word, spare word → word = sought) (veiled : Bool)
    (each : ∀ under, under = veiled ∨ under = mirror.inner veiled →
      spare sought ∨ mirror.Reads sought ∧ mirror.Means under sought → mirror.Twins under left right)
    (terms : List Term) (fits : ∀ term ∈ terms, mirror.Fits spare veiled term) :
    mirror.TwinsEach veiled (Term.substituteEach sought left terms)
      (Term.substituteEach sought right terms) := by
  cases terms with
  | nil => exact .nil
  | cons term rest =>
      rw [List.forall_mem_cons] at fits
      exact .cons (twins_substitute only veiled each term fits.1)
        (twins_substituteEach only veiled each rest fits.2)

end

end

mutual

/-- Where no term takes the place of another, twins are the same. -/
theorem Twins.same (rigid : ¬ mirror.alters) {veiled : Bool} (one : Term) {two : Term}
    (twins : mirror.Twins veiled one two) : two = one := by
  cases one with
  | literal value =>
      cases twins with
      | literal _ => rfl
      | yields alters => exact (rigid alters).elim
  | name word =>
      cases twins with
      | name _ _ => rfl
      | supplies alters => exact (rigid alters).elim
  | unary symbol operand =>
      cases twins with | unary operands =>
      rw [Twins.same rigid operand operands]
  | binary symbol left right =>
      cases twins with | binary _ lefts rights =>
      rw [Twins.same rigid left lefts, Twins.same rigid right rights]
  | shortCircuit symbol left right =>
      cases twins with | shortCircuit _ lefts rights =>
      rw [Twins.same rigid left lefts, Twins.same rigid right rights]
  | conditional condition yes no =>
      cases twins with | conditional conditions yeses noes =>
      rw [Twins.same rigid condition conditions, Twins.same rigid yes yeses, Twins.same rigid no noes]
  | assign target value =>
      cases twins with | assign _ values =>
      rw [Twins.same rigid value values]
  | assignMember object key value =>
      cases twins with | assignMember objects values =>
      rw [Twins.same rigid object objects, Twins.same rigid value values]
  | define name parameters body =>
      cases twins with | define _ _ bodies =>
      rw [Twins.same rigid body bodies]
  | call callee arguments =>
      cases twins with | call callees each =>
      rw [Twins.same rigid callee callees, TwinsEach.same rigid arguments each]
  | member object key =>
      cases twins with | member objects =>
      rw [Twins.same rigid object objects]
  | array items =>
      cases twins with | array each =>
      rw [TwinsEach.same rigid items each]
  | statement body =>
      cases twins with | statement bodies =>
      rw [Twins.same rigid body bodies]
  | sequence first rest =>
      cases twins with | sequence firsts rests =>
      rw [Twins.same rigid first firsts, Twins.same rigid rest rests]

theorem TwinsEach.same (rigid : ¬ mirror.alters) {veiled : Bool} (ones : List Term) {twos : List Term}
    (twins : mirror.TwinsEach veiled ones twos) : twos = ones := by
  cases ones with
  | nil =>
      cases twins
      rfl
  | cons one rest =>
      cases twins with | cons first others =>
      rw [Twins.same rigid one first, TwinsEach.same rigid rest others]

end

/-- A term that fits is its own twin. -/
theorem Fits.twins {term : Term} (fits : mirror.Fits (fun _ => False) veiled term) :
    mirror.Twins veiled term term := by
  have each (under : Bool) (_ : under = veiled ∨ under = mirror.inner veiled)
      (either : False ∨ mirror.Reads [] ∧ mirror.Means under []) :
      mirror.Twins under (.name []) (.name []) :=
    .name (either.resolve_left id).1 (either.resolve_left id).2
  have twins := twins_substitute nofun veiled each term fits
  rwa [Term.substitute_name] at twins

end Mirror

end Formula
