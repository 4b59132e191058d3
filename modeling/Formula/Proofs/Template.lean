import Mathlib.Order.Lattice.Nat
import Formula.Proofs.Matching
import Formula.Proofs.Registry
import Formula.Proofs.Replaying

/-!
Templates: data that states hold copies of. What an expression does on the template it does on each copy,
whatever else the state holds; so it does the same on all of them.
-/

namespace Formula

/-- Data that consists of scalars and of what stands at some places. -/
def Value.Within (sequences maps : Nat → Prop) : Value → Prop
  | .tuple place | .list place => sequences place
  | .map place | .object place => maps place
  | value => value.isScalar = true

theorem Value.Within.sequence {sequences maps : Nat → Prop} {value : Value} {place : Nat}
    (within : value.Within sequences maps) (here : value.place? = some (.sequence place)) : sequences place := by
  cases value <;> cases here <;> exact within

theorem Value.Within.map {sequences maps : Nat → Prop} {value : Value} {place : Nat}
    (within : value.Within sequences maps) (here : value.place? = some (.map place)) : maps place := by
  cases value <;> cases here <;> exact within

/-- A scope and the data that its shared names lead to. The scope itself is no part of that data. -/
structure Template where
  heap : Heap
  scope : Nat
  sequences : Nat → Prop
  maps : Nat → Prop
  /-- The names that may be bound. -/
  binds : Text → Bool
  /-- The names that all copies bind alike. -/
  shares : Text → Prop
  options : Options
  dialect : Nat
  /-- Whether all copies register functions under the same names. -/
  aligned : Prop
  definitions : Nat
  seed : Nat
  inside : ∀ place, sequences place → place < heap.sequences.size
  insideMaps : ∀ place, maps place ∨ place = scope → place < heap.maps.size
  unvalued : ¬ maps scope
  items : ∀ place, sequences place → ∀ item ∈ heap.sequence place, item.Within sequences maps
  entries : ∀ place, maps place → ∀ entry ∈ heap.entries place,
    entry.1.Within sequences maps ∧ entry.2.Within sequences maps
  bound : ∀ name value, shares name → named (heap.entries scope) name = some value →
    value.Within sequences maps

namespace Template

open Recursion (Closure World)

variable (template : Template)

/-- The world that holds nothing but the template. -/
def world : World where
  state :=
    { heap := template.heap
      dialects := Array.replicate (template.dialect + 1) (.standard template.options)
      definitions := template.definitions
      seed := template.seed }
  closures := #[]

/-- Where the data of the template stands in a copy. -/
def moves (world : World) (place : Nat → Nat) : Renaming where
  sequences := ⟨template.heap.sequences.size, world.state.heap.sequences.size, place⟩
  maps := ⟨template.heap.maps.size, world.state.heap.maps.size, place⟩
  functions := ⟨0, world.closures.size, id⟩
  functions_injective _ _ same := Shift.place_new_injective (Nat.zero_le _) (Nat.zero_le _) same

/-- Whether the data of a world is a copy of the template, with each of its places at some place. Only
sequences that lead to no mapping may come together there. -/
structure Copies (world : World) (place : Nat → Nat) : Prop where
  inside : ∀ one, template.sequences one → place one < world.state.heap.sequences.size
  insideMaps : ∀ one, template.maps one ∨ one = template.scope → place one < world.state.heap.maps.size
  sequences_apart : ∀ one other, template.sequences one → template.sequences other →
    place one = place other → one = other ∨ world.state.heap.Mapless (place one)
  maps_apart : ∀ one other, template.maps one ∨ one = template.scope →
    template.maps other ∨ other = template.scope → place one = place other → one = other
  items : ∀ one, template.sequences one → world.state.heap.sequence (place one) =
    (template.heap.sequence one).map (·.move (template.moves world place))
  entries : ∀ one, template.maps one → world.state.heap.entries (place one) =
    (template.heap.entries one).move (template.moves world place)
  names : ∀ name, template.shares name → named (world.state.heap.entries (place template.scope)) name =
    (named (template.heap.entries template.scope) name).map (·.move (template.moves world place))
  founded : ∀ one, template.sequences one →
    ∃ bound, Nested world.state.heap.elements bound (.list (place one))
  keys : ∀ one, template.maps one → ∀ entry ∈ world.state.heap.entries (place one),
    world.state.heap.Hashable entry.1

/-- Whether a world has the dialect of the template, with functions of expressions at most besides. -/
structure Serves (world : World) : Prop where
  table : ∃ registered, world.compiled.Extends template.dialect template.options registered ∧
    (template.aligned → registered = [])
  counted : template.definitions ≤ world.state.definitions
  aligned : template.aligned → world.state.definitions = template.definitions
  seed : world.state.seed = template.seed

variable {template} {world : World} {place : Nat → Nat}

theorem place_sequence (world : World) (place : Nat → Nat) {one : Nat} (has : template.sequences one) :
    (template.moves world place).sequences.place one = place one :=
  Shift.place_old (template.inside one has)

theorem place_map (world : World) (place : Nat → Nat) {one : Nat}
    (has : template.maps one ∨ one = template.scope) :
    (template.moves world place).maps.place one = place one :=
  Shift.place_old (template.insideMaps one has)

namespace Copies

variable (copies : template.Copies world place)

include copies

theorem mem_sequence {one : Nat} (has : template.sequences one) {item : Value}
    (member : item ∈ template.heap.sequence one) : item.move (template.moves world place) ∈
      world.state.heap.sequence ((template.moves world place).sequences.place one) := by
  rw [place_sequence world place has, copies.items one has]
  exact List.mem_map_of_mem member

theorem mem_entries {one : Nat} (has : template.maps one) {entry : Value × Value}
    (member : entry ∈ template.heap.entries one) :
    (entry.1.move (template.moves world place), entry.2.move (template.moves world place)) ∈
      world.state.heap.entries ((template.moves world place).maps.place one) := by
  rw [place_map world place (.inl has), copies.entries one has]
  exact List.mem_map_of_mem member

/-- Where a part of the template leads, its copy leads. -/
theorem leads {value : Value} {goal : Heap.Place} (leads : template.heap.Leads goal value)
    (within : value.Within template.sequences template.maps) : world.state.heap.Leads
      (goal.move (template.moves world place)) (value.move (template.moves world place)) := by
  induction leads with
  | here here => exact .here (by rw [Value.place?_move, here]; rfl)
  | item here member _ ih =>
      have has := within.sequence here
      exact .item (by rw [Value.place?_move, here]; rfl) (copies.mem_sequence has member)
        (ih (template.items _ has _ member))
  | key here member _ ih =>
      have has := within.map here
      exact .key (by rw [Value.place?_move, here]; rfl) (copies.mem_entries has member)
        (ih (template.entries _ has _ member).1)
  | entry here member _ ih =>
      have has := within.map here
      exact .entry (by rw [Value.place?_move, here]; rfl) (copies.mem_entries has member)
        (ih (template.entries _ has _ member).2)

theorem mapless {one : Nat} (has : template.sequences one) (mapless : world.state.heap.Mapless (place one)) :
    template.heap.Mapless one := by
  intro goal leads
  have led := copies.leads leads (show Value.Within _ _ (.list one) from has)
  rw [Value.move_list, place_sequence world place has] at led
  exact mapless _ led

/-- What nests finitely in a copy does so in the template. -/
theorem nested {bound : Nat} {value : Value} (within : value.Within template.sequences template.maps)
    (nested : Nested world.state.heap.elements bound (value.move (template.moves world place))) :
    Nested template.heap.elements bound value := by
  induction bound generalizing value with
  | zero => exact nested.elim
  | succ bound ih =>
      intro found here item member
      cases found with
      | map one => cases member
      | sequence one =>
          have has := within.sequence here
          have moved : (value.move (template.moves world place)).place? =
              some (.sequence ((template.moves world place).sequences.place one)) := by
            rw [Value.place?_move, here]
            rfl
          exact ih (template.items _ has _ member) (nested _ moved _ (copies.mem_sequence has member))

/-- What may be a key in a copy may be one in the template. -/
theorem hashable {value : Value} (within : value.Within template.sequences template.maps)
    (key : world.state.heap.Hashable (value.move (template.moves world place))) :
    template.heap.Hashable value := by
  obtain ⟨depth, key⟩ := key
  refine ⟨depth, ?_⟩
  induction depth generalizing value with
  | zero => cases key
  | succ depth ih =>
      cases value with
      | tuple one =>
          have has : template.sequences one := within
          have keys : (world.state.heap.sequence ((template.moves world place).sequences.place one)).all
              (world.state.heap.isKeyWithin depth) = true := key
          rw [List.all_eq_true] at keys
          change (template.heap.sequence one).all (template.heap.isKeyWithin depth) = true
          rw [List.all_eq_true]
          exact fun item member =>
            ih (template.items _ has _ member) (keys _ (copies.mem_sequence has member))
      | _ => exact key

/-- How high a copied sequence is. -/
noncomputable def height (place : Nat → Nat) (heap : Heap) (one : Nat) : Nat :=
  sInf { bound | Nested heap.elements bound (.list (place one)) }

omit copies in
theorem height_lt {heap : Heap} {one next : Nat} (founded : ∃ bound, Nested heap.elements bound (.list (place one)))
    {item : Value} (member : item ∈ heap.sequence (place one)) (inner : item.place? = some (.sequence (place next))) :
    height place heap next < height place heap one := by
  have nested : Nested heap.elements (height place heap one) (.list (place one)) := Nat.sInf_mem founded
  revert nested
  cases height place heap one with
  | zero => exact False.elim
  | succ bound =>
      intro nested
      have lower := nested _ rfl item member
      refine Nat.lt_succ_of_le (Nat.sInf_le ?_)
      cases bound with
      | zero => exact lower.elim
      | succ bound => exact fun found here => lower found (inner.trans here)

end Copies

/-- What a copy holds of its scope under names that are not bound. -/
def veil (template : Template) (world : World) (place : Nat → Nat) : Veil template.options where
  binds := template.binds
  shares := template.shares
  rest := (world.state.heap.entries (place template.scope)).besides template.binds
  known := []
  lasts := true
  knowable := by constructor <;> exact nofun
  rests := nofun
  thin := nofun

/-- The runs on the template and on a copy side by side. -/
noncomputable def mirror (copies : template.Copies world place) (serves : template.Serves world) : Mirror where
  moves := template.moves world place
  definitions := world.state.definitions - template.definitions
  sequences := template.sequences
  maps := template.maps
  scopes := (· = template.scope)
  functions _ := False
  trusted _ := False
  bare one := template.sequences one ∧ template.heap.Mapless one
  height := Copies.height place world.state.heap
  origin := template.heap
  options := template.options
  dialect := template.dialect
  veil := template.veil world place
  still := False
  exact := False
  early := False
  late := False
  aligned := template.aligned
  alters := False
  effort := 0
  sequences_old := template.inside
  sequences_below one has := by
    rw [place_sequence world place has]
    exact copies.inside one has
  sequences_apart one other has hasOther same := by
    rw [place_sequence world place has, place_sequence world place hasOther] at same
    refine (copies.sequences_apart one other has hasOther same).imp_right fun mapless => ?_
    refine ⟨⟨has, copies.mapless has mapless⟩, ⟨hasOther, copies.mapless hasOther (same ▸ mapless)⟩, ?_⟩
    rw [Copies.height, Copies.height, same]
  bare_known _ bare := bare.1
  maps_old := template.insideMaps
  maps_below one has := by
    rw [place_map world place has]
    exact copies.insideMaps one has
  maps_apart one other has hasOther same := by
    rw [place_map world place has, place_map world place hasOther] at same
    exact copies.maps_apart one other has hasOther same
  unvalued _ same := same ▸ template.unvalued
  uncounted aligned := by rw [serves.aligned aligned, Nat.sub_self]
  trusted_known _ := False.elim
  steady := False.elim

/-- Before the runs. -/
def stage (copies : template.Copies world place) (serves : template.Serves world) :
    (mirror copies serves).Stage where
  sequences := template.heap.sequences.size
  maps := template.heap.maps.size
  veiled scope := scope == template.scope
  sequences_based := Nat.le_refl _
  maps_based := Nat.le_refl _
  unveiled _ has := beq_false_of_ne fun same => template.unvalued (same ▸ has)
  functions := 0
  functions_based := Nat.le_refl _

section

variable (copies : template.Copies world place) (serves : template.Serves world)

theorem hasSequence_iff {one : Nat} : (stage copies serves).HasSequence one ↔ template.sequences one :=
  or_iff_left fun new => Nat.not_lt.mpr new.1 new.2

theorem hides_iff {scope : Nat} : (stage copies serves).Hides scope ↔ scope = template.scope :=
  or_iff_left fun new => Nat.not_lt.mpr new.1 new.2

theorem knows_of_within {value : Value} (within : value.Within template.sequences template.maps) :
    (stage copies serves).Knows value := by
  cases value with
  | tuple one => exact .inl within
  | list one => exact .inl within
  | map one => exact within
  | object one => exact within
  | builtin function => cases within
  | defined one => cases within
  | _ => trivial

theorem stage_reflects : (stage copies serves).Reflects template.heap world.state.heap where
  sizeSequences := rfl
  sizeSequencesTwo := (Shift.place_new (Nat.le_refl _)).trans (by rw [Nat.sub_self]; rfl) |>.symm
  sizeMaps := rfl
  sizeMapsTwo := (Shift.place_new (Nat.le_refl _)).trans (by rw [Nat.sub_self]; rfl) |>.symm
  sequences one has := by
    have has := (hasSequence_iff copies serves).mp has
    exact (congrArg _ (place_sequence world place has)).trans (copies.items one has)
  items one has item member := knows_of_within copies serves
    (template.items one ((hasSequence_iff copies serves).mp has) item member)
  maps one has := (congrArg _ (place_map world place (.inl has))).trans (copies.entries one has)
  entries one has entry member :=
    (template.entries one has entry member).imp (knows_of_within copies serves) (knows_of_within copies serves)
  scopes scope hides := by
    obtain rfl := (hides_iff copies serves).mp hides
    have veiled : (stage copies serves).veiled template.scope = true := beq_self_eq_true _
    have same : (mirror copies serves).moves.maps.place template.scope = place template.scope :=
      place_map world place (.inr rfl)
    rw [veiled, same]
    exact ⟨fun name shares => copies.names name (shares rfl),
      fun name value shares held => knows_of_within copies serves (template.bound name value (shares rfl) held),
      fun _ => rfl, False.elim⟩
  bare one bare item member inner here := by
    obtain ⟨has, mapless⟩ := bare
    have within := template.items one has item member
    have leads {goal : Nat} (leads : template.heap.Leads (.map goal) item) : False :=
      mapless goal (.item rfl member leads)
    cases inner with
    | map goal => exact (leads (.here here)).elim
    | sequence next =>
        have hasNext := within.sequence here
        have same : item.place? = (Value.list next).place? := here
        refine ⟨next, rfl, ⟨hasNext, fun goal inside => leads (inside.congr same)⟩, ?_⟩
        have copied := copies.mem_sequence has member
        rw [place_sequence world place has] at copied
        refine Copies.height_lt (copies.founded one has) copied ?_
        rw [Value.place?_move, here]
        exact congrArg (some ∘ Heap.Place.sequence) (place_sequence world place hasNext)
  flat := by
    refine .inr ⟨fun one has => ?_, fun one has entry member => ?_⟩
    · have has := (hasSequence_iff copies serves).mp has
      obtain ⟨bound, nested⟩ := copies.founded one has
      refine ⟨bound, copies.nested (show Value.Within _ _ (.list one) from has) ?_⟩
      rwa [Value.move_list, place_sequence world place has]
    · have copied := copies.mem_entries has member
      rw [place_map world place (.inl has)] at copied
      exact copies.hashable (template.entries one has entry member).1 (copies.keys one has _ copied)
  keptSequences _ _ _ := rfl
  keptMaps _ _ _ _ := rfl

theorem dialect_world : template.world.state.dialect template.dialect = .standard template.options := by
  simp [Template.world, State.dialect]

/-- A dialect trusts no function that expressions have not defined, besides those of its tables. -/
theorem Serves.trusts {value : Value} (callable : value.isCallable = true) (serves : template.Serves world) :
    (world.state.dialect template.dialect).trusts (value.move (template.moves world place)) =
      (template.world.state.dialect template.dialect).trusts value := by
  obtain ⟨registered, extending, -⟩ := serves.table
  have table : world.state.dialect template.dialect = _ := extending.table
  have unknown : (registered.any fun entry =>
      entry.2.sameCallable (value.move (template.moves world place))) = false := by
    rw [List.any_eq_false]
    intro entry member same
    obtain ⟨serial, known, rfl, -, below⟩ := extending.entries entry member
    rw [Recursion.compiled_size] at below
    cases value with
    | defined one =>
        have equal : known = (template.moves world place).functions.place one := by
          simpa [Value.sameCallable] using same
        have above : world.closures.size ≤ (template.moves world place).functions.place one :=
          @Shift.target_le_place (template.moves world place).functions one (Nat.zero_le one)
        omega
    | builtin function => cases same
    | host serial name => cases same
    | _ => cases callable
  rw [table, dialect_world]
  simp only [Dialect.trusts, List.any_append, unknown, Bool.or_false, List.any_cons, Dialect.standard]
  cases value with
  | defined one => rfl
  | builtin function => rfl
  | host serial name => rfl
  | _ => cases callable

theorem mirrors : (stage copies serves).Mirrors template.world world := by
  obtain ⟨registered, extending, plain⟩ := serves.table
  have table : world.state.dialect template.dialect = _ := extending.table
  have entries := extending.entries
  have stands (word : Text) : (standardFunctions.get? word).map (·.move (template.moves world place)) =
      standardFunctions.get? word := by
    cases found : standardFunctions.get? word with
    | none => rfl
    | some function =>
        obtain ⟨builtin, rfl⟩ := Table.builtin_of_mem (List.mem_map_of_mem (Table.mem_of_get? found))
        rfl
  have tables : (stage copies serves).Tables (template.world.state.dialect template.dialect)
      (world.state.dialect template.dialect) := by
    constructor
    · rw [dialect_world]
      exact Dialect.operates_standard _
    · rw [table]
      exact ⟨rfl, rfl, rfl⟩
    · rw [dialect_world]
      rfl
    · rw [table]
      rfl
    · intro word reads
      have unread : registered.get? word = none := by
        rcases reads with aligned | other
        · rw [plain aligned]
          rfl
        · by_contra found
          obtain ⟨function, found⟩ := Option.ne_none_iff_exists'.mp found
          obtain ⟨serial, _, same, -⟩ := entries _ (Table.mem_of_get? found)
          exact other serial (congrArg Prod.fst same)
      rw [table, dialect_world]
      refine (List.lookup_append.trans ?_).trans (stands word).symm
      exact (congrArg _ unread).trans (Option.or_none ..)
    · rw [dialect_world]
      exact fun word standard => standard
    · rw [dialect_world]
      exact fun entry member => .inl member
    · rw [table]
      intro entry member
      refine (List.mem_append.mp member).imp_right fun added => ?_
      obtain ⟨serial, known, same, -⟩ := entries entry added
      exact ⟨known, serial, same⟩
    · exact fun value callable _ => serves.trusts callable
  constructor
  · exact stage_reflects copies serves
  · exact tables
  · intro entry member serial _
    have member : entry ∈ (template.world.state.dialect template.dialect).functions := member
    rw [dialect_world] at member
    exact standard_unregistered member serial
  · intro entry member serial later
    have member : entry ∈ (world.state.dialect template.dialect).functions := member
    rw [table] at member
    rcases List.mem_append.mp member with standard | added
    · exact standard_unregistered standard serial
    · obtain ⟨number, _, rfl, below, -⟩ := entries entry added
      have below : number < world.state.definitions := below
      intro same
      have equal := registeredName_injective same
      omega
  · exact serves.seed
  · exact (Nat.add_sub_of_le serves.counted).symm
  · rfl
  · exact (@Shift.place_new (mirror copies serves).moves.functions _ (Nat.le_refl _)).symm
  · intro one has
    exact (has.resolve_left id).elim fun _ below => (Nat.not_lt_zero _ below).elim

/-- A term whose names mean the same to all copies, and may be bound where it binds them. -/
structure Admits (template : Template) (term : Term) : Prop where
  ordinary : term.ordinary = true
  literals : ∀ value, .literal value ∈ term.code.contents → value.isScalar = true
  reads : ∀ word, .name word ∈ term.code.contents → template.aligned ∨ ∀ serial, word ≠ registeredName serial
  means : ∀ word, .name word ∈ term.code.contents → template.shares word ∨ template.options.Settles word
  targets : ∀ word, .target word ∈ term.code.contents → template.binds word = true

theorem Admits.fits {term : Term} (admits : template.Admits term) :
    (mirror copies serves).Fits (fun _ => False) true term where
  ordinary := admits.ordinary
  contents instruction member := by
    cases instruction with
    | literal value => exact .inl (admits.literals value member)
    | name word => exact .inr ⟨admits.reads word member, (admits.means word member).imp_left fun shares _ => shares⟩
    | target word => exact fun _ => admits.targets word member
    | _ => trivial
  assigned name member _ := admits.targets name (term.target_of_assigned member)

/-- What a term comes to on the template, it comes to on a copy. -/
theorem ends {term : Term} (admits : template.Admits term) (depth : Nat) :
    (stage copies serves).Ends Mirror.Stage.Same
      (Recursion.evaluate depth template.dialect term template.scope template.world)
      (Recursion.evaluate depth template.dialect term (place template.scope) world) := by
  have veiled : (stage copies serves).veiled template.scope = true := beq_self_eq_true _
  have follows := @Mirror.Stage.follows_perform (mirror copies serves) 0 (.inr (Nat.le_refl 0)) (.inr rfl) depth
  have ran := follows.runs (stage copies serves) template.scope _ _ (.inr (.inl rfl))
    (.whole (veiled.symm ▸ (admits.fits copies serves).twins)) _ _ (mirrors copies serves)
  have same : (mirror copies serves).moves.maps.place template.scope = place template.scope :=
    place_map world place (.inr rfl)
  rwa [same] at ran

end

end Template

end Formula
