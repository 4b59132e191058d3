import Formula.Proofs.Agreement
import Formula.Proofs.Contexts
import Formula.Proofs.Correctness
import Formula.Proofs.Framing

/-!
Evaluations do not show in other contexts. What a dialect does in some contexts leaves alone each one that
shares nothing with them; in the tables it leaves no more than functions under names of their own.
-/

namespace Formula

open Machine
open Recursion (World)

namespace Heap.Shares

variable {one two : Heap} {value other item : Value} {place : Heap.Place} (shares : one.Shares two value)

include shares

/-- What is shared is shared as far as it leads. -/
theorem trans (leads : one.Leads place value) (there : other.place? = some place) : one.Shares two other where
  sequences goal further := shares.sequences goal (leads.trans there further)
  maps goal further := shares.maps goal (leads.trans there further)

theorem held (leads : one.Leads place value) (member : item ∈ one.held place) : one.Shares two item where
  sequences goal further := shares.sequences goal (leads.onward member further)
  maps goal further := shares.maps goal (leads.onward member further)

/-- What nests finitely does so wherever it is shared. -/
theorem nested {bound : Nat} (nested : Nested one.elements bound value) :
    Nested two.elements bound value := by
  induction bound generalizing value with
  | zero => exact nested.elim
  | succ bound ih =>
      intro place here item member
      cases place with
      | map place => cases member
      | sequence place =>
          have member : item ∈ two.sequence place := member
          rw [shares.sequences place (.here here)] at member
          exact ih (shares.held (.here here) member) (nested _ here item member)

/-- What may be a key may be one wherever it is shared. -/
theorem hashable (key : one.Hashable value) : two.Hashable value := by
  obtain ⟨depth, key⟩ := key
  refine ⟨depth, ?_⟩
  induction depth generalizing value with
  | zero => cases key
  | succ depth ih =>
      cases value with
      | tuple place =>
          have keys : (one.sequence place).all (one.isKeyWithin depth) = true := key
          rw [List.all_eq_true] at keys
          change (two.sequence place).all (two.isKeyWithin depth) = true
          rw [shares.sequences place (.here rfl), List.all_eq_true]
          exact fun item member => ih (shares.held (.here rfl) member) (keys item member)
      | _ => exact key

end Heap.Shares

/-! The context, as a template of which two states hold a copy in the same places. -/

namespace Heap.PlainContext

variable {heap : Heap} {scope : Nat} (plain : heap.PlainContext scope)

include plain in
/-- What the context leads to consists of scalars and of what else it leads to, itself excepted. -/
theorem within {place : Place} {item : Value} (leads : heap.Leads place (.map scope))
    (member : item ∈ heap.held place) : item.Within (fun place => heap.Leads (.sequence place) (.map scope))
      fun place => heap.Leads (.map place) (.map scope) ∧ place ≠ scope := by
  have data := plain.data place leads item member
  have back := plain.not_leads_back leads member
  cases item with
  | tuple inner => exact leads.onward member (.here rfl)
  | list inner => exact leads.onward member (.here rfl)
  | map inner => exact ⟨leads.onward member (.here rfl), fun same => back (.here (congrArg (some ∘ Place.map) same))⟩
  | object inner =>
      exact ⟨leads.onward member (.here rfl), fun same => back (.here (congrArg (some ∘ Place.map) same))⟩
  | builtin function => cases data
  | defined inner => cases data
  | host serial name => cases data
  | _ => rfl

def template (options : Options) (dialect definitions seed : Nat) : Template where
  heap := heap
  scope := scope
  sequences place := heap.Leads (.sequence place) (.map scope)
  maps place := heap.Leads (.map place) (.map scope) ∧ place ≠ scope
  binds _ := true
  shares _ := True
  options := options
  dialect := dialect
  aligned := False
  definitions := definitions
  seed := seed
  inside _ leads := sequence_mem_places_iff.mp (plain.whole _ leads)
  insideMaps _ has := has.elim (fun leads => map_mem_places_iff.mp (plain.whole _ leads.1))
    fun same => same ▸ plain.inside
  unvalued has := has.2 rfl
  items _ leads _ member := plain.within leads member
  entries _ has _ member := (mem_held_of_entry member).imp (plain.within has.1) (plain.within has.1)
  bound _ _ _ found := plain.within (.here rfl) (mem_held_of_named found)

variable {options : Options} {dialect definitions seed : Nat}

include plain in
/-- In its own place a part of the context is not moved. -/
theorem move_held (world : World) {place : Place} {item : Value} (leads : heap.Leads place (.map scope))
    (member : item ∈ heap.held place) :
    item.move ((plain.template options dialect definitions seed).moves world id) = item := by
  have within := plain.within leads member
  cases item with
  | tuple inner => exact congrArg Value.tuple (Template.place_sequence world id within)
  | list inner => exact congrArg Value.list (Template.place_sequence world id within)
  | map inner => exact congrArg Value.map (Template.place_map world id (.inl within))
  | object inner => exact congrArg Value.object (Template.place_map world id (.inl within))
  | defined inner => cases within
  | _ => rfl

/-- A world that shares all of the context has a copy of it. -/
theorem copies {world : World} (shares : heap.Shares world.state.heap (.map scope))
    (sequences : heap.sequences.size ≤ world.state.heap.sequences.size)
    (maps : heap.maps.size ≤ world.state.heap.maps.size) :
    (plain.template options dialect definitions seed).Copies world id := by
  have same {place : Place} (leads : heap.Leads place (.map scope)) {item : Value}
      (member : item ∈ heap.held place) :=
    @plain.move_held _ _ options dialect definitions seed world place item leads member
  have moved {place : Nat} (leads : heap.Leads (.map place) (.map scope)) :
      (heap.entries place).move ((plain.template options dialect definitions seed).moves world id) =
        heap.entries place := by
    refine (List.map_congr_left fun entry member => ?_).trans (List.map_id _)
    exact Prod.ext (same leads (mem_held_of_entry member).1) (same leads (mem_held_of_entry member).2)
  constructor
  · exact fun place leads => Nat.lt_of_lt_of_le (sequence_mem_places_iff.mp (plain.whole _ leads)) sequences
  · rintro place (has | rfl)
    · exact Nat.lt_of_lt_of_le (map_mem_places_iff.mp (plain.whole _ has.1)) maps
    · exact Nat.lt_of_lt_of_le plain.inside maps
  · exact fun _ _ _ _ equal => .inl equal
  · exact fun _ _ _ _ equal => equal
  · intro place leads
    refine (shares.sequences place leads).trans (Eq.symm ?_)
    exact (List.map_congr_left fun item member => same leads member).trans (List.map_id _)
  · exact fun place has => (shares.maps place has.1).trans (moved has.1).symm
  · intro name _
    refine (congrArg (named · name) (shares.maps scope (.here rfl))).trans ?_
    change named (heap.entries scope) name = (named (heap.entries scope) name).map _
    rw [← named_move, moved (.here rfl)]
  · intro place leads
    obtain ⟨bound, nested⟩ := plain.founded place leads
    exact ⟨bound, (shares.trans leads rfl).nested nested⟩
  · intro place has entry member
    have member : entry ∈ world.state.heap.entries place := member
    rw [shares.maps place has.1] at member
    exact (shares.held has.1 (mem_held_of_entry member).1).hashable (plain.keys place has.1 entry member)

end Heap.PlainContext

/-- What a dialect does elsewhere: it evaluates programs, one after another, in contexts that share nothing with
a given one, and neither do values in these programs. -/
inductive Elsewhere (dialect context : Nat) (first : State) : State → Prop
  | start : Elsewhere dialect context first first
  | evaluated {state after : State} {outcome : Except Failure Value} {program : Program} {scope : Nat}
      (earlier : Elsewhere dialect context first state) (circulating : Circulating program)
      (literals : ∀ value, .literal value ∈ program.contents →
        first.heap.Spares (first.heap.Leads · (.map context)) value)
      (apart : first.heap.Spares (first.heap.Leads · (.map context)) (.map scope)) (depth : Nat)
      (came : perform depth (.run dialect program scope) state = some (outcome, after)) :
      Elsewhere dialect context first after

/-- The start of runs beside themselves, away from a context. -/
def outside (world : World) (options : Options) (dialect context : Nat) : Footing where
  world := world
  options := options
  dialect := dialect
  scopes _ := false
  avoid place := world.compiled.heap.Leads place (.map context)
  trusted _ := False
  veil :=
    { binds := fun _ => true
      shares := fun _ => True
      rest := []
      known := []
      lasts := false
      knowable := knowable_nil options
      rests := nofun
      thin := fun _ _ => trivial }
  exact := False
  early := False
  late := False
  effort := 0
  inside _ := nofun
  avoided _ := nofun

section

variable {world : World} {options : Options} {dialect context : Nat}

theorem outside_ready (standard : world.state.dialect dialect = .standard options) :
    (outside world options dialect context).Ready where
  operates := standard ▸ Dialect.operates_standard options
  options := standard ▸ rfl
  standards word known := standard ▸ known
  entries entry member := by
    have member : entry ∈ (world.state.dialect dialect).functions := member
    rw [standard] at member
    exact .inl member
  functions _ := False.elim

theorem outside_beside : (outside world options dialect context).Beside world :=
  ⟨rfl, rfl, fun _ _ => rfl, nofun, rfl, rfl, rfl, rfl⟩

/-- After evaluations elsewhere the world still mirrors itself, away from the context. -/
theorem Elsewhere.mirrors {state : State} (standard : world.state.dialect dialect = .standard options)
    (elsewhere : Elsewhere dialect context world.compiled state) :
    ∃ (last : World) (stage : (outside world options dialect context).mirror.Stage),
      last.compiled = state ∧ stage.Mirrors last last := by
  induction elsewhere with
  | start => exact ⟨world, _, rfl, Footing.mirrors (outside_ready standard) outside_beside⟩
  | @evaluated _ _ _ _ scope earlier circulating literals apart depth came ih =>
      obtain ⟨last, stage, rfl, mirrors⟩ := ih
      obtain ⟨term, rfl⟩ := circulating.code
      obtain ⟨later, ran, rfl⟩ := @Recursion.perform_of_compiled _ (.run dialect (.whole term) scope) _ _ _ came
      have fits := @Footing.fits_of_spares (outside world options dialect context) term
        (Term.ordinary_of_disciplined circulating.disciplined)
        fun value held => (literals value held).in_heap rfl rfl
      have spares : (outside world options dialect context).Spares (.map scope) := apart.in_heap rfl rfl
      have ends := (Mirror.Stage.follows_perform (.inr (Nat.le_refl 0)) (.inr rfl) depth).runs stage scope _ _
        (.inl spares) (.whole ((stage.unveiled scope spares).symm ▸ fits.twins)) _ _ mirrors
      have same : (outside world options dialect context).mirror.moves.maps.place scope = scope :=
        Shift.place_still ..
      have ran : Recursion.perform depth (.run (outside world options dialect context).mirror.dialect
          (.whole term) scope) last = some (_, later) := ran
      rw [same, Nat.add_zero, ran] at ends
      cases ends with
      | ok _ mirrors _ => exact ⟨later, _, rfl, mirrors⟩
      | error _ mirrors _ => exact ⟨later, _, rfl, mirrors⟩

/-- What evaluations elsewhere leave of the tables. -/
theorem Elsewhere.extension {first state : State} (standard : first.dialect dialect = .standard options)
    (elsewhere : Elsewhere dialect context first state) :
    first.definitions ≤ state.definitions ∧ ∃ registered, state.Extends dialect options registered := by
  induction elsewhere with
  | start => exact ⟨Nat.le_refl _, [], .of_standard standard⟩
  | evaluated _ _ _ _ _ came ih => exact extension_lasts ih came

/-- Evaluations elsewhere leave a context and all that it leads to alone. -/
theorem shares_of_mirrors {last : World} {stage : (outside world options dialect context).mirror.Stage}
    (plain : world.state.heap.PlainContext context) (mirrors : stage.Mirrors last last) :
    world.state.heap.Shares last.state.heap (.map context) where
  sequences place leads := mirrors.heaps.keptSequences place
    (Heap.sequence_mem_places_iff.mp (plain.whole _ leads))
    fun spares => (spares _ (.here rfl)).2 (@Heap.Leads.in_heap world.state.heap _ _ world.compiled.heap rfl rfl leads)
  maps place leads := mirrors.heaps.keptMaps place (Heap.map_mem_places_iff.mp (plain.whole _ leads))
    (fun spares => (spares _ (.here rfl)).2 (@Heap.Leads.in_heap world.state.heap _ _ world.compiled.heap rfl rfl leads)) nofun

end

/-- Two contexts, of which the first is empty. -/
def emptyBeside : State where
  heap := { maps := #[[], [(.text (Text.ofString "x"), .int 2)]] }
  dialects := #[.standard {}]

theorem emptyBeside_plain : emptyBeside.heap.PlainContext 1 :=
  (Heap.unsharedContext_of_scalars (by decide) (by decide)).toPlainContext

/-- A dialect, two empty contexts and one more mapping. -/
def emptyContexts (dialect : Dialect) : State where
  heap := { maps := #[[], [], []] }
  dialects := #[dialect]

/-- A dialect with a mapping among its functions. -/
def mappingDialect : Dialect :=
  { Dialect.standard {} with functions := standardFunctions.insert (Text.ofString "k") (.map 2) }

end Formula
