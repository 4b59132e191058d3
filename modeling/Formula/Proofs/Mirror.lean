import Formula.Proofs.Exchange
import Formula.Proofs.Renaming

/-!
The data of two runs side by side, in heaps that hold much else. The second run does in moved places what
the first one does: it may start in a heap that has grown meanwhile, or that holds other data besides.
Over some scopes lies a veil, and under it the runs agree on some names only.
-/

namespace Formula

/-- Whether a key is one of some names. -/
def Value.isName (names : Text → Bool) : Value → Bool
  | .text name => names name
  | _ => false

/-- Entries but for those of some names. -/
def Entries.besides (names : Text → Bool) (entries : Entries) : Entries :=
  entries.filter fun entry => !entry.1.isName names

section

variable {names : Text → Bool}

theorem Entries.besides_cons (key value : Value) (rest : Entries) :
    Entries.besides names ((key, value) :: rest) =
      if key.isName names = true then rest.besides names else (key, value) :: rest.besides names := by
  cases covered : key.isName names <;> simp [besides, covered]

theorem Entries.besides_none (entries : Entries) : entries.besides (List.contains [] ·) = entries := by
  refine List.filter_eq_self.mpr fun entry _ => ?_
  cases entry.1 <;> rfl

theorem Value.isName_of_spells {key : Value} {name : Text} (spells : key.spells name = true) :
    key.isName names = names name := by
  cases key with
  | text known =>
      obtain rfl : known = name := beq_iff_eq.mp spells
      rfl
  | _ => cases spells

theorem named_besides {name : Text} (free : names name = false) (entries : Entries) :
    named (entries.besides names) name = named entries name := by
  induction entries with
  | nil => rfl
  | cons entry rest ih =>
      obtain ⟨key, value⟩ := entry
      rw [Entries.besides_cons, named_cons]
      cases spells : key.spells name with
      | true =>
          rw [Value.isName_of_spells spells, free, if_neg Bool.false_ne_true, named_cons, spells,
            if_pos rfl, if_pos rfl]
      | false =>
          split
          · exact ih
          · rw [named_cons, spells]
            exact ih

/-- Binding one of the names leaves the others as they are. -/
theorem Heap.besides_bind (heap : Heap) {word : Text} (covered : names word = true) (value : Value)
    (entries : Entries) : (heap.bind (.text word) value entries).besides names = entries.besides names := by
  induction entries with
  | nil => simp [Heap.bind, Entries.besides, Value.isName, covered]
  | cons entry rest ih =>
      obtain ⟨key, old⟩ := entry
      simp only [Heap.bind, Heap.equal_text]
      split
      · rename_i same
        rw [Entries.besides_cons, Entries.besides_cons, Value.isName_of_spells same, if_pos covered,
          if_pos covered]
      · rw [Entries.besides_cons, Entries.besides_cons, ih]

end

/-- Whether a name means the same in every scope: it is reserved, or a function, or an operator that is
switched on. -/
def Options.Settles (options : Options) (word : Text) : Prop :=
  Text.isReserved word = true ∨ standardFunctions.get? word ≠ none ∨
    standardUnary.get? word ≠ none ∧ (Dialect.standard options).enables word = true

/-- What is seen of a scope under a veil: which names may be bound there, and which mean the same to both
runs. In the second run all other names stay bound as they are. -/
structure Veil (options : Options) where
  binds : Text → Bool
  shares : Text → Prop
  /-- What the second run holds under names that are not bound. -/
  rest : Entries
  /-- Scalars among it. -/
  known : Entries
  /-- Whether the veil lies over the scopes of calls, too, that are copies of a veiled one. -/
  lasts : Bool
  knowable : Knowable options known
  rests : ∀ {name value}, named known name = some value →
    binds name = false ∧ named rest name = some value
  thin : lasts = false → ∀ name, shares name

/-- What stays as it is during the runs: where the second one does what the first one does, and which data
of the first heap they may come upon. -/
structure Mirror where
  moves : Renaming
  /-- By how much the numbers of definitions differ. -/
  definitions : Nat
  sequences : Nat → Prop
  maps : Nat → Prop
  /-- Scopes of before that are no values. -/
  scopes : Nat → Prop
  functions : Nat → Prop
  /-- The functions of before that the dialect trusts. -/
  trusted : Nat → Prop
  /-- Sequences of before that hold no mapping, at any depth, and how high they are. -/
  bare : Nat → Prop
  height : Nat → Nat
  /-- The first heap, before the runs. -/
  origin : Heap
  options : Options
  dialect : Nat
  veil : Veil options
  /-- Whether nothing is moved at all. -/
  still : Prop
  /-- Whether scopes are the same in both runs, and not just for the names that both look up. -/
  exact : Prop
  /-- Whether the first run may lack fuel where the second does not, and the other way round. -/
  early : Prop
  late : Prop
  /-- Whether both runs register functions under the same names. -/
  aligned : Prop
  /-- Whether terms may take the place of others. -/
  alters : Prop
  /-- The fuel in which the second run finds the value of such a term. -/
  effort : Nat
  sequences_old : ∀ place, sequences place → place < moves.sequences.base
  sequences_below : ∀ place, sequences place → moves.sequences.place place < moves.sequences.target
  sequences_apart : ∀ one other, sequences one → sequences other →
    moves.sequences.place one = moves.sequences.place other →
      one = other ∨ bare one ∧ bare other ∧ height one = height other
  bare_known : ∀ place, bare place → sequences place
  maps_old : ∀ place, maps place ∨ scopes place → place < moves.maps.base
  maps_below : ∀ place, maps place ∨ scopes place → moves.maps.place place < moves.maps.target
  maps_apart : ∀ one other, maps one ∨ scopes one → maps other ∨ scopes other →
    moves.maps.place one = moves.maps.place other → one = other
  unvalued : ∀ scope, scopes scope → ¬ maps scope
  uncounted : aligned → definitions = 0
  trusted_known : ∀ place, trusted place → functions place
  steady : still → (∀ value : Value, value.move moves = value) ∧ definitions = 0 ∧ ∀ place, ¬ bare place

namespace Mirror

variable (mirror : Mirror)

/-- What has come up so far: sequences, scopes, and which of them are veiled. -/
structure World where
  sequences : Nat
  maps : Nat
  veiled : Nat → Bool
  sequences_based : mirror.moves.sequences.base ≤ sequences
  maps_based : mirror.moves.maps.base ≤ maps
  unveiled : ∀ scope, mirror.maps scope → veiled scope = false

/-- Whether a name may be bound. -/
def Binds (veiled : Bool) (name : Text) : Prop := veiled = true → mirror.veil.binds name = true

/-- Whether a name means the same to both runs. -/
def Shares (veiled : Bool) (name : Text) : Prop := veiled = true → mirror.veil.shares name

/-- Whether a veil lies over the scope of a call, that is a copy of another one. -/
def inner (veiled : Bool) : Bool := veiled && mirror.veil.lasts

variable {mirror}

theorem Binds.inner {veiled : Bool} {name : Text} (binds : mirror.Binds veiled name) :
    mirror.Binds (mirror.inner veiled) name :=
  fun under => binds (Bool.and_eq_true_iff.mp under).1

theorem Shares.inner {veiled : Bool} {name : Text} (shares : mirror.Shares veiled name) :
    mirror.Shares (mirror.inner veiled) name :=
  fun under => shares (Bool.and_eq_true_iff.mp under).1

theorem inner_inner (veiled : Bool) : mirror.inner (mirror.inner veiled) = mirror.inner veiled := by
  rw [inner, inner, Bool.and_assoc, Bool.and_self]

namespace World

structure Reaches (before after : mirror.World) : Prop where
  sequences : before.sequences ≤ after.sequences
  maps : before.maps ≤ after.maps
  veiled : ∀ scope, scope < before.maps → after.veiled scope = before.veiled scope

variable (world : mirror.World)

def HasSequence (place : Nat) : Prop :=
  mirror.sequences place ∨ mirror.moves.sequences.base ≤ place ∧ place < world.sequences

/-- Scopes that are no values: those of before and those of calls. -/
def Hides (scope : Nat) : Prop :=
  mirror.scopes scope ∨ mirror.moves.maps.base ≤ scope ∧ scope < world.maps

def HasScope (scope : Nat) : Prop := mirror.maps scope ∨ world.Hides scope

/-- Values that the runs may come upon. Calls make scopes, but no scope that a call made is ever a value.
-/
def Knows : Value → Prop
  | .tuple place | .list place => world.HasSequence place
  | .map place | .object place => mirror.maps place
  | .builtin function => mirror.still ∨ (Value.builtin function).rebinds = false
  | .defined place => mirror.functions place ∨ mirror.moves.functions.base ≤ place
  | _ => True

/-- Two scopes that hold shared names alike. -/
structure Alike (veiled : Bool) (one two : Entries) : Prop where
  same : ∀ name, mirror.Shares veiled name →
    named two name = (named one name).map (·.move mirror.moves)
  known : ∀ name value, mirror.Shares veiled name → named one name = some value → world.Knows value
  besides : veiled = true → two.besides mirror.veil.binds = mirror.veil.rest
  exact : mirror.exact → two = one.move mirror.moves

/-- Two heaps of which the second holds in moved places what the first one holds. -/
structure Reflects (one two : Heap) : Prop where
  sizeSequences : one.sequences.size = world.sequences
  sizeSequencesTwo : two.sequences.size = mirror.moves.sequences.place world.sequences
  sizeMaps : one.maps.size = world.maps
  sizeMapsTwo : two.maps.size = mirror.moves.maps.place world.maps
  sequences : ∀ place, world.HasSequence place →
    two.sequence (mirror.moves.sequences.place place) = (one.sequence place).map (·.move mirror.moves)
  items : ∀ place, world.HasSequence place → ∀ item ∈ one.sequence place, world.Knows item
  maps : ∀ place, mirror.maps place →
    two.entries (mirror.moves.maps.place place) = (one.entries place).move mirror.moves
  entries : ∀ place, mirror.maps place → ∀ entry ∈ one.entries place,
    world.Knows entry.1 ∧ world.Knows entry.2
  scopes : ∀ scope, world.Hides scope →
    world.Alike (world.veiled scope) (one.entries scope) (two.entries (mirror.moves.maps.place scope))
  bare : ∀ place, mirror.bare place → ∀ item ∈ one.sequence place, ∀ inner, item.place? = some inner →
    ∃ next, inner = .sequence next ∧ mirror.bare next ∧ mirror.height next < mirror.height place
  /-- If places are moved, then fuel must not matter: no sequence holds itself, and keys may be keys. -/
  flat : mirror.still ∨
    (∀ place, world.HasSequence place → ∃ bound, Nested one.elements bound (.list place)) ∧
      ∀ place, mirror.maps place → ∀ entry ∈ one.entries place, one.Hashable entry.1
  keptSequences : ∀ place, place < mirror.moves.sequences.base → ¬ mirror.sequences place →
    one.sequence place = mirror.origin.sequence place
  keptMaps : ∀ place, place < mirror.moves.maps.base → ¬ mirror.maps place → ¬ mirror.scopes place →
    one.entries place = mirror.origin.entries place

variable {world} {after : mirror.World} {one two : Heap}

theorem Reaches.refl (world : mirror.World) : world.Reaches world :=
  ⟨Nat.le_refl _, Nat.le_refl _, fun _ _ => rfl⟩

theorem Reaches.trans {first second third : mirror.World} (left : first.Reaches second)
    (right : second.Reaches third) : first.Reaches third where
  sequences := Nat.le_trans left.sequences right.sequences
  maps := Nat.le_trans left.maps right.maps
  veiled scope below :=
    (right.veiled scope (Nat.lt_of_lt_of_le below left.maps)).trans (left.veiled scope below)

theorem HasSequence.later (reaches : world.Reaches after) {place : Nat} (has : world.HasSequence place) :
    after.HasSequence place :=
  has.imp_right fun new => ⟨new.1, Nat.lt_of_lt_of_le new.2 reaches.sequences⟩

theorem HasSequence.below {place : Nat} (has : world.HasSequence place) : place < world.sequences :=
  has.elim (fun old => Nat.lt_of_lt_of_le (mirror.sequences_old place old) world.sequences_based) (·.2)

/-- Sequences keep apart when they are moved, bare ones as far as their height tells them apart. -/
theorem HasSequence.apart {place other : Nat} (has : world.HasSequence place)
    (hasOther : world.HasSequence other)
    (same : mirror.moves.sequences.place place = mirror.moves.sequences.place other) :
    place = other ∨ mirror.bare place ∧ mirror.bare other ∧ mirror.height place = mirror.height other := by
  rcases has with old | ⟨new, -⟩ <;> rcases hasOther with oldOther | ⟨newOther, -⟩
  · exact mirror.sequences_apart _ _ old oldOther same
  · have below := mirror.sequences_below _ old
    have above := Shift.target_le_place newOther
    omega
  · have below := mirror.sequences_below _ oldOther
    have above := Shift.target_le_place new
    omega
  · exact .inl (Shift.place_new_injective new newOther same)

theorem Hides.later (reaches : world.Reaches after) {scope : Nat} (hides : world.Hides scope) :
    after.Hides scope :=
  hides.imp_right fun new => ⟨new.1, Nat.lt_of_lt_of_le new.2 reaches.maps⟩

/-- No scope of these is a value. -/
theorem Hides.unvalued {scope : Nat} (hides : world.Hides scope) : ¬ mirror.maps scope := by
  intro map
  rcases hides with old | ⟨new, -⟩
  · exact mirror.unvalued scope old map
  · exact Nat.not_lt.mpr new (mirror.maps_old scope (.inl map))

theorem HasScope.later (reaches : world.Reaches after) {scope : Nat} (has : world.HasScope scope) :
    after.HasScope scope :=
  has.imp_right (·.later reaches)

theorem HasScope.old_or_new {scope : Nat} (has : world.HasScope scope) :
    (mirror.maps scope ∨ mirror.scopes scope) ∨ mirror.moves.maps.base ≤ scope ∧ scope < world.maps :=
  or_assoc.mpr has

theorem HasScope.below {scope : Nat} (has : world.HasScope scope) : scope < world.maps :=
  has.old_or_new.elim
    (fun old => Nat.lt_of_lt_of_le (mirror.maps_old scope old) world.maps_based) (·.2)

/-- Scopes keep apart when they are moved. -/
theorem HasScope.apart {scope other : Nat} (has : world.HasScope scope) (hasOther : world.HasScope other)
    (same : mirror.moves.maps.place scope = mirror.moves.maps.place other) : scope = other := by
  rcases has.old_or_new with old | ⟨new, -⟩ <;> rcases hasOther.old_or_new with oldOther | ⟨newOther, -⟩
  · exact mirror.maps_apart _ _ old oldOther same
  · have below := mirror.maps_below _ old
    have above := Shift.target_le_place newOther
    omega
  · have below := mirror.maps_below _ oldOther
    have above := Shift.target_le_place new
    omega
  · exact Shift.place_new_injective new newOther same

/-- Where a scope is in the second run. -/
theorem HasScope.place_below {scope : Nat} (has : world.HasScope scope) :
    mirror.moves.maps.place scope < mirror.moves.maps.place world.maps := by
  have last := Shift.place_new world.maps_based
  rcases has.old_or_new with old | ⟨new, below⟩
  · have inside := mirror.maps_below scope old
    omega
  · rw [last, Shift.place_new new]
    omega

theorem HasSequence.place_below {place : Nat} (has : world.HasSequence place) :
    mirror.moves.sequences.place place < mirror.moves.sequences.place world.sequences := by
  have last := Shift.place_new world.sequences_based
  rcases has with old | ⟨new, below⟩
  · have inside := mirror.sequences_below place old
    omega
  · rw [last, Shift.place_new new]
    omega

theorem Knows.later (reaches : world.Reaches after) {value : Value} (known : world.Knows value) :
    after.Knows value := by
  cases value with
  | tuple place => exact HasSequence.later reaches known
  | list place => exact HasSequence.later reaches known
  | _ => exact known

theorem knows_scalar {value : Value} (scalar : value.isScalar = true) : world.Knows value := by
  cases value <;> trivial

theorem hasSequence_of_place? {value : Value} {place : Nat} (known : world.Knows value)
    (here : value.place? = some (.sequence place)) : world.HasSequence place := by
  cases value <;> cases here <;> exact known

theorem maps_of_place? {value : Value} {place : Nat} (known : world.Knows value)
    (here : value.place? = some (.map place)) : mirror.maps place := by
  cases value <;> cases here <;> exact known

theorem Alike.later (reaches : world.Reaches after) {veiled : Bool} {left right : Entries}
    (alike : world.Alike veiled left right) : after.Alike veiled left right where
  same := alike.same
  known name value shares found := (alike.known name value shares found).later reaches
  besides := alike.besides
  exact := alike.exact

/-- A name that is not bound under a veil is bound as it was. -/
theorem Alike.named_known {left right : Entries} (alike : world.Alike true left right) {name : Text}
    {value : Value} (known : named mirror.veil.known name = some value) :
    named right name = some value := by
  obtain ⟨free, held⟩ := mirror.veil.rests known
  rw [← named_besides free, alike.besides rfl, held]

/-- The copy of a scope lies under a veil as far as the veil lasts. -/
theorem Alike.inner {veiled : Bool} {left right : Entries} (alike : world.Alike veiled left right) :
    world.Alike (mirror.inner veiled) left right := by
  have shares {name : Text} (inside : mirror.Shares (mirror.inner veiled) name) :
      mirror.Shares veiled name := by
    rintro rfl
    cases lasts : mirror.veil.lasts with
    | true => exact inside lasts
    | false => exact mirror.veil.thin lasts name
  exact ⟨fun name inside => alike.same name (shares inside),
    fun name value inside => alike.known name value (shares inside),
    fun under => alike.besides (Bool.and_eq_true_iff.mp under).1, alike.exact⟩

namespace Reflects

variable (reflects : world.Reflects one two)

include reflects

/-- What nests finitely still does when a sequence is added. -/
theorem nested_push {items : List Value} {bound : Nat} {value : Value} (known : world.Knows value)
    (nested : Nested one.elements bound value) :
    Nested (one.addSequence items).2.elements bound value := by
  induction bound generalizing value with
  | zero => exact nested.elim
  | succ bound ih =>
      intro place here item member
      cases place with
      | map place => cases member
      | sequence place =>
          have has := hasSequence_of_place? known here
          have other : place ≠ one.sequences.size := by
            have below := has.below
            rw [reflects.sizeSequences]
            omega
          have member : item ∈ one.sequence place := by
            rwa [Heap.elements, Heap.sequence_push, if_neg other] at member
          exact ih (reflects.items place has item member) (nested _ here item member)

/-- What may be a key still may when a sequence is added. -/
theorem hashable_push {items : List Value} {value : Value} (known : world.Knows value)
    (key : one.Hashable value) : (one.addSequence items).2.Hashable value := by
  obtain ⟨depth, key⟩ := key
  refine ⟨depth, ?_⟩
  induction depth generalizing value with
  | zero => cases key
  | succ depth ih =>
      cases value with
      | tuple place =>
          have has : world.HasSequence place := known
          have other : place ≠ one.sequences.size := by
            have below := has.below
            rw [reflects.sizeSequences]
            omega
          have keys : (one.sequence place).all (one.isKeyWithin depth) = true := key
          rw [List.all_eq_true] at keys
          change ((one.addSequence items).2.sequence place).all _ = true
          rw [Heap.sequence_push, if_neg other, List.all_eq_true]
          exact fun item member => ih (reflects.items place has item member) (keys item member)
      | _ => exact key

omit reflects in
theorem founded (flat : ∀ place, world.HasSequence place → ∃ bound, Nested one.elements bound (.list place))
    {value : Value} (known : world.Knows value) : ∃ bound, Nested one.elements bound value := by
  cases here : value.place? with
  | none => exact ⟨1, fun place found => by rw [here] at found; cases found⟩
  | some place =>
      cases place with
      | map place =>
          refine ⟨1, fun found same item member => ?_⟩
          rw [here] at same
          cases same
          cases member
      | sequence place =>
          obtain ⟨bound, nested⟩ := flat place (hasSequence_of_place? known here)
          refine ⟨bound + 1, fun found same item member => ?_⟩
          rw [here] at same
          cases same
          exact nested.succ _ rfl item member

/-- A moved value nests as deep as the value. -/
theorem nested_move {bound : Nat} {value : Value} (known : world.Knows value)
    (nested : Nested one.elements bound value) : Nested two.elements bound (value.move mirror.moves) := by
  induction bound generalizing value with
  | zero => exact nested.elim
  | succ bound ih =>
      intro place there item member
      rw [Value.place?_move, Option.map_eq_some_iff] at there
      obtain ⟨old, here, rfl⟩ := there
      cases old with
      | map place => cases member
      | sequence place =>
          have has := hasSequence_of_place? known here
          have member : item ∈ two.sequence (mirror.moves.sequences.place place) := member
          rw [reflects.sequences place has] at member
          obtain ⟨origin, among, rfl⟩ := List.mem_map.mp member
          exact ih (reflects.items place has origin among) (nested _ here origin among)

/-- What may be a key still may when it is moved. -/
theorem hashable_move {value : Value} (known : world.Knows value) (key : one.Hashable value) :
    two.Hashable (value.move mirror.moves) := by
  obtain ⟨depth, key⟩ := key
  refine ⟨depth, ?_⟩
  induction depth generalizing value with
  | zero => cases key
  | succ depth ih =>
      cases value with
      | tuple place =>
          have keys : (one.sequence place).all (one.isKeyWithin depth) = true := key
          rw [List.all_eq_true] at keys
          change (two.sequence (mirror.moves.sequences.place place)).all _ = true
          rw [reflects.sequences place known, List.all_map, List.all_eq_true]
          exact fun item member => ih (reflects.items place known item member) (keys item member)
      | _ => exact key

theorem plain (keys : ∀ place, mirror.maps place → ∀ entry ∈ one.entries place, one.Hashable entry.1) :
    one.Plain world.Knows where
  items _ place known here :=
    reflects.items place (hasSequence_of_place? known (Value.place?_of_sequence? here))
  entries _ place known here entry member :=
    have map := maps_of_place? known here
    ⟨keys place map entry member, (reflects.entries place map entry member).2⟩

theorem plainTwo (keys : ∀ place, mirror.maps place → ∀ entry ∈ one.entries place, one.Hashable entry.1) :
    two.Plain fun value => ∃ known, world.Knows known ∧ value = known.move mirror.moves where
  items := by
    rintro _ place ⟨value, known, rfl⟩ there item member
    rw [Value.sequence?_move, Option.map_eq_some_iff] at there
    obtain ⟨place, here, rfl⟩ := there
    have has := hasSequence_of_place? known (Value.place?_of_sequence? here)
    rw [reflects.sequences place has] at member
    obtain ⟨origin, among, rfl⟩ := List.mem_map.mp member
    exact ⟨origin, reflects.items place has origin among, rfl⟩
  entries := by
    rintro _ place ⟨value, known, rfl⟩ there entry member
    rw [Value.place?_move, Option.map_eq_some_iff] at there
    obtain ⟨old, here, moved⟩ := there
    cases old with
    | sequence old => cases moved
    | map old =>
        cases moved
        have map := maps_of_place? known here
        rw [reflects.maps old map] at member
        obtain ⟨origin, among, rfl⟩ := List.mem_map.mp member
        have known := reflects.entries old map origin among
        exact ⟨reflects.hashable_move known.1 (keys old map origin among), origin.2, known.2, rfl⟩

/-- Operations on known values come to the same in both heaps. -/
theorem renamed : one.Renamed mirror.moves world.Knows two where
  sequences _ _ known here := reflects.sequences _ (hasSequence_of_place? known here)
  items _ _ known here := reflects.items _ (hasSequence_of_place? known here)
  maps _ _ known here := reflects.maps _ (maps_of_place? known here)
  entries _ _ known here := reflects.entries _ (maps_of_place? known here)
  apart := by
    refine ⟨mirror.bare, mirror.height, fun left right one other known knownOther here there => ?_,
      fun left right one other known knownOther here there => ?_, reflects.bare⟩
    · exact mirror.maps_apart _ _ (.inl (maps_of_place? known here)) (.inl (maps_of_place? knownOther there))
    · exact (hasSequence_of_place? known here).apart (hasSequence_of_place? knownOther there)
  steady := by
    rcases reflects.flat with still | ⟨flat, keys⟩
    · have stays := (mirror.steady still).1
      have depth : two.depth = one.depth := by
        rw [Heap.depth, Heap.depth, reflects.sizeSequences, reflects.sizeMaps,
          reflects.sizeSequencesTwo, reflects.sizeMapsTwo, Value.list.inj (stays (.list _)),
          Value.map.inj (stays (.map _))]
      exact ⟨one.depth, one.steady_depth _, depth ▸ two.steady_depth _⟩
    · refine ⟨max one.depth two.depth, ?_, ?_⟩
      · exact Heap.steady_of_founded (reflects.plain keys) (fun value known => founded flat known)
          (Nat.le_max_left ..)
      · refine Heap.steady_of_founded (reflects.plainTwo keys) ?_ (Nat.le_max_right ..)
        rintro _ ⟨value, known, rfl⟩
        exact (founded flat known).imp fun bound nested => reflects.nested_move known nested

/-- Scopes hold names alike. -/
theorem alike {scope : Nat} (has : world.HasScope scope) :
    world.Alike (world.veiled scope) (one.entries scope)
      (two.entries (mirror.moves.maps.place scope)) := by
  rcases has with map | hides
  · rw [reflects.maps scope map, world.unveiled scope map]
    refine ⟨fun name _ => named_move .., fun name value _ found => ?_, nofun, fun _ => rfl⟩
    obtain ⟨entry, member, rfl⟩ := mem_of_named found
    exact (reflects.entries scope map entry member).2
  · exact reflects.scopes scope hides

end Reflects

end World

end Mirror

end Formula
