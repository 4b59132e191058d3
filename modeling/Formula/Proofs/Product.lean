import Formula.Proofs.Agreement

/-!
The product of two contexts that agree: a template whose places are the pairs of places that are matched, so
that each of the two contexts is a copy of it.
-/

namespace Formula

/-- A number above all places of two heaps. -/
def Heap.span (one two : Heap) : Nat :=
  one.sequences.size + one.maps.size + two.sequences.size + two.maps.size + 1

/-- One place for two, the second of which is below a number. -/
def jointPlace (span here there : Nat) : Nat := here * span + there

section

variable {span here there : Nat}

theorem jointPlace_div (below : there < span) : jointPlace span here there / span = here := by
  rw [jointPlace, Nat.mul_comm, Nat.mul_add_div (Nat.zero_lt_of_lt below), Nat.div_eq_of_lt below, Nat.add_zero]

theorem jointPlace_mod (below : there < span) : jointPlace span here there % span = there := by
  rw [jointPlace, Nat.mul_comm, Nat.mul_add_mod, Nat.mod_eq_of_lt below]

theorem jointPlace_lt (belowHere : here < span) (below : there < span) :
    jointPlace span here there < span * span := by
  have rows : (here + 1) * span ≤ span * span := Nat.mul_le_mul_right span belowHere
  rw [Nat.succ_mul] at rows
  rw [jointPlace]
  omega

theorem eq_of_div_mod {code other : Nat} (div : code / span = other / span) (mod : code % span = other % span) :
    code = other := by
  rw [← Nat.div_add_mod code span, div, mod, Nat.div_add_mod]

end

/-- What stands for two values that are the same. -/
def Value.join (span : Nat) : Value → Value → Value
  | .tuple here, .tuple there => .tuple (jointPlace span here there)
  | .list here, .list there => .list (jointPlace span here there)
  | .map here, .map there => .map (jointPlace span here there)
  | .object here, .object there => .object (jointPlace span here there)
  | value, _ => value

/-- The first of two lists, from what stands for both. -/
theorem map_zipWith_left {α β γ : Type} {related : α → β → Prop} {join : α → β → γ} {first : γ → α}
    (back : ∀ left right, related left right → first (join left right) = left) {lefts : List α} {rights : List β}
    (all : List.Forall₂ related lefts rights) : (List.zipWith join lefts rights).map first = lefts := by
  induction all with
  | nil => rfl
  | cons here _ ih => rw [List.zipWith_cons_cons, List.map_cons, back _ _ here, ih]

theorem map_zipWith_right {α β γ : Type} {related : α → β → Prop} {join : α → β → γ} {second : γ → β}
    (back : ∀ left right, related left right → second (join left right) = right) {lefts : List α} {rights : List β}
    (all : List.Forall₂ related lefts rights) : (List.zipWith join lefts rights).map second = rights := by
  induction all with
  | nil => rfl
  | cons here _ ih => rw [List.zipWith_cons_cons, List.map_cons, back _ _ here, ih]

theorem mem_zipWith {α β γ : Type} {related : α → β → Prop} {join : α → β → γ} {lefts : List α} {rights : List β}
    (all : List.Forall₂ related lefts rights) {item : γ} (member : item ∈ List.zipWith join lefts rights) :
    ∃ left right, related left right ∧ item = join left right := by
  induction all with
  | nil => cases member
  | cons here _ ih =>
      rcases List.mem_cons.mp member with rfl | later
      · exact ⟨_, _, here, rfl⟩
      · exact ih later

/-- The bindings of some names. -/
def bindingsOf (values : Text → Option Value) (names : List Text) : Entries :=
  names.filterMap fun name => (values name).map fun value => (.text name, value)

theorem named_bindingsOf (values : Text → Option Value) (names : List Text) (name : Text) :
    named (bindingsOf values names) name = if name ∈ names then values name else none := by
  induction names with
  | nil => rfl
  | cons first rest ih =>
      rw [bindingsOf, List.filterMap_cons]
      by_cases same : first = name
      · subst same
        cases found : values first with
        | some value => simp [named_cons, Value.spells]
        | none =>
            change named (bindingsOf values rest) first = _
            rw [ih, found, ite_self, ite_self]
      · have among : (if name ∈ first :: rest then values name else none) =
            if name ∈ rest then values name else none := by simp [Ne.symm same]
        rw [among, ← ih]
        cases values first with
        | some value => simp [named_cons, Value.spells, same, bindingsOf]
        | none => rfl

namespace Matching

variable (matching : Matching) (names : List Text) (left right : Nat) (one two : Heap)

/-- What a name is bound to in both contexts. -/
def joinedValue (name : Text) : Option Value :=
  match named (one.entries left) name, named (two.entries right) name with
  | some value, some other => some (value.join (one.span two) other)
  | _, _ => none

/-- The heap of the pairs. -/
def joinedHeap : Heap where
  sequences := Array.ofFn fun code : Fin (one.span two * one.span two) =>
    List.zipWith (Value.join (one.span two)) (one.sequence (code / one.span two)) (two.sequence (code % one.span two))
  maps := Array.ofFn fun code : Fin (one.span two * one.span two) =>
    if code = jointPlace (one.span two) left right then bindingsOf (joinedValue left right one two) names
    else List.zipWith (fun entry other => (entry.1.join (one.span two) other.1, entry.2.join (one.span two) other.2))
      (one.entries (code / one.span two)) (two.entries (code % one.span two))

/-- The pairs of sequences that are matched. -/
def jointSequences (span code : Nat) : Prop :=
  code < span * span ∧ matching.sequences (code / span) (code % span)

/-- The pairs of mappings that are matched. -/
def jointMaps (span code : Nat) : Prop := code < span * span ∧ matching.maps (code / span) (code % span)

variable {matching names left right one two}

theorem sequence_joinedHeap {code : Nat} (inside : code < one.span two * one.span two) :
    (joinedHeap names left right one two).sequence code =
      List.zipWith (Value.join (one.span two)) (one.sequence (code / one.span two))
        (two.sequence (code % one.span two)) := by
  simp [Heap.sequence, joinedHeap, inside]

theorem entries_joinedHeap {code : Nat} (inside : code < one.span two * one.span two)
    (other : code ≠ jointPlace (one.span two) left right) :
    (joinedHeap names left right one two).entries code =
      List.zipWith (fun entry other => (entry.1.join (one.span two) other.1, entry.2.join (one.span two) other.2))
        (one.entries (code / one.span two)) (two.entries (code % one.span two)) := by
  simp [Heap.entries, joinedHeap, inside, other]

theorem bindings_joinedHeap (inside : jointPlace (one.span two) left right < one.span two * one.span two) :
    (joinedHeap names left right one two).entries (jointPlace (one.span two) left right) =
      bindingsOf (joinedValue left right one two) names := by
  simp [Heap.entries, joinedHeap, inside]

section

variable (agrees : matching.Agrees (· ∈ names) left right one two) (plain : ∀ here there, ¬matching.callables here there)

include agrees

theorem Agrees.sequence_lt {here there : Nat} (matched : matching.sequences here there) :
    here < one.span two ∧ there < one.span two := by
  have first := agrees.between.left.inside here ⟨there, matched⟩
  have second := agrees.between.right.inside there ⟨here, matched⟩
  rw [Heap.span]
  omega

theorem Agrees.map_lt {here there : Nat} (matched : matching.maps here there) :
    here < one.span two ∧ there < one.span two := by
  have first := agrees.between.left.insideMaps here ⟨there, matched⟩
  have second := agrees.between.right.insideMaps there ⟨here, matched⟩
  rw [Heap.span]
  omega

theorem Agrees.scope_lt : left < one.span two ∧ right < one.span two := by
  have first := agrees.inside
  have second := agrees.insideTwo
  rw [Heap.span]
  omega

theorem Agrees.joint_sequence {here there : Nat} (matched : matching.sequences here there) :
    matching.jointSequences (one.span two) (jointPlace (one.span two) here there) := by
  obtain ⟨below, belowThere⟩ := agrees.sequence_lt matched
  rw [jointSequences, jointPlace_div belowThere, jointPlace_mod belowThere]
  exact ⟨jointPlace_lt below belowThere, matched⟩

theorem Agrees.joint_map {here there : Nat} (matched : matching.maps here there) :
    matching.jointMaps (one.span two) (jointPlace (one.span two) here there) := by
  obtain ⟨below, belowThere⟩ := agrees.map_lt matched
  rw [jointMaps, jointPlace_div belowThere, jointPlace_mod belowThere]
  exact ⟨jointPlace_lt below belowThere, matched⟩

/-- The two contexts are no matched mappings. -/
theorem Agrees.ne_scope {code : Nat} (has : matching.jointMaps (one.span two) code) :
    code ≠ jointPlace (one.span two) left right := by
  rintro rfl
  have matched := has.2
  rw [jointPlace_div agrees.scope_lt.2] at matched
  exact agrees.apart _ matched

include plain

theorem Agrees.join_within {value other : Value} (related : matching.Relates value other) :
    (value.join (one.span two) other).Within (matching.jointSequences (one.span two))
      (matching.jointMaps (one.span two)) := by
  cases related with
  | scalar scalar => cases value <;> first | exact scalar | cases scalar
  | tuple matched => exact agrees.joint_sequence matched
  | list matched => exact agrees.joint_sequence matched
  | map matched => exact agrees.joint_map matched
  | object matched => exact agrees.joint_map matched
  | callable matched => exact absurd matched (plain _ _)

/-- The template of which both contexts are copies. -/
def Agrees.template (binds : Text → Bool) (options : Options) (dialect definitions seed : Nat) :
    Template where
  heap := joinedHeap names left right one two
  scope := jointPlace (one.span two) left right
  sequences := matching.jointSequences (one.span two)
  maps := matching.jointMaps (one.span two)
  binds := binds
  shares name := name ∈ names
  options := options
  dialect := dialect
  aligned := True
  definitions := definitions
  seed := seed
  inside := by
    rintro code ⟨inside, -⟩
    simpa [joinedHeap] using inside
  insideMaps := by
    rintro code (⟨inside, -⟩ | rfl)
    · simpa [joinedHeap] using inside
    · simpa [joinedHeap] using jointPlace_lt agrees.scope_lt.1 agrees.scope_lt.2
  unvalued has := agrees.ne_scope has rfl
  items := by
    rintro code ⟨inside, matched⟩ item member
    rw [sequence_joinedHeap inside] at member
    obtain ⟨value, other, related, rfl⟩ := mem_zipWith (agrees.between.items _ _ matched) member
    exact agrees.join_within plain related
  entries := by
    intro code has entry member
    rw [entries_joinedHeap has.1 (agrees.ne_scope has)] at member
    obtain ⟨entry, other, related, rfl⟩ := mem_zipWith (agrees.between.entries _ _ has.2) member
    exact related.imp (agrees.join_within plain) (agrees.join_within plain)
  bound := by
    intro name value shares held
    rw [bindings_joinedHeap (jointPlace_lt agrees.scope_lt.1 agrees.scope_lt.2), named_bindingsOf, if_pos shares,
      joinedValue] at held
    have bound := agrees.bound name shares
    revert held bound
    cases named (one.entries left) name with
    | none => nofun
    | some value =>
        cases named (two.entries right) name with
        | none => nofun
        | some other =>
            rintro ⟨⟩ ⟨related⟩
            exact agrees.join_within plain related

end

section

open Recursion (World)

variable {first second : World} (agrees : matching.Agrees (· ∈ names) left right first.state.heap second.state.heap)
  (plain : ∀ here there, ¬matching.callables here there) (binds : Text → Bool) (options : Options)
  (dialect definitions seed : Nat)

/-- What stands for two values that are the same is the first one in the first context. -/
theorem Agrees.move_first {value other : Value} (related : matching.Relates value other) :
    (value.join (first.state.heap.span second.state.heap) other).move
      ((agrees.template plain binds options dialect definitions seed).moves first
        (· / first.state.heap.span second.state.heap)) = value := by
  cases related with
  | scalar scalar => cases value <;> first | rfl | cases scalar
  | tuple matched =>
      exact congrArg Value.tuple ((Template.place_sequence first _ (agrees.joint_sequence matched)).trans
        (jointPlace_div (agrees.sequence_lt matched).2))
  | list matched =>
      exact congrArg Value.list ((Template.place_sequence first _ (agrees.joint_sequence matched)).trans
        (jointPlace_div (agrees.sequence_lt matched).2))
  | map matched =>
      exact congrArg Value.map ((Template.place_map first _ (.inl (agrees.joint_map matched))).trans
        (jointPlace_div (agrees.map_lt matched).2))
  | object matched =>
      exact congrArg Value.object ((Template.place_map first _ (.inl (agrees.joint_map matched))).trans
        (jointPlace_div (agrees.map_lt matched).2))
  | callable matched => exact absurd matched (plain _ _)

/-- And it is the second one in the second context. -/
theorem Agrees.move_second {value other : Value} (related : matching.Relates value other) :
    (value.join (first.state.heap.span second.state.heap) other).move
      ((agrees.template plain binds options dialect definitions seed).moves second
        (· % first.state.heap.span second.state.heap)) = other := by
  cases related with
  | scalar scalar => cases value <;> first | rfl | cases scalar
  | tuple matched =>
      exact congrArg Value.tuple ((Template.place_sequence second _ (agrees.joint_sequence matched)).trans
        (jointPlace_mod (agrees.sequence_lt matched).2))
  | list matched =>
      exact congrArg Value.list ((Template.place_sequence second _ (agrees.joint_sequence matched)).trans
        (jointPlace_mod (agrees.sequence_lt matched).2))
  | map matched =>
      exact congrArg Value.map ((Template.place_map second _ (.inl (agrees.joint_map matched))).trans
        (jointPlace_mod (agrees.map_lt matched).2))
  | object matched =>
      exact congrArg Value.object ((Template.place_map second _ (.inl (agrees.joint_map matched))).trans
        (jointPlace_mod (agrees.map_lt matched).2))
  | callable matched => exact absurd matched (plain _ _)

include agrees

theorem Agrees.scope_div : jointPlace (first.state.heap.span second.state.heap) left right /
    first.state.heap.span second.state.heap = left := jointPlace_div agrees.scope_lt.2

theorem Agrees.scope_mod : jointPlace (first.state.heap.span second.state.heap) left right %
    first.state.heap.span second.state.heap = right := jointPlace_mod agrees.scope_lt.2

/-- A shared name stands for what it is bound to in both. -/
theorem Agrees.named_template {name : Text} (shares : name ∈ names) :
    named ((agrees.template plain binds options dialect definitions seed).heap.entries
      (jointPlace (first.state.heap.span second.state.heap) left right)) name =
      joinedValue left right first.state.heap second.state.heap name := by
  refine (congrArg (named · name) (bindings_joinedHeap ?_)).trans ?_
  · exact jointPlace_lt agrees.scope_lt.1 agrees.scope_lt.2
  · rw [named_bindingsOf, if_pos shares]

theorem Agrees.copies_first : (agrees.template plain binds options dialect definitions seed).Copies first
    (· / first.state.heap.span second.state.heap) where
  inside code has := agrees.between.left.inside _ ⟨_, has.2⟩
  insideMaps := by
    rintro code (has | rfl)
    · exact agrees.between.left.insideMaps _ ⟨_, has.2⟩
    · exact lt_of_eq_of_lt agrees.scope_div agrees.inside
  sequences_apart code other has hasOther same := by
    have matched := has.2
    rw [same] at matched ⊢
    exact (agrees.between.sequencesRight _ _ _ matched hasOther.2).imp_left (eq_of_div_mod same)
  maps_apart := by
    rintro code other (has | rfl) (hasOther | rfl) same
    · have matched := has.2
      rw [same] at matched
      exact eq_of_div_mod same (agrees.between.mapsRight _ _ _ matched hasOther.2)
    · have matched := has.2
      rw [show code / _ = _ from same.trans agrees.scope_div] at matched
      exact absurd matched (agrees.apart _)
    · have matched := hasOther.2
      rw [show other / _ = _ from same.symm.trans agrees.scope_div] at matched
      exact absurd matched (agrees.apart _)
    · rfl
  items code has := by
    refine Eq.symm ((congrArg _ (sequence_joinedHeap has.1)).trans ?_)
    exact map_zipWith_left (fun _ _ => agrees.move_first plain binds options dialect definitions seed)
      (agrees.between.items _ _ has.2)
  entries code has := by
    refine Eq.symm ((congrArg (Entries.move _) (entries_joinedHeap has.1 (agrees.ne_scope has))).trans ?_)
    exact map_zipWith_left (fun _ _ related => Prod.ext
      (agrees.move_first plain binds options dialect definitions seed related.1)
      (agrees.move_first plain binds options dialect definitions seed related.2)) (agrees.between.entries _ _ has.2)
  names name shares := by
    have bound := agrees.bound name shares
    refine (congrArg (fun place => named (first.state.heap.entries place) name) agrees.scope_div).trans ?_
    refine Eq.trans ?_ (congrArg _ (agrees.named_template plain binds options dialect definitions seed shares)).symm
    rw [joinedValue]
    revert bound
    cases named (first.state.heap.entries left) name with
    | none =>
        cases named (second.state.heap.entries right) name with
        | none => exact fun _ => rfl
        | some other => nofun
    | some value =>
        cases named (second.state.heap.entries right) name with
        | none => nofun
        | some other =>
            rintro ⟨related⟩
            exact (congrArg some (agrees.move_first plain binds options dialect definitions seed related)).symm
  founded code has := agrees.between.left.founded _ ⟨_, has.2⟩
  keys code has := agrees.between.left.keys _ ⟨_, has.2⟩

theorem Agrees.copies_second : (agrees.template plain binds options dialect definitions seed).Copies second
    (· % first.state.heap.span second.state.heap) where
  inside code has := agrees.between.right.inside _ ⟨_, has.2⟩
  insideMaps := by
    rintro code (has | rfl)
    · exact agrees.between.right.insideMaps _ ⟨_, has.2⟩
    · exact lt_of_eq_of_lt agrees.scope_mod agrees.insideTwo
  sequences_apart code other has hasOther same := by
    have matched := has.2
    rw [same] at matched ⊢
    exact (agrees.between.sequencesLeft _ _ _ matched hasOther.2).imp_left (eq_of_div_mod · same)
  maps_apart := by
    rintro code other (has | rfl) (hasOther | rfl) same
    · have matched := has.2
      rw [same] at matched
      exact eq_of_div_mod (agrees.between.mapsLeft _ _ _ matched hasOther.2) same
    · have matched := has.2
      rw [show code % _ = _ from same.trans agrees.scope_mod] at matched
      exact absurd matched (agrees.apartTwo _)
    · have matched := hasOther.2
      rw [show other % _ = _ from same.symm.trans agrees.scope_mod] at matched
      exact absurd matched (agrees.apartTwo _)
    · rfl
  items code has := by
    refine Eq.symm ((congrArg _ (sequence_joinedHeap has.1)).trans ?_)
    exact map_zipWith_right (fun _ _ => agrees.move_second plain binds options dialect definitions seed)
      (agrees.between.items _ _ has.2)
  entries code has := by
    refine Eq.symm ((congrArg (Entries.move _) (entries_joinedHeap has.1 (agrees.ne_scope has))).trans ?_)
    exact map_zipWith_right (fun _ _ related => Prod.ext
      (agrees.move_second plain binds options dialect definitions seed related.1)
      (agrees.move_second plain binds options dialect definitions seed related.2)) (agrees.between.entries _ _ has.2)
  names name shares := by
    have bound := agrees.bound name shares
    refine (congrArg (fun place => named (second.state.heap.entries place) name) agrees.scope_mod).trans ?_
    refine Eq.trans ?_ (congrArg _ (agrees.named_template plain binds options dialect definitions seed shares)).symm
    rw [joinedValue]
    revert bound
    cases named (first.state.heap.entries left) name with
    | none =>
        cases named (second.state.heap.entries right) name with
        | none => exact fun _ => rfl
        | some other => nofun
    | some value =>
        cases named (second.state.heap.entries right) name with
        | none => nofun
        | some other =>
            rintro ⟨related⟩
            exact (congrArg some (agrees.move_second plain binds options dialect definitions seed related)).symm
  founded code has := agrees.between.right.founded _ ⟨_, has.2⟩
  keys code has := agrees.between.right.keys _ ⟨_, has.2⟩

end

/-- What an expression comes to in the one context, it comes to in the other, if they agree on all names that
it reads but for those that mean the same everywhere. -/
theorem Agrees.ends {first second : Recursion.World}
    (agrees : matching.Agrees (· ∈ names) left right first.state.heap second.state.heap)
    (plain : ∀ here there, ¬matching.callables here there) {dialect : Nat} {options : Options}
    (dialectOne : first.state.dialect dialect = .standard options)
    (dialectTwo : second.state.dialect dialect = .standard options)
    (definitions : second.state.definitions = first.state.definitions) (seed : second.state.seed = first.state.seed)
    {source : Text} {term : Term} (parsed : parse (.standard options) source = .ok term)
    (covers : ∀ word, .name word ∈ term.code.contents → word ∈ names ∨ options.Settles word) (depth : Nat) :
    Matching.Ends (· ∈ names) left right (Machine.perform depth (.run dialect term.code left) first.compiled)
      (Machine.perform depth (.run dialect term.code right) second.compiled) := by
  let template := agrees.template plain (fun _ => true) options dialect first.state.definitions first.state.seed
  have serves : template.Serves first := {
    table := ⟨[], .of_standard dialectOne, fun _ => rfl⟩
    counted := Nat.le_refl _
    aligned := fun _ => rfl
    seed := rfl }
  have servesTwo : template.Serves second := {
    table := ⟨[], .of_standard dialectTwo, fun _ => rfl⟩
    counted := Nat.le_of_eq definitions.symm
    aligned := fun _ => definitions
    seed := seed }
  have admits : template.Admits term := {
    ordinary := good_parse closed_ordinary (Tokens.all_trivial _) parsed
    literals := parse_plain parsed
    reads := fun _ _ => .inl trivial
    means := covers
    targets := fun _ _ => rfl }
  have came := Template.copies_agree (agrees.copies_first plain _ options dialect _ _) serves
    (agrees.copies_second plain _ options dialect _ _) servesTwo admits depth
  have here : template.scope / first.state.heap.span second.state.heap = left := agrees.scope_div
  have there : template.scope % first.state.heap.span second.state.heap = right := agrees.scope_mod
  rw [here, there] at came
  exact came

end Matching

end Formula
