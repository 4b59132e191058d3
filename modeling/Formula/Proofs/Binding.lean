import Formula.Machine
import Formula.Proofs.Operation

/-!
What names are bound to: the binding of one name leaves the others as they are.
-/

namespace Formula

/-- Whether a value is a given text. -/
def Value.spells (name : Text) : Value → Bool
  | .text word => word == name
  | _ => false

/-- The value that entries hold for a name. -/
def named (entries : Entries) (name : Text) : Option Value :=
  (entries.find? fun entry => entry.1.spells name).map (·.2)

theorem named_cons (key value : Value) (rest : Entries) (name : Text) :
    named ((key, value) :: rest) name =
      if key.spells name = true then some value else named rest name := by
  cases found : key.spells name <;> simp [named, found]

theorem mem_of_named {entries : Entries} {name : Text} {value : Value}
    (found : named entries name = some value) : ∃ entry ∈ entries, entry.2 = value := by
  obtain ⟨entry, first, same⟩ := Option.map_eq_some_iff.mp found
  exact ⟨entry, List.mem_of_find?_eq_some first, same⟩

namespace Heap

variable (heap : Heap)

theorem equal_text (value : Value) (name : Text) :
    heap.equal value (.text name) = value.spells name := by
  cases value <;> rfl

theorem lookup_text (name : Text) (entries : Entries) :
    heap.lookup (.text name) entries = named entries name := by
  simp only [lookup, lookupWith, equal_text, named]

theorem named_bind {name word : Text} (other : word ≠ name) (value : Value) (entries : Entries) :
    named (heap.bind (.text word) value entries) name = named entries name := by
  have apart {key : Value} (same : key.spells word = true) : key.spells name = false := by
    cases key with
    | text known =>
        have known : known = word := beq_iff_eq.mp same
        simp [Value.spells, known, other]
    | _ => rfl
  induction entries with
  | nil => simp [bind, named, Value.spells, other]
  | cons entry rest ih =>
      obtain ⟨key, old⟩ := entry
      simp only [bind, equal_text]
      split
      · rename_i same
        rw [named_cons, named_cons, apart same]
        rfl
      · rw [named_cons, named_cons, ih]

theorem named_bind_self (name : Text) (value : Value) (entries : Entries) :
    named (heap.bind (.text name) value entries) name = some value := by
  induction entries with
  | nil => simp [bind, named, Value.spells]
  | cons entry rest ih =>
      obtain ⟨key, old⟩ := entry
      simp only [bind, equal_text]
      split
      · rename_i same
        rw [named_cons, if_pos same]
      · rename_i other
        rw [named_cons, if_neg other, ih]

end Heap

/-- Binding a name in any collection changes no other name of any mapping. -/
theorem Sequence.named_assign {heap after : Heap} {collection value result : Value}
    {name word : Text} (other : word ≠ name)
    (found : assign collection (.text word) value heap = .ok (result, after)) (place : Nat) :
    named (after.entries place) name = named (heap.entries place) name := by
  cases collection with
  | map changed =>
      rw [assign_map] at found
      split at found
      · cases found
        rw [Heap.entries_setEntries]
        split
        · rename_i same
          rw [heap.named_bind other, same.1]
        · rfl
      · cases found
  | _ => cases found

/-- Parameters leave other names as they are. -/
theorem Machine.named_overlay {heap : Heap} {name : Text} {parameters arguments : List Value}
    {entries result : Entries}
    (others : ∀ parameter ∈ parameters, ∃ word, parameter = .text word ∧ word ≠ name)
    (found : overlay heap parameters arguments entries = .ok result) :
    named result name = named entries name := by
  induction parameters generalizing arguments entries with
  | nil =>
      cases found
      rfl
  | cons parameter parameters ih =>
      cases arguments with
      | nil =>
          cases found
          rfl
      | cons argument arguments =>
          obtain ⟨word, rfl, other⟩ := others parameter List.mem_cons_self
          simp only [overlay] at found
          split at found
          · have rest := ih (fun known member => others known (List.mem_cons_of_mem _ member)) found
            rw [rest, heap.named_bind other]
          · cases found

/-- Arguments bring in nothing but themselves. -/
theorem Machine.mem_overlay {heap : Heap} {parameters arguments : List Value}
    {entries result : Entries} (found : overlay heap parameters arguments entries = .ok result)
    {entry : Value × Value} (member : entry ∈ result) : entry.2 ∈ arguments ∨ entry ∈ entries := by
  induction parameters generalizing arguments entries with
  | nil =>
      cases found
      exact .inr member
  | cons parameter parameters ih =>
      cases arguments with
      | nil =>
          cases found
          exact .inr member
      | cons argument arguments =>
          simp only [overlay] at found
          split at found
          · rcases ih found with given | bound
            · exact .inl (List.mem_cons_of_mem argument given)
            · rcases Heap.mem_bind bound with new | old
              · exact .inl (new ▸ List.mem_cons_self)
              · exact .inr old
          · cases found

end Formula
