import Formula.Dialect

/-!
Tables: what an insertion adds, and what it leaves.
-/

namespace Formula

namespace Table

theorem mem_of_get? {table : Table} {name : Text} {value : Value}
    (found : table.get? name = some value) : (name, value) ∈ table := by
  induction table with
  | nil => cases found
  | cons entry rest ih =>
      obtain ⟨key, old⟩ := entry
      simp only [get?, List.lookup_cons] at found
      split at found
      · rename_i same
        cases found
        rw [beq_iff_eq.mp same]
        exact List.mem_cons_self
      · exact List.mem_cons_of_mem _ (ih found)

theorem mem_insert {table : Table} {name : Text} {value : Value} {entry : Text × Value}
    (member : entry ∈ table.insert name value) : entry = (name, value) ∨ entry ∈ table := by
  induction table with
  | nil => exact .inl (List.mem_singleton.mp member)
  | cons known rest ih =>
      simp only [insert] at member
      split at member
      · exact (List.mem_cons.mp member).imp_right (List.mem_cons_of_mem known)
      · rcases List.mem_cons.mp member with same | later
        · exact .inr (by rw [same]; exact List.mem_cons_self)
        · exact (ih later).imp_right (List.mem_cons_of_mem known)

theorem mem_insert_of_fresh {table : Table} {name : Text} (value : Value)
    (fresh : ∀ entry ∈ table, entry.1 ≠ name) {entry : Text × Value} (member : entry ∈ table) :
    entry ∈ table.insert name value := by
  induction table with
  | nil => cases member
  | cons known rest ih =>
      simp only [insert]
      rw [if_neg (fresh known List.mem_cons_self)]
      rcases List.mem_cons.mp member with same | later
      · rw [same]
        exact List.mem_cons_self
      · exact List.mem_cons_of_mem _
          (ih (fun other inside => fresh other (List.mem_cons_of_mem known inside)) later)

theorem builtin_of_mem {entries : List (String × Builtin)} {value : Value}
    (member : value ∈ (ofBuiltins entries).map (·.2)) : ∃ builtin, value = .builtin builtin := by
  simp only [ofBuiltins, List.map_map, List.mem_map, Function.comp] at member
  obtain ⟨entry, -, rfl⟩ := member
  exact ⟨entry.2, rfl⟩

theorem insert_fresh {table : Table} {name : Text} (fresh : ∀ entry ∈ table, entry.1 ≠ name)
    (value : Value) : table.insert name value = table ++ [(name, value)] := by
  induction table with
  | nil => rfl
  | cons entry rest ih =>
      rw [List.forall_mem_cons] at fresh
      rw [insert, if_neg fresh.1, ih fresh.2, List.cons_append]

theorem get?_insert (table : Table) (key : Text) (value : Value) (name : Text) :
    (table.insert key value).get? name = if name = key then some value else table.get? name := by
  induction table with
  | nil =>
      by_cases same : name = key
      · simp [insert, get?, same]
      · simp [insert, get?, same, List.lookup_cons, beq_false_of_ne same]
  | cons entry rest ih =>
      obtain ⟨known, old⟩ := entry
      simp only [get?] at ih
      simp only [insert, get?]
      by_cases here : known = key
      · subst here
        by_cases same : name = known
        · simp [same]
        · simp [same, List.lookup_cons, beq_false_of_ne same]
      · by_cases first : name = known
        · subst first
          simp [here]
        · simp [here, List.lookup_cons, beq_false_of_ne first, ih]

end Table

end Formula
