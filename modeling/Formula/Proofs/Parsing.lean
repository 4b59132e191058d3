import Formula.Proofs.Coding
import Formula.Proofs.Reading

/-!
What the parser makes of tokens: the program of every term that a source text denotes keeps the discipline
of the stack.
-/

namespace Formula

/-- No operator that the grammar reads has the symbol of an assignment. -/
theorem closed_ordinary {dialect : Dialect} :
    Closed dialect (fun _ => True) fun term => term.ordinary = true where
  name _ := rfl
  number _ _ := rfl
  text _ := rfl
  unary _ _ _ known := known
  binary symbol left right member _ goodLeft goodRight := by
    have other : ∀ known ∈ strictSymbols, known ≠ Term.assignSymbol := by decide
    simp [Term.ordinary, other symbol member, goodLeft, goodRight]
  index object index _ goodObject goodIndex := by
    have other : Term.indexSymbol ≠ Term.assignSymbol := by decide
    simp [Term.ordinary, other, goodObject, goodIndex]
  shortCircuit symbol left right member _ goodLeft goodRight := by
    have other : ∀ known ∈ lazySymbols, known ≠ Term.assignSymbol := by decide
    simp [Term.ordinary, other symbol member, goodLeft, goodRight]
  conditional _ _ _ _ condition yes no := by simp [Term.ordinary, condition, yes, no]
  assign _ _ _ value := value
  assignMember _ _ _ _ object value := by
    simp only [Term.ordinary] at object
    simp [Term.ordinary, object, value]
  define _ _ _ _ _ body := body
  call _ _ callee arguments := by
    simp [Term.ordinary, callee, Term.allOrdinary_iff.mpr arguments]
  member _ _ _ object := object
  array _ _ items := Term.allOrdinary_iff.mpr items
  statement _ body := body
  sequence _ _ first rest := by simp [Term.ordinary, first, rest]

theorem parse_disciplined {dialect : Dialect} {source : Text} {term : Term}
    (found : parse dialect source = .ok term) : term.code.disciplined = true :=
  (Term.code_coded term (good_parse closed_ordinary (Tokens.all_trivial _) found)).disciplined
    term.shape_ne_target

end Formula
