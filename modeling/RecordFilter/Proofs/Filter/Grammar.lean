/-
The grammar of filter texts, stated on tokens.

An item is a comparison or a level in brackets, and a level is a run of items
joined by one connective.  Brackets are glued to the outermost tokens of the
level they enclose, so a token may carry any number of them; anywhere else in a
token a bracket is plain text.  The relations say which tokens denote which
tree.  They do not depend on how tokens are read.
-/
import RecordFilter.Proofs.Filter.Window

namespace RecordFilter
namespace Filter

/-! ### Brackets around tokens -/

def openFirst : List Token → List Token
  | [] => []
  | token :: tokens => (leftBracket :: token) :: tokens

def closeLast : List Token → List Token
  | [] => []
  | [token] => [token ++ [rightBracket]]
  | token :: next :: tokens => token :: closeLast (next :: tokens)

def enclose (tokens : List Token) : List Token := openFirst (closeLast tokens)

/-! ### Derivations -/

mutual

/-- The tokens of one item and its tree. -/
inductive IsItem : List Token → Filter → Prop where
  | leaf {field operator value : Token} (hField : field ≠ []) (hOperator : operator ≠ [])
      (hValue : value ≠ []) (hOpening : field.head? ≠ some leftBracket)
      (hClosing : value.getLast? ≠ some rightBracket) :
      IsItem [field, operator, value]
        (.leaf (String.ofList field) (String.ofList operator) (.text (String.ofList value)))
  | level {logic : Logic} {tokens : List Token} {trees : List Filter}
      (hRun : IsRun logic tokens trees) :
      IsItem (enclose tokens) (collapse logic trees)

/-- The tokens of items joined by one connective, and the trees of the items. -/
inductive IsRun : Logic → List Token → List Filter → Prop where
  | last {logic : Logic} {tokens : List Token} {tree : Filter} (hItem : IsItem tokens tree) :
      IsRun logic tokens [tree]
  | more {logic : Logic} {tokens rest : List Token} {tree : Filter} {trees : List Filter}
      (hItem : IsItem tokens tree) (hRest : IsRun logic rest trees) :
      IsRun logic (tokens ++ logic.word :: rest) (tree :: trees)

end

/-- The tokens of a level and its tree: the tree of its item if there is one, else
the group of the trees of its items under the connective between them. -/
def IsLevel (tokens : List Token) (tree : Filter) : Prop :=
  ∃ logic trees, IsRun logic tokens trees ∧ tree = collapse logic trees

theorem IsRun.trees_ne_nil {logic : Logic} {tokens : List Token} {trees : List Filter}
    (hRun : IsRun logic tokens trees) : trees ≠ [] := by
  cases hRun <;> simp

theorem IsItem.isLevel {tokens : List Token} {tree : Filter} (hItem : IsItem tokens tree) :
    IsLevel tokens tree :=
  ⟨.and, [tree], .last hItem, rfl⟩

theorem IsLevel.isItem_enclose {tokens : List Token} {tree : Filter}
    (hLevel : IsLevel tokens tree) : IsItem (enclose tokens) tree := by
  obtain ⟨logic, trees, hRun, rfl⟩ := hLevel
  exact .level hRun

end Filter
end RecordFilter
