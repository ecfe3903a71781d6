import Regular.Pattern.Expr
/-!
# Flat — expressions without the grouping of concatenations

However a chain of concatenations is grouped, it has the same factors in the same order.  A flat expression keeps the
list of factors instead of the tree, so `Expr.flatten` forgets that grouping and nothing else.
-/
namespace Regular

inductive Flat where
  | literal (c : Char)
  | quantified (f : Flat) (q : Quantifier)
  | alternate (left right : Flat)
  /-- Concatenated factors; of a flattened expression there are at least two, and none is a chain itself. -/
  | chain (factors : List Flat)

namespace Flat

/-- The factors of a chain; anything else is its own only factor. -/
def factors : Flat → List Flat
  | .chain fs => fs
  | f => [f]

end Flat

/-- The expression with every nest of concatenations made one list of factors. -/
def Expr.flatten : Expr → Flat
  | .literal c => .literal c
  | .quantified e q => .quantified e.flatten q
  | .connected left right .alternate => .alternate left.flatten right.flatten
  | .connected left right .concat => .chain (left.flatten.factors ++ right.flatten.factors)

theorem Expr.flatten_concat_assoc (x y z : Expr) :
    (Expr.connected (.connected x y .concat) z .concat).flatten =
      (Expr.connected x (.connected y z .concat) .concat).flatten := by
  simp only [flatten, Flat.factors, List.append_assoc]

end Regular
