/-!
# Distinct elements

`distinctBy same` keeps of a list the elements that no earlier one is the same as.
-/

namespace ApiDecl

/-- The elements of a list that are the same as none kept before. -/
def distinctBy {α : Type} (same : α → α → Bool) (elements : List α) : List α :=
  elements.foldl (fun kept x => if kept.any (same · x) then kept else kept ++ [x]) []

/-- The elements of a list that do not occur earlier in it. -/
def distinct {α : Type} [DecidableEq α] (elements : List α) : List α :=
  distinctBy (fun a b => decide (a = b)) elements

end ApiDecl
