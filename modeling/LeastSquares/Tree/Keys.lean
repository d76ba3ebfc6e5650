import LeastSquares.Tree.Basic

/-!
# Maps with keys

The two kinds of keys that maps of trees are usually made with: texts in the order of their code
points, and integers in their own order. The entries of a map may be given in any order; they are
sorted by key, and of several entries with equal keys the last one counts.
-/

namespace LeastSquares

/-- The keys of a map, in order. All of them are of one kind, also when there are none. -/
inductive Keys
  | texts (names : List String)
  | indices (numbers : List Int)
deriving DecidableEq, Repr

section Sorting

variable {δ τ : Type} [Ord δ]

/-- Put an entry into a list of entries sorted by key, in place of one with the same key. -/
def putEntry (k : δ) (t : τ) : List (δ × τ) → List (δ × τ)
  | [] => [(k, t)]
  | (k', t') :: rest =>
      match compare k k' with
      | .lt => (k, t) :: (k', t') :: rest
      | .eq => (k, t) :: rest
      | .gt => (k', t') :: putEntry k t rest

/-- Entries in the order of their keys; of equal keys the last one counts. -/
def sortEntries (entries : List (δ × τ)) : List (δ × τ) :=
  entries.foldl (fun sorted entry => putEntry entry.1 entry.2 sorted) []

end Sorting

namespace Tree

variable {α : Type}

/-- The map of entries that are named by texts. -/
def ofTexts (entries : List (String × Tree Keys α)) : Tree Keys α :=
  let sorted := sortEntries entries
  .keyed (.texts (sorted.map Prod.fst)) (sorted.map Prod.snd)

/-- The map of entries that are numbered by integers. -/
def ofIndices (entries : List (Int × Tree Keys α)) : Tree Keys α :=
  let sorted := sortEntries entries
  .keyed (.indices (sorted.map Prod.fst)) (sorted.map Prod.snd)

end Tree

end LeastSquares
