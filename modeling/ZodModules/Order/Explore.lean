/-!
# Exploring a graph

`Graph.explore` lists the nodes of a finite graph that a search from some nodes meets, each once,
in the order of a depth-first search.
-/

namespace ZodModules.Graph

variable {α : Type} [DecidableEq α]

/-- The nodes met from those of `work` on, by steps from a node to its successors, when only the
nodes of `unvisited` may be entered. -/
def explore (successors : α → List α) : (unvisited work : List α) → List α
  | _, [] => []
  | unvisited, node :: work =>
    if _h : unvisited.contains node then
      node :: explore successors (unvisited.erase node) (successors node ++ work)
    else
      explore successors unvisited work
termination_by unvisited work => (unvisited.length, work.length)
decreasing_by
  · apply Prod.Lex.left
    have hmem : node ∈ unvisited := List.contains_iff_mem.1 _h
    have := List.length_erase_of_mem hmem
    have := List.length_pos_of_mem hmem
    omega
  · apply Prod.Lex.right
    simp

/-- Whether a search that starts at `source` and keeps to `nodes` meets `target`. -/
def reaches (successors : α → List α) (nodes : List α) (source target : α) : Bool :=
  (explore successors nodes [source]).contains target

end ZodModules.Graph
