import ZodModules.Order.Explore
import Mathlib.Logic.Relation

/-!
# What an exploration meets

`Graph.explore` meets exactly the nodes at the end of paths that start at its work and keep to the
nodes that may be entered.
-/

namespace ZodModules.Graph

open Relation (ReflTransGen)

variable {α : Type} {successors : α → List α}

/-- A step from a node to one of its successors among `nodes`. -/
def Step (successors : α → List α) (nodes : List α) (source target : α) : Prop :=
  target ∈ successors source ∧ target ∈ nodes

theorem Step.mono {nodes more : List α} (sub : ∀ node ∈ nodes, node ∈ more) {source target : α}
    (h : Step successors nodes source target) : Step successors more source target :=
  ⟨h.1, sub _ h.2⟩

variable [DecidableEq α]

/-- An exploration misses neither its work nor a step that it could take. -/
theorem closed_explore (successors : α → List α) (unvisited work : List α) :
    (∀ node ∈ work, node ∈ unvisited → node ∈ explore successors unvisited work) ∧
      ∀ node ∈ explore successors unvisited work, ∀ target, Step successors unvisited node target →
        target ∈ explore successors unvisited work := by
  fun_induction explore successors unvisited work with
  | case1 => simp
  | case2 unvisited node work fresh ih =>
    obtain ⟨done, closed⟩ := ih
    have enter {target : α} (waiting : target ∈ successors node ++ work)
        (unseen : target ∈ unvisited) :
        target ∈ node :: explore successors (unvisited.erase node) (successors node ++ work) := by
      by_cases same : target = node
      · exact same ▸ List.mem_cons_self
      · exact List.mem_cons_of_mem _ (done target waiting ((List.mem_erase_of_ne same).2 unseen))
    refine ⟨?_, ?_⟩
    · intro target waiting unseen
      rcases List.mem_cons.1 waiting with rfl | waiting
      · exact List.mem_cons_self
      · exact enter (List.mem_append_right _ waiting) unseen
    · intro met member target step
      rcases List.mem_cons.1 member with rfl | member
      · exact enter (List.mem_append_left _ step.1) step.2
      · by_cases same : target = node
        · exact same ▸ List.mem_cons_self
        · exact List.mem_cons_of_mem _
            (closed met member target ⟨step.1, (List.mem_erase_of_ne same).2 step.2⟩)
  | case3 unvisited node work visited ih =>
    refine ⟨?_, ih.2⟩
    intro target waiting unseen
    rcases List.mem_cons.1 waiting with rfl | waiting
    · exact absurd (List.contains_iff_mem.2 unseen) visited
    · exact ih.1 target waiting unseen

/-- An exploration meets nothing else. -/
theorem sound_explore {unvisited work : List α} {target : α}
    (h : target ∈ explore successors unvisited work) :
    ∃ source ∈ work, source ∈ unvisited ∧
      ReflTransGen (Step successors unvisited) source target := by
  fun_induction explore successors unvisited work with
  | case1 => simp at h
  | case2 unvisited node work fresh ih =>
    have inside : node ∈ unvisited := List.contains_iff_mem.1 fresh
    rcases List.mem_cons.1 h with rfl | h
    · exact ⟨target, List.mem_cons_self, inside, .refl⟩
    · obtain ⟨source, waiting, unseen, path⟩ := ih h
      have kept : ∀ other ∈ unvisited.erase node, other ∈ unvisited :=
        fun _ => List.mem_of_mem_erase
      have path : ReflTransGen (Step successors unvisited) source target :=
        ReflTransGen.mono (fun _ _ => Step.mono kept) _ _ path
      rcases List.mem_append.1 waiting with next | later
      · exact ⟨node, List.mem_cons_self, inside, path.head ⟨next, kept _ unseen⟩⟩
      · exact ⟨source, List.mem_cons_of_mem _ later, kept _ unseen, path⟩
  | case3 unvisited node work visited ih =>
    obtain ⟨source, waiting, unseen, path⟩ := ih h
    exact ⟨source, List.mem_cons_of_mem _ waiting, unseen, path⟩

theorem mem_of_mem_explore {unvisited work : List α} {node : α}
    (h : node ∈ explore successors unvisited work) : node ∈ unvisited := by
  obtain ⟨source, -, inside, path⟩ := sound_explore h
  rcases Relation.reflTransGen_iff_eq_or_transGen.1 path with rfl | path
  · exact inside
  · obtain ⟨before, -, last⟩ := Relation.TransGen.tail'_iff.1 path
    exact last.2

/-- No node is entered twice. -/
theorem nodup_explore {unvisited work : List α} (nodup : unvisited.Nodup) :
    (explore successors unvisited work).Nodup := by
  fun_induction explore successors unvisited work with
  | case1 => exact List.nodup_nil
  | case2 unvisited node work fresh ih =>
    refine List.nodup_cons.2 ⟨?_, ih (nodup.erase node)⟩
    intro again
    exact nodup.not_mem_erase (mem_of_mem_explore again)
  | case3 unvisited node work visited ih => exact ih nodup

/-- From a node without successors the exploration meets that node only. -/
theorem explore_leaf {unvisited : List α} {node : α} (unseen : node ∈ unvisited)
    (leaf : successors node = []) : explore successors unvisited [node] = [node] := by
  rw [explore, dif_pos (List.contains_iff_mem.2 unseen), leaf, List.nil_append, explore]

theorem reaches_iff {nodes : List α} {source target : α} :
    reaches successors nodes source target ↔
      source ∈ nodes ∧ ReflTransGen (Step successors nodes) source target := by
  unfold reaches
  rw [List.contains_iff_mem]
  constructor
  · intro h
    obtain ⟨start, only, inside, path⟩ := sound_explore h
    rcases List.mem_singleton.1 only with rfl
    exact ⟨inside, path⟩
  · rintro ⟨inside, path⟩
    obtain ⟨done, closed⟩ := closed_explore successors nodes [source]
    induction path with
    | refl => exact done _ List.mem_cons_self inside
    | tail _ step ih => exact closed _ ih _ step

end ZodModules.Graph
