import GradleWorkspace.Proofs.DependencyGraph.BuildOrder

/-!
# Build orders keep the order of the nodes

A build order pulls a name ahead of its place among the nodes only if a node before it depends on
it.  So the names that the first nodes need, and these nodes themselves, come first.

`Traversal.exists_of_append` cuts the traversal that gives the build order after any node.  What
it has left by then is an initial segment of the build order.
-/

namespace GradleWorkspace.DependencyGraph

/-- A traversal to a single new name leaves this name last. -/
theorem Traversal.getLast?_of_notMem {g : DependencyGraph} {path entered after left : List String}
    {found : List (List String)} {name : String}
    (h : Traversal g path [name] entered after left found) (hnew : name ∉ entered) :
    left.getLast? = some name := by
  cases h with
  | cross hentered _ _ | back hentered _ _ => exact absurd hentered hnew
  | fresh _ _ tail =>
      cases tail with
      | nil => exact List.getLast?_concat

/-- A build order begins with the names that can be reached from the first nodes, however many
nodes are taken.  If the last of these nodes cannot be reached from those before it, this segment
ends with it. -/
theorem buildOrder_keeps_node_order (g : DependencyGraph) (order : List String)
    (horder : g.buildOrder = .ok order) (count : Nat) :
    ∃ segment, segment <+: order ∧
      (∀ name, name ∈ segment ↔ ∃ node ∈ g.nodes.keys.take count, g.Reaches node name) ∧
      ∀ before node, count = before + 1 → g.nodes.keys[before]? = some node →
        (¬∃ earlier ∈ g.nodes.keys.take before, g.Reaches earlier node) →
        segment.getLast? = some node := by
  rcases buildOrder_cases g with ⟨-, after, left, htrace, hleft⟩ | ⟨_, _, _, -, herror⟩
  · obtain rfl := Except.ok.inj (hleft.symm.trans horder)
    rw [← List.take_append_drop count g.nodes.keys] at htrace
    obtain ⟨between, segment, others, _, _, hfirst, -, rfl, -⟩ := htrace.exists_of_append
    refine ⟨segment, List.prefix_append _ _, fun _ => hfirst.mem_left_iff, ?_⟩
    rintro before node rfl hnode hfresh
    rw [List.take_add_one, hnode] at hfirst
    obtain ⟨entered, earlier, own, _, _, hearlier, hown, rfl, -⟩ := hfirst.exists_of_append
    have hnew : node ∉ entered := by
      rw [hearlier.mem_after_iff, hearlier.mem_left_iff]
      simpa using hfresh
    rw [List.getLast?_append, hown.getLast?_of_notMem hnew]
    rfl
  · simp [herror] at horder

/-- Two modules on their own: the first needs the second, the third needs a name that is no
node. -/
def staged : DependencyGraph :=
  ofEdges (.ofList [("app", ["core"]), ("core", []), ("docs", ["site"]), ("tool", ["core"])])

theorem buildOrder_staged :
    staged.buildOrder = .ok ["core", "app", "site", "docs", "tool"] ∧
      ∃ segment, segment <+: ["core", "app", "site", "docs", "tool"] ∧
        (∀ name, name ∈ segment ↔ ∃ node ∈ ["app", "core", "docs"], staged.Reaches node name) ∧
        segment.getLast? = some "docs" := by
  have horder : staged.buildOrder = .ok ["core", "app", "site", "docs", "tool"] := by cbv
  have hkeys : staged.nodes.keys = ["app", "core", "docs", "tool"] := by decide
  have hclosed : ∀ source ∈ ["app", "core"], staged.successors source ⊆ ["app", "core"] := by
    decide
  have hfresh : ¬∃ earlier ∈ staged.nodes.keys.take 2, staged.Reaches earlier "docs" := by
    rw [hkeys]
    rintro ⟨earlier, hearlier, hreaches⟩
    exact absurd (hreaches.mem_of_closed hclosed hearlier) (by decide)
  obtain ⟨segment, hsegment, hmem, hlast⟩ := buildOrder_keeps_node_order staged _ horder 3
  rw [hkeys] at hmem
  exact ⟨horder, segment, hsegment, hmem, hlast 2 "docs" rfl (by rw [hkeys]; rfl) hfresh⟩

end GradleWorkspace.DependencyGraph
