import GradleWorkspace.DependencyGraph.Resolution
import GradleWorkspace.Proofs.DependencyGraph.BuildOrder
import GradleWorkspace.Proofs.OrderedMap

/-!
# The dependency graph of a workspace

There are two groups.

* Nodes and edges.  The nodes of the graph of a workspace are its modules, and each edge leads to
  a module.  So the modules are all that can be reached, and a build order is a permutation of
  them.
* References.  Each reference of a module becomes an edge or is listed as unresolved, and a
  module has no other edges and no other entries in that list.
-/

namespace GradleWorkspace

namespace DependencyGraph

/-! ## Nodes and edges -/

theorem entries_nodes_ofModules {modules : List Module}
    (h : (modules.map Module.name).Nodup) :
    (ofModules modules).nodes.entries =
      modules.map fun m => (m.name, ⟨m.name, m.path, targets modules m⟩) := by
  refine OrderedMap.entries_ofList ?_
  rw [List.map_map]
  exact h

/-- The nodes of the graph are the modules. -/
theorem keys_nodes_ofModules {modules : List Module} (h : (modules.map Module.name).Nodup) :
    (ofModules modules).nodes.keys = modules.map Module.name := by
  rw [OrderedMap.keys, entries_nodes_ofModules h, List.map_map]
  rfl

/-- A module has an edge for each reference that is resolved, and no other edges. -/
theorem successors_ofModules {modules : List Module} (h : (modules.map Module.name).Nodup)
    {m : Module} (hm : m ∈ modules) :
    (ofModules modules).successors m.name = targets modules m := by
  have hentries : (ofModules modules).edges.entries =
      modules.map fun m => (m.name, targets modules m) := by
    refine OrderedMap.entries_ofList ?_
    rw [List.map_map]
    exact h
  rw [successors, OrderedMap.get?, hentries,
    lookup_map_of_mem Module.name (targets modules) h hm]
  rfl

theorem target?_eq_some_iff {modules : List Module} {reference name : String} :
    target? modules reference = some name ↔ resolveProjectPath reference modules = [name] := by
  unfold target?
  split
  · next other hother => rw [hother]; simp
  · next hnot => simpa using hnot name

theorem resolveProjectPath_subset (reference : String) (modules : List Module) :
    resolveProjectPath reference modules ⊆ modules.map Module.name := by
  rw [resolveProjectPath]
  split
  · exact List.nil_subset _
  · exact (List.filter_sublist.map Module.name).subset

theorem mem_names_of_target? {modules : List Module} {reference name : String}
    (h : target? modules reference = some name) : name ∈ modules.map Module.name := by
  apply resolveProjectPath_subset reference modules
  rw [target?_eq_some_iff.1 h]
  exact List.mem_singleton_self name

/-- An edge of the graph leads from a module to a module. -/
theorem edge_ofModules {modules : List Module} (h : (modules.map Module.name).Nodup)
    {source target : String} (hsource : source ∈ modules.map Module.name)
    (hedge : (ofModules modules).Edge source target) : target ∈ modules.map Module.name := by
  obtain ⟨m, hm, rfl⟩ := List.mem_map.1 hsource
  rw [Edge, successors_ofModules h hm] at hedge
  obtain ⟨_, -, htarget⟩ := List.mem_filterMap.1 hedge
  exact mem_names_of_target? htarget

/-- What can be reached in the graph are the modules. -/
theorem reachable_ofModules_iff {modules : List Module} (h : (modules.map Module.name).Nodup)
    {name : String} : (ofModules modules).Reachable name ↔ name ∈ modules.map Module.name := by
  constructor
  · rintro ⟨node, hnode, hreaches⟩
    rw [keys_nodes_ofModules h] at hnode
    exact hreaches.mem_of_closed
      (fun source hsource target hedge => edge_ofModules h hsource hedge) hnode
  · intro hname
    rw [← keys_nodes_ofModules h] at hname
    exact reachable_of_mem_keys hname

/-- A build order of the graph is a permutation of the modules in which each stands after all
that it depends on. -/
theorem buildOrder_ofModules {modules : List Module} (h : (modules.map Module.name).Nodup)
    {order : List String} (horder : (ofModules modules).buildOrder = .ok order) :
    order.Perm (modules.map Module.name) ∧
      ∀ m ∈ modules, ∀ target ∈ targets modules m, order.idxOf target < order.idxOf m.name := by
  rcases buildOrder_cases (ofModules modules) with
    ⟨-, after, left, htrace, hleft⟩ | ⟨_, _, _, -, herror⟩
  · obtain rfl := Except.ok.inj (hleft.symm.trans horder)
    have hmem : ∀ name, name ∈ left ↔ name ∈ modules.map Module.name := fun name =>
      htrace.mem_left_iff_reachable.trans (reachable_ofModules_iff h)
    refine ⟨(List.perm_ext_iff_of_nodup htrace.nodup_left.1 h).2 hmem, ?_⟩
    intro m hm target htarget
    rw [← successors_ofModules h hm] at htarget
    have hsource : m.name ∈ left := (hmem m.name).2 (List.mem_map_of_mem hm)
    simpa [Closes] using (htrace.dependenciesFirst coloured_nil).idxOf_lt hsource htarget
  · simp [herror] at horder

/-! ## References -/

/-- Each reference of a module becomes an edge, or it is unresolved. -/
theorem length_targets_add_length_unresolvedReferences (modules : List Module) (m : Module) :
    (targets modules m).length + (unresolvedReferences modules m).length =
      m.facts.projectPaths.length := by
  have hsplit : ∀ paths : List String,
      (paths.filterMap (target? modules)).length +
        (paths.filter fun path => (target? modules path).isNone).length = paths.length := by
    intro paths
    induction paths with
    | nil => rfl
    | cons path rest ih =>
        cases htarget : target? modules path <;> simp [htarget] <;> omega
  rw [unresolvedReferences, List.length_map]
  exact hsplit m.facts.projectPaths

theorem module_of_mem_unresolvedReferences {modules : List Module} {m : Module}
    {r : UnresolvedReference} (h : r ∈ unresolvedReferences modules m) : r.module = m.name := by
  obtain ⟨_, -, rfl⟩ := List.mem_map.1 h
  rfl

theorem filter_flatMap_unresolvedReferences (modules : List Module) {others : List Module}
    (h : (others.map Module.name).Nodup) {m : Module} (hm : m ∈ others) :
    (others.flatMap (unresolvedReferences modules)).filter (fun r => r.module = m.name) =
      unresolvedReferences modules m := by
  induction others with
  | nil => simp at hm
  | cons first rest ih =>
      obtain ⟨hfirst, hrest⟩ := List.nodup_cons.1 h
      rw [List.flatMap_cons, List.filter_append]
      rcases List.mem_cons.1 hm with rfl | hmem
      · have hown : (unresolvedReferences modules m).filter (fun r => r.module = m.name) =
            unresolvedReferences modules m :=
          List.filter_eq_self.2 fun r hr => by
            simpa using module_of_mem_unresolvedReferences hr
        have hothers : (rest.flatMap (unresolvedReferences modules)).filter
            (fun r => r.module = m.name) = [] := by
          refine List.filter_eq_nil_iff.2 fun r hr => ?_
          obtain ⟨other, hother, hr⟩ := List.mem_flatMap.1 hr
          have hname : other.name ≠ m.name :=
            ne_of_mem_of_not_mem (List.mem_map_of_mem hother) hfirst
          simpa [module_of_mem_unresolvedReferences hr] using hname
        rw [hown, hothers, List.append_nil]
      · have hname : m.name ≠ first.name :=
          ne_of_mem_of_not_mem (List.mem_map_of_mem hmem) hfirst
        have hnone : (unresolvedReferences modules first).filter
            (fun r => r.module = m.name) = [] := by
          refine List.filter_eq_nil_iff.2 fun r hr => ?_
          simpa [module_of_mem_unresolvedReferences hr] using Ne.symm hname
        rw [hnone, List.nil_append]
        exact ih hrest hmem

/-- The unresolved references of the graph that name a module are those of the module. -/
theorem filter_unresolved_ofModules {modules : List Module}
    (h : (modules.map Module.name).Nodup) {m : Module} (hm : m ∈ modules) :
    (ofModules modules).unresolved.filter (fun r => r.module = m.name) =
      unresolvedReferences modules m :=
  filter_flatMap_unresolvedReferences modules h hm

/-- If no reference of the graph is unresolved, each reference of a module means exactly one
module, and these are the edges of the module. -/
theorem forall₂_targets_of_unresolved_eq_nil {modules : List Module}
    (h : (ofModules modules).unresolved = []) {m : Module} (hm : m ∈ modules) :
    List.Forall₂ (fun path target => resolveProjectPath path modules = [target])
      m.facts.projectPaths (targets modules m) := by
  have hnone : unresolvedReferences modules m = [] := List.flatMap_eq_nil_iff.1 h m hm
  have hall : ∀ path ∈ m.facts.projectPaths, (target? modules path).isSome := by
    intro path hpath
    have := List.filter_eq_nil_iff.1 (List.map_eq_nil_iff.1 hnone) path hpath
    simpa [Option.isSome_iff_ne_none] using this
  unfold targets
  generalize m.facts.projectPaths = paths at hall ⊢
  induction paths with
  | nil => exact .nil
  | cons path rest ih =>
      obtain ⟨target, htarget⟩ := Option.isSome_iff_exists.1 (hall path List.mem_cons_self)
      rw [List.filterMap_cons_some htarget]
      exact .cons (target?_eq_some_iff.1 htarget)
        (ih fun other hother => hall other (List.mem_cons_of_mem _ hother))

end DependencyGraph

end GradleWorkspace
