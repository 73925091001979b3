import GradleWorkspace.Proofs.DependencyGraph.Closure

/-!
# Workspaces in another order

Modules are listed in the order in which they were found.  Resolving a reference goes through all of
them, but it makes no difference where a module stands: the candidates of a reference come in
another order, and there is one of them or not.

* `meant_perm` and `resolveProjectPath_perm` are about one reference, `targets_perm` and
  `forall₂_unresolvedReferences_perm` about all references of a module.
* `find?_name_eq_of_perm` finds the same module of a name in either order, because names are
  distinct.
* `ofModules_agrees_of_perm` puts this together for the graph of a workspace.
-/

namespace GradleWorkspace

/-- Two entries for a reference of a module that is not resolved, with the same candidates up to
their order. -/
structure UnresolvedReference.Agrees (r other : UnresolvedReference) : Prop where
  module_eq : r.module = other.module
  path_eq : r.path = other.path
  candidates_perm : r.candidates.Perm other.candidates

/-! ## Modules by their names -/

/-- Among modules with distinct names, the one of a name is found. -/
theorem find?_name_eq_some_iff {modules : List Module} (hnodup : (modules.map Module.name).Nodup)
    {name : String} {m : Module} :
    (modules.find? fun m => m.name = name) = some m ↔ m ∈ modules ∧ m.name = name := by
  constructor
  · intro hfound
    exact ⟨List.mem_of_find?_eq_some hfound, by simpa using List.find?_some hfound⟩
  · rintro ⟨hm, rfl⟩
    have hsome : (modules.find? fun other => other.name = m.name).isSome :=
      List.find?_isSome.2 ⟨m, hm, by simp⟩
    obtain ⟨found, hfound⟩ := Option.isSome_iff_exists.1 hsome
    have hname : found.name = m.name := by simpa using List.find?_some hfound
    rw [hfound, List.inj_on_of_nodup_map hnodup (List.mem_of_find?_eq_some hfound) hm hname]

theorem find?_name_eq_of_perm {modules others : List Module} (hperm : modules.Perm others)
    (hnodup : (others.map Module.name).Nodup) (name : String) :
    (modules.find? fun m => m.name = name) = others.find? fun m => m.name = name := by
  have hnodup' := (hperm.map Module.name).nodup_iff.2 hnodup
  apply Option.ext
  intro m
  rw [find?_name_eq_some_iff hnodup', find?_name_eq_some_iff hnodup, hperm.mem_iff]

/-! ## References -/

section References

variable {modules others : List Module}

theorem meant_perm (hperm : modules.Perm others) (reference : String) :
    (meant reference modules).Perm (meant reference others) := hperm.filter _

/-- In another order, a reference has the same candidates. -/
theorem resolveProjectPath_perm (hperm : modules.Perm others) (reference : String) :
    (resolveProjectPath reference modules).Perm (resolveProjectPath reference others) := by
  rw [resolveProjectPath_eq_map_meant, resolveProjectPath_eq_map_meant]
  exact (meant_perm hperm reference).map Module.name

namespace DependencyGraph

/-- In another order, a reference is resolved to the same module, or not at all. -/
theorem target?_perm (hperm : modules.Perm others) : target? modules = target? others := by
  funext reference
  have hresolve := resolveProjectPath_perm hperm reference
  apply Option.ext
  intro name
  rw [target?_eq_some_iff, target?_eq_some_iff, ← List.perm_singleton, ← List.perm_singleton]
  exact ⟨hresolve.symm.trans, hresolve.trans⟩

theorem targets_perm (hperm : modules.Perm others) (m : Module) :
    targets modules m = targets others m := by
  rw [targets, targets, target?_perm hperm]

theorem forall₂_unresolvedReferences_perm (hperm : modules.Perm others) (m : Module) :
    List.Forall₂ UnresolvedReference.Agrees (unresolvedReferences modules m)
      (unresolvedReferences others m) := by
  rw [unresolvedReferences, unresolvedReferences, target?_perm hperm,
    List.forall₂_map_left_iff, List.forall₂_map_right_iff, List.forall₂_same]
  exact fun path _ => ⟨rfl, rfl, resolveProjectPath_perm hperm path⟩

end DependencyGraph

end References

/-! ## The graph -/

namespace DependencyGraph

/-- The graph of a workspace does not depend on the order of its modules.  Each name has the same
node and the same edges in the same order, and each module has the same references that are not
resolved, in the same order and with the same candidates. -/
theorem ofModules_agrees_of_perm (ws : Workspace) {modules : List Module}
    (hperm : modules.Perm ws.modules) :
    (∀ name, (ofModules modules).nodes.get? name = (ofModules ws.modules).nodes.get? name) ∧
    (∀ name, (ofModules modules).edges.get? name = (ofModules ws.modules).edges.get? name) ∧
    ∀ m ∈ ws.modules, List.Forall₂ UnresolvedReference.Agrees
      ((ofModules modules).unresolved.filter fun r => r.module = m.name)
      ((ofModules ws.modules).unresolved.filter fun r => r.module = m.name) := by
  have hnodup : (modules.map Module.name).Nodup :=
    (hperm.map Module.name).nodup_iff.2 ws.nodup_names
  have htargets : targets modules = targets ws.modules := funext (targets_perm hperm)
  have hreverse : modules.reverse.Perm ws.modules.reverse :=
    (List.reverse_perm modules).trans (hperm.trans (List.reverse_perm ws.modules).symm)
  have hnodup' : (ws.modules.reverse.map Module.name).Nodup :=
    ((List.reverse_perm ws.modules).map Module.name).nodup_iff.2 ws.nodup_names
  refine ⟨fun name => ?_, fun name => ?_, fun m hm => ?_⟩
  · rw [get?_nodes_ofModules, get?_nodes_ofModules, htargets,
      find?_name_eq_of_perm hreverse hnodup']
  · rw [get?_edges_ofModules, get?_edges_ofModules, htargets,
      find?_name_eq_of_perm hreverse hnodup']
  · rw [filter_unresolved_ofModules hnodup (hperm.mem_iff.2 hm),
      filter_unresolved_ofModules ws.nodup_names hm]
    exact forall₂_unresolvedReferences_perm hperm m

/-- The four modules in the opposite order.  Of the three references of `app`, one is resolved as
before, one means no module, and the candidates of the third are exchanged. -/
theorem ofModules_fourModules_reverse :
    fourModules.reverse.Perm fourModules ∧
    (ofModules fourModules.reverse).nodes.get? "app" = some ⟨"app", "app", ["core"]⟩ ∧
    List.Forall₂ UnresolvedReference.Agrees
      [⟨"app", ":nowhere", []⟩, ⟨"app", ":libs:ui", ["other", "ui"]⟩]
      [⟨"app", ":nowhere", []⟩, ⟨"app", ":libs:ui", ["ui", "other"]⟩] := by
  let ws : Workspace :=
    { root := "/ws", modules := fourModules, nodup_names := by decide, nodup_paths := by decide }
  have hperm : fourModules.reverse.Perm ws.modules := List.reverse_perm fourModules
  obtain ⟨hnodes, -, hunresolved⟩ := ofModules_agrees_of_perm ws hperm
  have hnode : (ofModules ws.modules).nodes.get? "app" = some ⟨"app", "app", ["core"]⟩ := by
    decide +kernel
  have hbefore : (ofModules fourModules.reverse).unresolved.filter (fun r => r.module = "app") =
      [⟨"app", ":nowhere", []⟩, ⟨"app", ":libs:ui", ["other", "ui"]⟩] := by decide +kernel
  have hafter : (ofModules ws.modules).unresolved.filter (fun r => r.module = "app") =
      [⟨"app", ":nowhere", []⟩, ⟨"app", ":libs:ui", ["ui", "other"]⟩] := by decide +kernel
  refine ⟨hperm, (hnodes "app").trans hnode, ?_⟩
  have happ := hunresolved _ List.mem_cons_self
  rwa [hbefore, hafter] at happ

end DependencyGraph

end GradleWorkspace
