import Mathlib.Data.List.Chain
import Mathlib.Logic.Relation
import GradleWorkspace.DependencyGraph.Basic

/-!
# Reachability and directed cycles

What a dependency graph means, without the algorithms that run on it: its edges, the names that
can be reached from its nodes, and its directed cycles.  The steps of a cycle are the edges that
it uses, so that a cycle survives in a graph exactly if all its steps do.
-/

namespace GradleWorkspace.DependencyGraph

/-! ## Reachability -/

/-- An edge leads from one name to another. -/
def Edge (g : DependencyGraph) (source target : String) : Prop := target ∈ g.successors source

instance (g : DependencyGraph) (source target : String) : Decidable (g.Edge source target) :=
  inferInstanceAs (Decidable (target ∈ g.successors source))

/-- Zero or more edges lead from one name to another. -/
def Reaches (g : DependencyGraph) : String → String → Prop := Relation.ReflTransGen g.Edge

/-- Zero or more edges lead from some node to the name. -/
def Reachable (g : DependencyGraph) (name : String) : Prop :=
  ∃ node ∈ g.nodes.keys, g.Reaches node name

theorem reachable_of_mem_keys {g : DependencyGraph} {node : String} (h : node ∈ g.nodes.keys) :
    g.Reachable node := ⟨node, h, .refl⟩

theorem Reachable.trans {g : DependencyGraph} {source target : String}
    (h : g.Reachable source) (hreaches : g.Reaches source target) : g.Reachable target := by
  obtain ⟨node, hnode, hsource⟩ := h
  exact ⟨node, hnode, Relation.ReflTransGen.trans hsource hreaches⟩

/-- Names that are closed under edges hold all that can be reached from them. -/
theorem Reaches.mem_of_closed {g : DependencyGraph} {names : List String}
    (hclosed : ∀ source ∈ names, g.successors source ⊆ names) {source target : String}
    (h : g.Reaches source target) (hsource : source ∈ names) : target ∈ names := by
  induction h with
  | refl => exact hsource
  | tail _ hedge ih => exact hclosed _ ih hedge

/-! ## Directed cycles -/

/-- A directed cycle: each name has an edge to the next one, and the last has an edge to the
first.  A single name with an edge to itself is a cycle, and a name may occur repeatedly. -/
structure IsCycle (g : DependencyGraph) (names : List String) : Prop where
  ne_nil : names ≠ []
  isChain : names.IsChain g.Edge
  closing : ∀ last ∈ names.getLast?, ∀ first ∈ names.head?, g.Edge last first

theorem IsCycle.of_edge {g g' : DependencyGraph} {names : List String} (h : g.IsCycle names)
    (hedge : ∀ source target, g.Edge source target → g'.Edge source target) : g'.IsCycle names :=
  ⟨h.ne_nil, h.isChain.imp hedge,
    fun last hlast first hfirst => hedge last first (h.closing last hlast first hfirst)⟩

/-- The steps of a cycle, from each name to the next one and from the last to the first. -/
def steps (names : List String) : List (String × String) :=
  names.zip (names.tail ++ names.head?.toList)

theorem rel_of_mem_zip {R : String → String → Prop} {first last source target : String}
    {names : List String} (h : (first :: names ++ [last]).IsChain R)
    (hstep : (source, target) ∈ (first :: names).zip (names ++ [last])) : R source target := by
  induction names generalizing first with
  | nil =>
      obtain ⟨rfl, rfl⟩ : source = first ∧ target = last := by simpa using hstep
      simpa using h
  | cons next names ih =>
      obtain ⟨hfirst, hrest⟩ : R first next ∧ (next :: names ++ [last]).IsChain R := by
        simpa using h
      rcases List.mem_cons.1 hstep with heq | htail
      · obtain ⟨rfl, rfl⟩ := Prod.mk.inj heq
        exact hfirst
      · exact ih hrest htail

/-- The steps of a cycle are edges. -/
theorem IsCycle.edge_of_mem_steps {g : DependencyGraph} {names : List String}
    {source target : String} (h : g.IsCycle names) (hstep : (source, target) ∈ steps names) :
    g.Edge source target := by
  cases names with
  | nil => exact absurd rfl h.ne_nil
  | cons first rest =>
      have hclosed : (first :: rest ++ [first]).IsChain g.Edge :=
        List.IsChain.append h.isChain (.singleton first)
          fun last hlast other hother => by
            obtain rfl : first = other := by simpa using hother
            exact h.closing last hlast first rfl
      exact rel_of_mem_zip hclosed hstep

theorem mem_of_mem_steps {names : List String} {source target : String}
    (h : (source, target) ∈ steps names) : target ∈ names := by
  rcases List.mem_append.1 (List.of_mem_zip h).2 with htail | hhead
  · exact List.mem_of_mem_tail htail
  · exact List.mem_of_mem_head? (by simpa using hhead)

/-- A cycle goes on from each of its names. -/
theorem exists_mem_steps {names : List String} {source : String} (h : source ∈ names) :
    ∃ target, (source, target) ∈ steps names := by
  have hlength : names.length ≤ (names.tail ++ names.head?.toList).length := by
    cases names <;> simp
  rw [← List.map_fst_zip hlength] at h
  obtain ⟨⟨_, target⟩, hstep, rfl⟩ := List.mem_map.1 h
  exact ⟨target, hstep⟩

/-- From the first name of a chain of edges all others can be reached. -/
theorem reaches_of_isChain {g : DependencyGraph} {first name : String} {rest : List String}
    (h : (first :: rest).IsChain g.Edge) (hname : name ∈ first :: rest) :
    g.Reaches first name := by
  induction rest generalizing first with
  | nil =>
      obtain rfl : name = first := by simpa using hname
      exact .refl
  | cons next rest ih =>
      obtain ⟨hfirst, hrest⟩ := List.isChain_cons_cons.1 h
      rcases List.mem_cons.1 hname with rfl | htail
      · exact .refl
      · exact .head hfirst (ih hrest htail)

/-- A cycle with a reachable name has reachable names only. -/
theorem IsCycle.reachable_of_mem {g : DependencyGraph} {names : List String} {name other : String}
    (h : g.IsCycle names) (hname : name ∈ names) (hreachable : g.Reachable name)
    (hother : other ∈ names) : g.Reachable other := by
  obtain ⟨first, rest, rfl⟩ := List.exists_cons_of_ne_nil h.ne_nil
  obtain ⟨before, after, hsplit⟩ := List.append_of_mem hname
  -- From the name the walk goes on to the last one, from there to the first, and then to all.
  have hlast : (first :: rest).getLast h.ne_nil ∈ name :: after := by
    simp [hsplit]
  have hsuffix : (name :: after).IsChain g.Edge := by
    have hchain := h.isChain
    rw [hsplit] at hchain
    exact hchain.right_of_append
  have hclosing : g.Edge ((first :: rest).getLast h.ne_nil) first :=
    h.closing _ (List.getLast?_eq_some_getLast h.ne_nil) _ rfl
  have hfirst : g.Reachable first :=
    hreachable.trans (.tail (reaches_of_isChain hsuffix hlast) hclosing)
  exact hfirst.trans (reaches_of_isChain h.isChain hother)

/-! ## Removing edges -/

/-- The graph without the edges from the first to the second name of each of the given pairs. -/
def withoutEdges (g : DependencyGraph) (removed : List (String × String)) : DependencyGraph where
  nodes := g.nodes
  edges :=
    { entries := g.edges.entries.map fun entry =>
        (entry.1, entry.2.filter fun target => (entry.1, target) ∉ removed)
      nodup_keys := by
        rw [List.map_map]
        exact g.edges.nodup_keys }
  unresolved := g.unresolved

theorem lookup_map_entries {β γ : Type} (f : String → β → γ) (entries : List (String × β))
    (key : String) :
    (entries.map fun entry => (entry.1, f entry.1 entry.2)).lookup key =
      (entries.lookup key).map (f key) := by
  induction entries with
  | nil => rfl
  | cons entry rest ih =>
      rw [List.map_cons, List.lookup_cons, List.lookup_cons, ih]
      by_cases hkey : key = entry.1
      · simp [hkey]
      · simp [beq_false_of_ne hkey]

theorem successors_withoutEdges (g : DependencyGraph) (removed : List (String × String))
    (name : String) :
    (g.withoutEdges removed).successors name =
      (g.successors name).filter fun target => (name, target) ∉ removed := by
  have hlookup : (g.withoutEdges removed).edges.get? name =
      (g.edges.get? name).map (·.filter fun target => (name, target) ∉ removed) :=
    lookup_map_entries
      (fun (key : String) (targets : List String) =>
        targets.filter fun target => (key, target) ∉ removed)
      g.edges.entries name
  unfold successors
  rw [hlookup]
  cases g.edges.get? name <;> rfl

theorem edge_withoutEdges {g : DependencyGraph} {removed : List (String × String)}
    {source target : String} :
    (g.withoutEdges removed).Edge source target ↔
      g.Edge source target ∧ (source, target) ∉ removed := by
  unfold Edge
  rw [successors_withoutEdges, List.mem_filter, decide_eq_true_iff]

end GradleWorkspace.DependencyGraph
