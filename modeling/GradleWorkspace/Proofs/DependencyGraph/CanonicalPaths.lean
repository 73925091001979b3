import GradleWorkspace.Path
import GradleWorkspace.Proofs.DependencyGraph.Closure

/-!
# References between modules with canonical paths

A reference is compared with the path of a module segment by segment, so that paths which differ in
their separators only, such as `libs/ui` and `libs\ui`, are meant by the same references.  A
canonical path has one slash between any two segments, and no segment has a separator in it.  Such
paths are told apart by their segments.

* `modulePathSegments_of_forall` and `referenceSegments_referenceTo` get the segments back from a
  canonical path and from the reference to it.
* `length_meant_le_one` says that a reference means one of the modules at most.
* `references_to_canonical_paths` puts this together for a workspace and its graph.
-/

namespace GradleWorkspace

/-! ## Canonical paths -/

/-- A segment of a canonical path is not empty and has no separator of paths or of references. -/
structure IsPathSegment (segment : String) : Prop where
  ne_nil : segment.toList ≠ []
  plain : ∀ c ∈ segment.toList, c ≠ '/' ∧ c ≠ '\\' ∧ c ≠ ':'

instance (segment : String) : Decidable (IsPathSegment segment) :=
  -- The characters of the segment are looked at, and not all characters there are.
  have := List.decidableBAll (fun c => c ≠ '/' ∧ c ≠ '\\' ∧ c ≠ ':') segment.toList
  decidable_of_iff
    (segment.toList ≠ [] ∧ ∀ c ∈ segment.toList, c ≠ '/' ∧ c ≠ '\\' ∧ c ≠ ':')
    ⟨fun h => ⟨h.1, h.2⟩, fun h => ⟨h.ne_nil, h.plain⟩⟩

/-- A path is canonical if it consists of segments with a slash between any two of them.  The path
of the workspace has no segments. -/
def IsCanonicalPath (path : String) : Prop :=
  ∃ segments : List String, (∀ segment ∈ segments, IsPathSegment segment) ∧
    path = Path.relativeText segments

/-- The reference to the module at a path: a colon stands before each segment. -/
def referenceTo (path : String) : String :=
  ":" ++ String.ofList (path.toList.map fun c => if c = '/' then ':' else c)

section Segments

variable {segments : List String}

theorem modulePathSegments_of_forall (h : ∀ segment ∈ segments, IsPathSegment segment) :
    modulePathSegments (Path.relativeText segments) = segments := by
  refine Text.segments_intercalate rfl rfl (fun segment hsegment => (h segment hsegment).ne_nil)
    fun segment hsegment c hc => ?_
  obtain ⟨hslash, hbackslash, -⟩ := (h segment hsegment).plain c hc
  simp [hslash, hbackslash]

/-- Whether a path is canonical can be read off its segments. -/
theorem isCanonicalPath_iff {path : String} : IsCanonicalPath path ↔
    (∀ segment ∈ modulePathSegments path, IsPathSegment segment) ∧
      path = Path.relativeText (modulePathSegments path) := by
  constructor
  · rintro ⟨segments, hsegments, rfl⟩
    rw [modulePathSegments_of_forall hsegments]
    exact ⟨hsegments, rfl⟩
  · rintro ⟨hsegments, hpath⟩
    exact ⟨_, hsegments, hpath⟩

instance (path : String) : Decidable (IsCanonicalPath path) :=
  decidable_of_iff _ isCanonicalPath_iff.symm

/-- Colons stand in the reference where slashes stand in the path. -/
theorem referenceTo_relativeText (h : ∀ segment ∈ segments, IsPathSegment segment) :
    referenceTo (Path.relativeText segments) = ":" ++ ":".intercalate segments := by
  have hplain : ∀ segment ∈ segments, ∀ c ∈ segment.toList, (if c = '/' then ':' else c) = c :=
    fun segment hsegment c hc => if_neg ((h segment hsegment).plain c hc).1
  have hcolons : ((Path.relativeText segments).map fun c => if c = '/' then ':' else c) =
      ":".intercalate segments := Text.map_intercalate_of_forall rfl hplain
  rw [referenceTo, ← hcolons, ← String.toList_map, String.ofList_toList]

theorem referenceSegments_referenceTo (h : ∀ segment ∈ segments, IsPathSegment segment) :
    referenceSegments (referenceTo (Path.relativeText segments)) = segments := by
  rw [referenceTo_relativeText h, referenceSegments, Text.segments_append rfl rfl]
  refine Text.segments_intercalate rfl rfl (fun segment hsegment => (h segment hsegment).ne_nil)
    fun segment hsegment c hc => ?_
  simpa using ((h segment hsegment).plain c hc).2.2

/-- Canonical paths with the same segments are the same. -/
theorem eq_of_modulePathSegments_eq {path other : String} (hpath : IsCanonicalPath path)
    (hother : IsCanonicalPath other) (h : modulePathSegments path = modulePathSegments other) :
    path = other := by
  obtain ⟨segments, hsegments, rfl⟩ := hpath
  obtain ⟨segments', hsegments', rfl⟩ := hother
  rw [modulePathSegments_of_forall hsegments, modulePathSegments_of_forall hsegments'] at h
  rw [h]

/-- The reference to a canonical path means the module at this path. -/
theorem refersTo_referenceTo {m : Module} (hcanonical : IsCanonicalPath m.path)
    (hne : m.path ≠ "") : RefersTo (referenceTo m.path) m := by
  obtain ⟨segments, hsegments, hpath⟩ := hcanonical
  rw [RefersTo, hpath, referenceSegments_referenceTo hsegments,
    modulePathSegments_of_forall hsegments]
  refine ⟨?_, rfl⟩
  rintro rfl
  exact hne hpath

end Segments

/-! ## What a reference means -/

section References

variable {modules : List Module} (hcanonical : ∀ m ∈ modules, IsCanonicalPath m.path)
  (hnodup : (modules.map Module.path).Nodup)
include hcanonical hnodup

/-- If paths are canonical and distinct, a reference means one module at most. -/
theorem length_meant_le_one (reference : String) : (meant reference modules).length ≤ 1 := by
  have hsame : ∀ m ∈ meant reference modules, ∀ other ∈ meant reference modules,
      m.path = other.path := by
    intro m hm other hother
    obtain ⟨hmem, hrefers⟩ := List.mem_filter.1 hm
    obtain ⟨hmem', hrefers'⟩ := List.mem_filter.1 hother
    exact eq_of_modulePathSegments_eq (hcanonical m hmem) (hcanonical other hmem')
      ((of_decide_eq_true hrefers).2.trans (of_decide_eq_true hrefers').2.symm)
  have hpaths : ((meant reference modules).map Module.path).Nodup :=
    hnodup.sublist (List.filter_sublist.map Module.path)
  cases hmeant : meant reference modules with
  | nil => exact Nat.zero_le 1
  | cons m others =>
      cases others with
      | nil => exact le_rfl
      | cons other others =>
          rw [hmeant] at hsame hpaths
          have heq := hsame m List.mem_cons_self other
            (List.mem_cons_of_mem _ List.mem_cons_self)
          simp [heq] at hpaths

theorem meant_referenceTo {m : Module} (hm : m ∈ modules) (hne : m.path ≠ "") :
    meant (referenceTo m.path) modules = [m] := by
  have hmem : m ∈ meant (referenceTo m.path) modules :=
    List.mem_filter.2 ⟨hm, decide_eq_true (refersTo_referenceTo (hcanonical m hm) hne)⟩
  have hle := length_meant_le_one hcanonical hnodup (referenceTo m.path)
  have hone := List.length_eq_one_iff.1 (hle.antisymm (List.length_pos_of_mem hmem))
  obtain ⟨other, hother⟩ := hone
  rw [hother, List.mem_singleton] at hmem
  rw [hother, hmem]

end References

namespace DependencyGraph

/-- If the paths of the modules are canonical, a reference is resolved to one module at most, each
module but one at the workspace itself is what the reference to its path is resolved to, and no
reference in the graph is ambiguous. -/
theorem references_to_canonical_paths (ws : Workspace)
    (hcanonical : ∀ m ∈ ws.modules, IsCanonicalPath m.path) :
    (∀ reference, (resolveProjectPath reference ws.modules).length ≤ 1) ∧
    (∀ m ∈ ws.modules, m.path ≠ "" →
      resolveProjectPath (referenceTo m.path) ws.modules = [m.name]) ∧
    ∀ r ∈ (ofModules ws.modules).unresolved, r.isAmbiguous = false := by
  have hle : ∀ reference, (resolveProjectPath reference ws.modules).length ≤ 1 := by
    intro reference
    rw [resolveProjectPath_eq_map_meant, List.length_map]
    exact length_meant_le_one hcanonical ws.nodup_paths reference
  refine ⟨hle, fun m hm hne => ?_, fun r hr => ?_⟩
  · rw [resolveProjectPath_eq_map_meant, meant_referenceTo hcanonical ws.nodup_paths hm hne]
    rfl
  · obtain ⟨m, -, hr⟩ := List.mem_flatMap.1 hr
    obtain ⟨path, -, rfl⟩ := List.mem_map.1 hr
    simpa [UnresolvedReference.isAmbiguous] using hle path

/-- A module at the workspace itself, and three modules whose paths have the same last segment.  One
reference means no module. -/
def modulesNamedCore : List Module :=
  [{ name := "shop", path := ""
     facts := { dependencies := [.project "api" ":libs:core", .project "api" ":core:core"] } },
   { name := "core", path := "core" },
   { name := "libs-core", path := "libs/core" },
   { name := "apps-core", path := "apps/core" }]

theorem references_to_modulesNamedCore :
    (∀ m ∈ modulesNamedCore, IsCanonicalPath m.path) ∧
    resolveProjectPath ":libs:core" modulesNamedCore = ["libs-core"] ∧
    (⟨"shop", ":core:core", []⟩ : UnresolvedReference) ∈ (ofModules modulesNamedCore).unresolved ∧
    ∀ r ∈ (ofModules modulesNamedCore).unresolved, r.isAmbiguous = false := by
  let ws : Workspace :=
    { root := "/ws", modules := modulesNamedCore
      nodup_names := by decide
      nodup_paths := by decide }
  have hcanonical : ∀ m ∈ ws.modules, IsCanonicalPath m.path := by decide +kernel
  obtain ⟨-, hreference, hunambiguous⟩ := references_to_canonical_paths ws hcanonical
  have hname : referenceTo "libs/core" = ":libs:core" := by decide +kernel
  have hresolved := hreference { name := "libs-core", path := "libs/core" }
    (List.mem_cons_of_mem _ (List.mem_cons_of_mem _ List.mem_cons_self)) (by simp)
  rw [hname] at hresolved
  exact ⟨hcanonical, hresolved, by decide +kernel, hunambiguous⟩

end DependencyGraph

end GradleWorkspace
