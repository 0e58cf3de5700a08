import ResourceCompiler.Proofs.Container.Grouping
import ResourceCompiler.Proofs.Container.StandardImage

/-!
The list of types in a file. Every format keeps one list of entries for all resources and lets each
type's entry say where in that list the type's own run starts and how long it is. What a reader
puts together from such runs is what the container holds.
-/

namespace ResourceCompiler

open Layout

/-- How many resources each type has. -/
def Standard.counts (c : Container) : List Nat := c.groups.map (·.resources.size)

open Standard (counts)

theorem total_counts (c : Container) : total (counts c) = c.resources.length :=
  c.resource_count_eq

/-- Grouping changes no sum over the resources. -/
theorem total_of_resources (added : List (String × Resource)) (size : String × Resource → Nat) :
    total ((Container.ofResources added).resources.map size) = total (added.map size) :=
  total_perm ((Container.resources_perm added).map size)

/-- Each type's code, as a file keeps it, with the type's own run of some entries. -/
def catalogue {α : Type} (c : Container) (entries : List α) : List (List UInt8 × List α) :=
  (c.groups.zip (cut (counts c) entries)).map fun (g, run) => (MacRoman.encode g.code, run)

theorem length_catalogue {α : Type} (c : Container) (entries : List α) :
    (catalogue c entries).length = c.groups.length := by
  simp [catalogue, length_cut, counts]

theorem map_catalogue {α β : Type} (c : Container) (f : α → β) (entries : List α) :
    (catalogue c entries).map (fun t => (t.1, t.2.map f)) = catalogue c (entries.map f) := by
  rw [catalogue, catalogue, cut_map, List.zip_map_right, List.map_map, List.map_map]
  rfl

/-- All runs together are all entries. -/
theorem flat_map_catalogue {α : Type} {c : Container} {entries : List α}
    (hlen : entries.length = c.resources.length) :
    (catalogue c entries).flatMap (·.2) = entries := by
  have hruns : (catalogue c entries).map (·.2) = cut (counts c) entries := by
    rw [catalogue, List.map_map]
    exact List.map_snd_zip (by simp [length_cut, counts])
  rw [List.flatMap_def, hruns, flatten_cut _ _ ((total_counts c).trans hlen.symm)]

/-- A type's run stands in one piece among all entries, behind those of the types in front. -/
theorem catalogue_get {α : Type} {c : Container} {entries : List α} {k : Nat}
    {t : List UInt8 × List α} (hlen : entries.length = c.resources.length)
    (ht : (catalogue c entries)[k]? = some t) :
    ∃ g preceding, c.groups[k]? = some g ∧
      (c.groups.zip (groupStarts c.groups))[k]? = some (g, preceding) ∧
      preceding + g.resources.size ≤ entries.length ∧
      t = (MacRoman.encode g.code, (entries.drop preceding).take g.resources.size) := by
  simp only [catalogue, List.getElem?_map, Option.map_eq_some_iff] at ht
  obtain ⟨⟨g, run⟩, hz, rfl⟩ := ht
  obtain ⟨hg, hr⟩ := List.getElem?_zip_eq_some.mp hz
  have hk : k < (counts c).length := by
    simpa [counts] using (List.getElem?_eq_some_iff.mp hg).1
  have hcount : (counts c)[k] = g.resources.size := by
    have : (counts c)[k]? = some g.resources.size := by simp [counts, hg]
    exact Option.some.inj ((List.getElem?_eq_getElem hk).symm.trans this)
  have hs : (groupStarts c.groups)[k]? = some (total ((counts c).take k)) := by
    rw [groupStarts, ← counts, starts_get _ _ _ hk, Nat.zero_add]
  have hroom := total_take_succ_le (counts c) k hk
  rw [total_counts, ← hlen, hcount] at hroom
  rw [cut_get _ _ _ hk, hcount, Option.some.injEq] at hr
  exact ⟨g, _, hg, List.getElem?_zip_eq_some.mpr ⟨hg, hs⟩, hroom, by rw [hr]⟩

/-- If every entry tells the same of its resource, each type's run tells it of the type's own. -/
theorem catalogue_map {α : Type} (c : Container) (f : String × Resource → α) :
    catalogue c (c.resources.map f) = c.groups.map fun g =>
      (MacRoman.encode g.code, g.resources.toList.map fun r => f (g.code, r)) := by
  let run (g : TypeGroup) : List α := g.resources.toList.map fun r => f (g.code, r)
  have hcounts : counts c =
      (c.groups.map fun g => g.resources.toList.map fun r => (g.code, r)).map List.length := by
    simp [counts, Function.comp_def]
  have hcut : cut (counts c) (c.resources.map f) = c.groups.map run := by
    rw [cut_map, hcounts, Container.resources, List.flatMap_def, cut_flatten, List.map_map]
    refine List.map_congr_left fun g _ => ?_
    rw [Function.comp_apply, List.map_map]
    rfl
  have hzip : c.groups.zip (c.groups.map run) = c.groups.map fun g => (g, run g) := by
    conv_lhs => rw [← List.map_id c.groups, List.map_map, List.zip_map']
    rfl
  rw [catalogue, hcut, hzip, List.map_map]
  rfl

/-- The catalogue that resources make up in the order of adding: the types in the order of their
first use, and in each its resources in the order of adding. -/
theorem catalogue_of_resources {α : Type} (added : List (String × Resource))
    (f : String × Resource → α) :
    catalogue (.ofResources added) ((Container.ofResources added).resources.map f) =
      (codesOf added).map fun code =>
        (MacRoman.encode code, (resourcesOf added code).map fun r => f (code, r)) := by
  rw [catalogue_map, (Container.groups_of_resources added).2, List.map_map]
  rfl

/-- Neighbouring entries of one size are read one after the other. -/
theorem read_run {α : Type} {read : Nat → Option α} {entries : List α} {list size : Nat}
    (h : ∀ i x, entries[i]? = some x → read (list + size * i) = some x) {preceding count : Nat}
    (hroom : preceding + count ≤ entries.length) :
    (List.range count).mapM (fun i => read (list + size * preceding + size * i)) =
      some ((entries.drop preceding).take count) := by
  have hlen : ((entries.drop preceding).take count).length = count := by
    rw [List.length_take, List.length_drop]
    omega
  conv_lhs => rw [← hlen]
  refine map_m_range fun i x hx => ?_
  rw [List.getElem?_take] at hx
  split at hx
  · rw [List.getElem?_drop] at hx
    have hread := h _ _ hx
    rwa [Nat.mul_add, ← Nat.add_assoc] at hread
  · simp at hx

end ResourceCompiler
