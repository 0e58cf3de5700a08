import ResourceCompiler.Container.Basic
import Mathlib.Data.List.Induction
import Mathlib.Data.List.Nodup

/-!
Containers as they come to be: resources are added one by one, each type stands where its first
resource put it, and under it are its resources in the order of adding.
-/

namespace ResourceCompiler

namespace Container

/-- The container that resources, each with its type code, make up in the order of adding. -/
def ofResources (added : List (String × Resource)) : Container :=
  added.foldl (fun c entry => c.add entry.1 entry.2) .empty

theorem of_resources_append (added : List (String × Resource)) (entry : String × Resource) :
    ofResources (added ++ [entry]) = (ofResources added).add entry.1 entry.2 := by
  simp [ofResources]

theorem resource_count_eq (c : Container) : c.resourceCount = c.resources.length := by
  rw [resourceCount, resources]
  induction c.groups with
  | nil => rfl
  | cons g rest ih => simp [total, ih]

end Container

/-- Adding a resource to groups of different codes. -/
theorem TypeGroup.insert_eq (code : String) (r : Resource) {codes : List String}
    (hn : codes.Nodup) (resources : String → Array Resource) :
    TypeGroup.insert code r (codes.map fun c => ⟨c, resources c⟩) =
      if code ∈ codes then
        codes.map fun c => ⟨c, if c = code then (resources c).push r else resources c⟩
      else (codes.map fun c => ⟨c, resources c⟩) ++ [⟨code, #[r]⟩] := by
  induction codes with
  | nil => rfl
  | cons first rest ih =>
    obtain ⟨hfirst, hrest⟩ := List.nodup_cons.mp hn
    rw [List.map_cons, TypeGroup.insert]
    by_cases h : first = code
    · subst h
      have hsame : rest.map (fun c => (⟨c, if c = first then (resources c).push r
          else resources c⟩ : TypeGroup)) = rest.map fun c => ⟨c, resources c⟩ := by
        refine List.map_congr_left fun c hc => ?_
        have hne : c ≠ first := fun he => hfirst (he ▸ hc)
        rw [if_neg hne]
      simp [hsame]
    · rw [if_neg h, ih hrest]
      have hmem : code ∈ first :: rest ↔ code ∈ rest := by simp [Ne.symm h]
      by_cases hin : code ∈ rest
      · simp [hin, hmem, h]
      · simp [hin, hmem]

/-- The codes of some resources, in the order of their first use. -/
def codesOf (added : List (String × Resource)) : List String := (added.map (·.1)).eraseDups

/-- The resources of one code among some, in order. -/
def resourcesOf (added : List (String × Resource)) (code : String) : List Resource :=
  (added.filter (·.1 == code)).map (·.2)

theorem mem_codes_of {added : List (String × Resource)} {code : String} :
    code ∈ codesOf added ↔ code ∈ added.map (·.1) := List.mem_eraseDups

theorem codes_of_append (added : List (String × Resource)) (entry : String × Resource) :
    codesOf (added ++ [entry]) =
      if entry.1 ∈ codesOf added then codesOf added else codesOf added ++ [entry.1] := by
  by_cases h : entry.1 ∈ added.map (·.1)
  · rw [if_pos (mem_codes_of.mpr h)]
    simp [codesOf, List.eraseDups_append, List.removeAll, h]
  · rw [if_neg (mt mem_codes_of.mp h)]
    simp [codesOf, List.eraseDups_append, List.eraseDups_cons, List.removeAll, h]

theorem resources_of_append (added : List (String × Resource)) (entry : String × Resource)
    (code : String) : resourcesOf (added ++ [entry]) code =
      if code = entry.1 then resourcesOf added code ++ [entry.2] else resourcesOf added code := by
  unfold resourcesOf
  by_cases h : code = entry.1
  · simp [h]
  · simp [h, Ne.symm h]

theorem resources_of_absent {added : List (String × Resource)} {code : String}
    (h : code ∉ codesOf added) : resourcesOf added code = [] := by
  simp only [mem_codes_of, List.mem_map, not_exists, not_and] at h
  rw [resourcesOf, List.map_eq_nil_iff, List.filter_eq_nil_iff]
  simpa using h

theorem mem_resources_of {added : List (String × Resource)} {code : String} {r : Resource} :
    r ∈ resourcesOf added code ↔ (code, r) ∈ added := by
  simp [resourcesOf]

/-- A container has one group for each code in the order of first use, and in it the resources of
that code in the order of adding. -/
theorem Container.groups_of_resources (added : List (String × Resource)) :
    (codesOf added).Nodup ∧ (ofResources added).groups =
      (codesOf added).map fun code => ⟨code, (resourcesOf added code).toArray⟩ := by
  induction added using List.reverseRecOn with
  | nil => exact ⟨List.nodup_nil, rfl⟩
  | append_singleton added entry ih =>
    obtain ⟨hn, hg⟩ := ih
    rw [of_resources_append, add, hg, TypeGroup.insert_eq _ _ hn, codes_of_append]
    simp only [resources_of_append]
    by_cases h : entry.1 ∈ codesOf added
    · refine ⟨by rwa [if_pos h], ?_⟩
      rw [if_pos h, if_pos h]
      refine List.map_congr_left fun c _ => ?_
      split <;> simp
    · have hnew : (codesOf added ++ [entry.1]).Nodup := by
        rw [List.nodup_append]
        refine ⟨hn, List.nodup_singleton _, ?_⟩
        rintro c hc _ hs rfl
        exact h (List.mem_singleton.mp hs ▸ hc)
      refine ⟨by rwa [if_neg h], ?_⟩
      rw [if_neg h, if_neg h, List.map_append, List.map_singleton, if_pos rfl,
        resources_of_absent h]
      congr 1
      refine List.map_congr_left fun c hc => ?_
      have hne : c ≠ entry.1 := fun he => h (he ▸ hc)
      rw [if_neg hne]

/-- The groups one behind the other. -/
theorem Container.resources_of_resources (added : List (String × Resource)) :
    (ofResources added).resources =
      (codesOf added).flatMap fun code => added.filter (·.1 == code) := by
  rw [resources, (groups_of_resources added).2, List.flatMap_map]
  refine List.flatMap_congr fun code _ => ?_
  rw [List.toList_toArray, resourcesOf, List.map_map]
  refine (List.map_congr_left fun entry hentry => ?_).trans (List.map_id _)
  obtain ⟨-, hcode⟩ := List.mem_filter.mp hentry
  rw [Function.comp_apply, ← beq_iff_eq.mp hcode, id]

/-- Grouping keeps the resources of a code, and their order. -/
theorem Container.filter_resources (added : List (String × Resource)) (code : String) :
    (ofResources added).resources.filter (·.1 == code) = added.filter (·.1 == code) := by
  have hone : ∀ {codes : List String}, codes.Nodup →
      (codes.flatMap fun c => added.filter (·.1 == c)).filter (·.1 == code) =
        if code ∈ codes then added.filter (·.1 == code) else [] := by
    intro codes hn
    induction codes with
    | nil => rfl
    | cons c rest ih =>
      obtain ⟨hc, hrest⟩ := List.nodup_cons.mp hn
      rw [List.flatMap_cons, List.filter_append, ih hrest, List.filter_filter]
      by_cases h : code = c
      · subst h
        simp [hc]
      · have hnone : added.filter (fun e => e.1 == code && e.1 == c) = [] := by
          refine List.filter_eq_nil_iff.mpr fun e _ he => h ?_
          obtain ⟨h₁, h₂⟩ := Bool.and_eq_true_iff.mp he
          exact (beq_iff_eq.mp h₁).symm.trans (beq_iff_eq.mp h₂)
        rw [hnone, List.nil_append]
        simp [h]
  rw [resources_of_resources, hone (groups_of_resources added).1]
  split
  · rfl
  · rename_i hcode
    refine (List.filter_eq_nil_iff.mpr fun e he h => hcode ?_).symm
    exact mem_codes_of.mpr (List.mem_map.mpr ⟨e, he, beq_iff_eq.mp h⟩)

/-- Adding a resource keeps the others. -/
theorem Container.resources_add_perm (c : Container) (code : String) (r : Resource) :
    (c.add code r).resources.Perm ((code, r) :: c.resources) := by
  rw [resources, resources, add]
  induction c.groups with
  | nil => rfl
  | cons g rest ih =>
    rw [TypeGroup.insert]
    split
    · rename_i hcode
      subst hcode
      simp only [List.flatMap_cons, Array.toList_push, List.map_append, List.map_singleton,
        List.append_assoc, List.singleton_append]
      exact List.perm_middle
    · rw [List.flatMap_cons, List.flatMap_cons]
      exact (ih.append_left _).trans List.perm_middle

/-- Grouping neither loses a resource nor makes up one. -/
theorem Container.resources_perm (added : List (String × Resource)) :
    (ofResources added).resources.Perm added := by
  induction added using List.reverseRecOn with
  | nil => rfl
  | append_singleton added entry ih =>
    rw [of_resources_append]
    exact (resources_add_perm ..).trans
      ((ih.cons entry).trans (List.perm_append_singleton entry added).symm)

theorem Container.mem_resources {added : List (String × Resource)} {e : String × Resource} :
    e ∈ (ofResources added).resources ↔ e ∈ added := (resources_perm added).mem_iff

/-- A type comes into a container with its first resource. -/
theorem Container.groups_nonempty (added : List (String × Resource)) :
    ∀ g ∈ (ofResources added).groups, 0 < g.resources.size := by
  intro g hg
  rw [(groups_of_resources added).2] at hg
  obtain ⟨code, hcode, rfl⟩ := List.mem_map.mp hg
  obtain ⟨entry, he, hc⟩ := List.mem_map.mp (mem_codes_of.mp hcode)
  have hin : entry.2 ∈ resourcesOf added code := mem_resources_of.mpr (hc ▸ he)
  rw [List.size_toArray]
  exact List.length_pos_of_mem hin

/-- The types of a container are those of the resources. -/
theorem Container.forall_codes {p : String → Prop} (added : List (String × Resource)) :
    (∀ g ∈ (ofResources added).groups, p g.code) ↔ ∀ entry ∈ added, p entry.1 := by
  simp only [(groups_of_resources added).2, List.forall_mem_map, mem_codes_of]

theorem Container.entry_of_group {added : List (String × Resource)} {g : TypeGroup}
    (hg : g ∈ (ofResources added).groups) : ∃ e ∈ added, e.1 = g.code :=
  (forall_codes (p := fun code => ∃ e ∈ added, e.1 = code) added).mpr
    (fun e he => ⟨e, he, rfl⟩) g hg

/-- A container has an id under a code if one of the resources has it. -/
theorem Container.contains_of_resources {added : List (String × Resource)} {code : String}
    {id : Int64} : (ofResources added).contains code id = true ↔
      ∃ entry ∈ added, entry.1 = code ∧ entry.2.id = id := by
  rw [contains, group?, (groups_of_resources added).2]
  cases hfound : ((codesOf added).map fun code =>
      (⟨code, (resourcesOf added code).toArray⟩ : TypeGroup)).find? (·.code == code) with
  | none =>
    rw [List.find?_eq_none, List.forall_mem_map] at hfound
    simp only [Option.any_none, Bool.false_eq_true, false_iff, not_exists, not_and]
    rintro entry hentry rfl
    have hcode : entry.1 ∈ codesOf added := mem_codes_of.mpr (List.mem_map_of_mem hentry)
    exact absurd (beq_self_eq_true entry.1) (hfound _ hcode)
  | some g =>
    obtain ⟨c, -, rfl⟩ := List.mem_map.mp (List.mem_of_find?_eq_some hfound)
    have hcode := List.find?_some hfound
    obtain rfl := beq_iff_eq.mp hcode
    simp only [Option.any_some, TypeGroup.contains, List.any_toArray, List.any_eq_true, beq_iff_eq,
      mem_resources_of]
    constructor
    · rintro ⟨r, hr, hid⟩
      exact ⟨_, hr, rfl, hid⟩
    · rintro ⟨⟨c, r⟩, hentry, rfl, hid⟩
      exact ⟨r, hentry, hid⟩

/-- Resources of one type make up one group. -/
theorem Container.groups_of_one_type (code : String) {resources : List Resource}
    (h : resources ≠ []) : (ofResources (resources.map (code, ·))).groups =
      [⟨code, resources.toArray⟩] := by
  have hcodes : codesOf (resources.map (code, ·)) = [code] := by
    obtain ⟨first, rest, rfl⟩ := List.exists_cons_of_ne_nil h
    have hrest : ((rest.map (code, ·)).map (·.1)).filter (fun c => !c == code) = [] :=
      List.filter_eq_nil_iff.mpr (by simp)
    rw [codesOf, List.map_cons, List.map_cons, List.eraseDups_cons, hrest, List.eraseDups_nil]
  have hresources : resourcesOf (resources.map (code, ·)) code = resources := by
    simp [resourcesOf, List.filter_map, Function.comp_def]
  rw [(groups_of_resources _).2, hcodes, List.map_singleton, hresources]

/-! Grouping as a whole -/

/-- The codes stand in the order of their first use. -/
theorem codes_of_ordered (added : List (String × Resource)) :
    (codesOf added).Pairwise fun first second =>
      (added.map (·.1)).idxOf first < (added.map (·.1)).idxOf second := by
  induction added using List.reverseRecOn with
  | nil => exact .nil
  | append_singleton added entry ih =>
    rw [List.map_append]
    -- What is first used among the old resources is so with one more behind them.
    have hold : (codesOf added).Pairwise fun first second =>
        (added.map (·.1) ++ [entry].map (·.1)).idxOf first <
          (added.map (·.1) ++ [entry].map (·.1)).idxOf second := by
      refine ih.imp_of_mem fun hfirst hsecond hlt => ?_
      rwa [List.idxOf_append_of_mem (mem_codes_of.mp hfirst),
        List.idxOf_append_of_mem (mem_codes_of.mp hsecond)]
    rw [codes_of_append]
    split
    · exact hold
    · rename_i hnew
      refine List.pairwise_append.mpr ⟨hold, List.pairwise_singleton _ _, ?_⟩
      intro code hcode _ hlast
      obtain rfl := List.mem_singleton.mp hlast
      rw [List.idxOf_append_of_mem (mem_codes_of.mp hcode),
        List.idxOf_append_of_notMem (mt mem_codes_of.mpr hnew)]
      exact Nat.lt_add_right _ (List.idxOf_lt_length_of_mem (mem_codes_of.mp hcode))

/-- A container holds some resources in one group for each type: the types in the order of their
first use, and in each group its resources in the order of adding. -/
structure Grouped (added : List (String × Resource)) (c : Container) : Prop where
  codes_nodup : (c.groups.map TypeGroup.code).Nodup
  mem_codes : ∀ code, code ∈ c.groups.map TypeGroup.code ↔ code ∈ added.map (·.1)
  first_use : (c.groups.map TypeGroup.code).Pairwise fun first second =>
    (added.map (·.1)).idxOf first < (added.map (·.1)).idxOf second
  nonempty : ∀ g ∈ c.groups, 0 < g.resources.size
  resources_of : ∀ g ∈ c.groups, g.resources.toList = resourcesOf added g.code
  resources_eq : c.resources = c.groups.flatMap fun g => added.filter (·.1 == g.code)
  resources_perm : c.resources.Perm added
  resource_count : c.resources.length = added.length ∧ c.resourceCount = added.length
  contains_iff : ∀ code id, c.contains code id = true ↔
    ∃ entry ∈ added, entry.1 = code ∧ entry.2.id = id

theorem grouping_is_stable (added : List (String × Resource)) :
    Grouped added (.ofResources added) := by
  obtain ⟨hnodup, hgroups⟩ := Container.groups_of_resources added
  have hcodes : (Container.ofResources added).groups.map TypeGroup.code = codesOf added := by
    rw [hgroups, List.map_map]
    exact List.map_id _
  have hperm := Container.resources_perm added
  refine ⟨hcodes ▸ hnodup, fun code => ?_, hcodes ▸ codes_of_ordered added,
    Container.groups_nonempty added, fun g hg => ?_, ?_, hperm,
    ⟨hperm.length_eq, (Container.resource_count_eq _).trans hperm.length_eq⟩,
    fun code id => Container.contains_of_resources⟩
  · rw [hcodes, mem_codes_of]
  · rw [hgroups] at hg
    obtain ⟨code, -, rfl⟩ := List.mem_map.mp hg
    rfl
  · rw [Container.resources_of_resources, hgroups, List.flatMap_map]

/-! Lists cut into pieces -/

/-- The pieces of a list that have the given lengths. -/
def cut {α : Type} : List Nat → List α → List (List α)
  | [], _ => []
  | n :: rest, xs => xs.take n :: cut rest (xs.drop n)

theorem length_cut {α : Type} (counts : List Nat) (xs : List α) :
    (cut counts xs).length = counts.length := by
  induction counts generalizing xs with
  | nil => rfl
  | cons n rest ih => simp [cut, ih]

/-- A piece stands behind the pieces in front of it. -/
theorem cut_get {α : Type} (counts : List Nat) (xs : List α) (k : Nat) (hk : k < counts.length) :
    (cut counts xs)[k]? = some ((xs.drop (total (counts.take k))).take counts[k]) := by
  induction counts generalizing xs k with
  | nil => simp at hk
  | cons n rest ih =>
    cases k with
    | zero => simp [cut, total]
    | succ k =>
      have hr : k < rest.length := by simpa using hk
      simp [cut, total, ih (xs.drop n) k hr, List.drop_drop]

theorem cut_map {α β : Type} (f : α → β) (counts : List Nat) (xs : List α) :
    cut counts (xs.map f) = (cut counts xs).map (List.map f) := by
  induction counts generalizing xs with
  | nil => rfl
  | cons n rest ih => simp [cut, ← ih, List.map_take, List.map_drop]

/-- Lists that were put together are cut apart again. -/
theorem cut_flatten {α : Type} (pieces : List (List α)) :
    cut (pieces.map List.length) pieces.flatten = pieces := by
  induction pieces with
  | nil => rfl
  | cons piece rest ih => simp [cut, ih]

/-- Cutting loses nothing. -/
theorem flatten_cut {α : Type} (counts : List Nat) (xs : List α)
    (h : total counts = xs.length) : (cut counts xs).flatten = xs := by
  induction counts generalizing xs with
  | nil =>
    have hx : xs = [] := List.length_eq_zero_iff.mp h.symm
    simp [cut, hx]
  | cons n rest ih =>
    have hd : total rest = (xs.drop n).length := by
      rw [List.length_drop, ← h, total]
      omega
    rw [cut, List.flatten_cons, ih _ hd, List.take_append_drop]

end ResourceCompiler
