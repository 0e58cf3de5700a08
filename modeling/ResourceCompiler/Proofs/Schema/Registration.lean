import ResourceCompiler.Report.Attempt
import ResourceCompiler.Schema.Registry

/-!
Registries as they come to be. Types are registered one by one, and no name or code is taken twice;
so a type is the same one however it is found.
-/

namespace ResourceCompiler.Registry

/-- The registries that registering types leads to. -/
def Registered (r : Registry) : Prop :=
  ∃ schemas : List Schema, schemas.foldlM register empty = .ok r

/-! Indices -/

section Index

variable {key : Schema → String} {index : Std.TreeMap String Nat} {schemas : Array Schema}
  {s : Schema}

/-- Each entry of an index leads to a type that has the key of the entry. -/
def LeadsToKey (key : Schema → String) (index : Std.TreeMap String Nat)
    (schemas : Array Schema) : Prop :=
  ∀ (k : String) (place : Nat), index[k]? = some place →
    ∃ s : Schema, schemas[place]? = some s ∧ key s = k

/-- Each type is found under its key. -/
def FindsEach (key : Schema → String) (index : Std.TreeMap String Nat)
    (schemas : Array Schema) : Prop :=
  ∀ (place : Nat) (s : Schema), schemas[place]? = some s → index[key s]? = some place

/-- The entry of a type that is put behind the others takes the place of any older one. -/
theorem LeadsToKey.push (h : LeadsToKey key index schemas) (s : Schema) :
    LeadsToKey key (index.insert (key s) schemas.size) (schemas.push s) := by
  intro k place hplace
  rw [Std.TreeMap.getElem?_insert] at hplace
  split at hplace
  · rename_i hkey
    obtain rfl := Option.some.inj hplace
    exact ⟨s, Array.getElem?_push_size, Std.LawfulEqCmp.eq_of_compare hkey⟩
  · obtain ⟨t, ht, hkey⟩ := h k place hplace
    have hlt := (Array.getElem?_eq_some_iff.mp ht).1
    exact ⟨t, by rw [Array.getElem?_push, if_neg (Nat.ne_of_lt hlt), ht], hkey⟩

/-- A new key leaves the entries of the others alone. -/
theorem FindsEach.push (h : FindsEach key index schemas)
    (hnew : ∀ t ∈ schemas.toList, key t ≠ key s) :
    FindsEach key (index.insert (key s) schemas.size) (schemas.push s) := by
  intro place t ht
  rw [Array.getElem?_push] at ht
  rw [Std.TreeMap.getElem?_insert]
  split at ht
  · rename_i hplace
    obtain rfl := Option.some.inj ht
    rw [if_pos Std.ReflCmp.compare_self, hplace]
  · rw [if_neg, h place t ht]
    intro hkey
    exact hnew t (Array.mem_toList_iff.mpr (Array.mem_of_getElem? ht))
      (Std.LawfulEqCmp.eq_of_compare hkey).symm

/-- A key that leads to no type is no type's key. -/
theorem FindsEach.ne_of_at {r : Registry} (h : FindsEach key index r.schemas) {k : String}
    (hnone : r.at? index[k]? = none) : ∀ t ∈ r.schemas.toList, key t ≠ k := by
  rintro t hmem rfl
  obtain ⟨place, ht⟩ := Array.mem_iff_getElem?.mp (Array.mem_toList_iff.mp hmem)
  rw [h place t ht, at?, Option.bind_some, ht] at hnone
  cases hnone

/-- An index that leads back to each type has a key of its own for each. -/
theorem FindsEach.nodup (h : FindsEach key index schemas) :
    (schemas.toList.map key).Nodup := by
  rw [List.nodup_iff_pairwise_ne, List.pairwise_map, List.pairwise_iff_getElem]
  intro i j hi hj hlt hkey
  have hplace (k : Nat) (hk : k < schemas.toList.length) :
      index[key schemas.toList[k]]? = some k :=
    h k _ (by rw [← Array.getElem?_toList, List.getElem?_eq_getElem hk])
  have hsame := hplace i hi
  rw [hkey, hplace j hj] at hsame
  exact Nat.ne_of_gt hlt (Option.some.inj hsame)

/-- An index that tells each type's place and no other. -/
theorem place_eq_some (hleads : LeadsToKey key index schemas)
    (hfinds : FindsEach key index schemas) {k : String} {place : Nat} :
    index[k]? = some place ↔ ∃ s : Schema, schemas[place]? = some s ∧ key s = k := by
  constructor
  · exact hleads k place
  · rintro ⟨s, hs, rfl⟩
    exact hfinds place s hs

theorem LeadsToKey.of_at {r : Registry} (h : LeadsToKey key index r.schemas) {k : String}
    (hs : r.at? index[k]? = some s) : s ∈ r.schemas.toList ∧ key s = k := by
  obtain ⟨place, hplace, hat⟩ := Option.bind_eq_some_iff.mp hs
  obtain ⟨t, ht, hkey⟩ := h k place hplace
  obtain rfl := Option.some.inj (ht.symm.trans hat)
  exact ⟨Array.mem_toList_iff.mpr (Array.mem_of_getElem? ht), hkey⟩

theorem at_eq_some {r : Registry} (hleads : LeadsToKey key index r.schemas)
    (hfinds : FindsEach key index r.schemas) {k : String} :
    r.at? index[k]? = some s ↔ s ∈ r.schemas.toList ∧ key s = k := by
  refine ⟨hleads.of_at, ?_⟩
  rintro ⟨hmem, rfl⟩
  obtain ⟨place, hs⟩ := Array.mem_iff_getElem?.mp (Array.mem_toList_iff.mp hmem)
  rw [at?, hfinds place s hs, Option.bind_some, hs]

end Index

/-- The indices agree with the types: a name leads to the type of that name, and the code of each
type leads to that type. -/
structure Coherent (r : Registry) : Prop where
  name_eq : ∀ (name : String) (place : Nat), r.byName[name]? = some place →
    ∃ s : Schema, r.schemas[place]? = some s ∧ s.name = name
  code_place : ∀ (place : Nat) (s : Schema), r.schemas[place]? = some s →
    r.byCode[s.code]? = some place

variable {r r' : Registry} {s t : Schema}

theorem coherent_empty : empty.Coherent where
  name_eq name place h := by simp [empty] at h
  code_place place s h := by simp [empty] at h

theorem register_eq_ok : r.register s = .ok r' ↔
    r.byName.contains s.name = false ∧ r.owner? s.code = none ∧
      r' = ⟨r.schemas.push s, r.byName.insert s.name r.schemas.size,
        r.byCode.insert s.code r.schemas.size⟩ := by
  unfold register
  cases hname : r.byName.contains s.name with
  | true => simp
  | false =>
    cases howner : r.owner? s.code with
    | some owner => simp
    | none => simp [eq_comm (a := r')]

theorem register_eq_error {e : CompileError} : r.register s = .error e ↔
    (r.byName.contains s.name = true ∧ e = .meaning s.location (.duplicateTypeName s.name)) ∨
      r.byName.contains s.name = false ∧ ∃ owner, r.owner? s.code = some owner ∧
        e = .meaning s.location (.duplicateTypeCode s.code owner.name) := by
  unfold register
  cases hname : r.byName.contains s.name with
  | true => simp [eq_comm (a := e)]
  | false =>
    cases howner : r.owner? s.code with
    | some owner => simp [eq_comm (a := e)]
    | none => simp

theorem schemas_of_register (h : r.register s = .ok r') :
    r'.schemas.toList = r.schemas.toList ++ [s] := by
  obtain ⟨-, -, rfl⟩ := register_eq_ok.mp h
  exact Array.toList_push

theorem mem_of_register (h : r.register s = .ok r') :
    t ∈ r'.schemas.toList ↔ t ∈ r.schemas.toList ∨ t = s := by
  rw [schemas_of_register h, List.mem_append, List.mem_singleton]

/-- A new type stands behind the others, under a name and a code that led nowhere. -/
theorem Coherent.register (h : r.Coherent) (hr : r.register s = .ok r') : r'.Coherent := by
  obtain ⟨-, howner, rfl⟩ := register_eq_ok.mp hr
  exact ⟨LeadsToKey.push h.name_eq s, FindsEach.push h.code_place
    (FindsEach.ne_of_at h.code_place howner)⟩

theorem coherent_of_fold {schemas : List Schema} (h : r.Coherent)
    (hr : schemas.foldlM Registry.register r = .ok r') : r'.Coherent := by
  induction schemas generalizing r with
  | nil =>
    cases hr
    exact h
  | cons s rest ih =>
    rw [List.foldlM_cons] at hr
    obtain ⟨r₁, hs, hrest⟩ := except_bind_eq_ok.mp hr
    exact ih (h.register hs) hrest

theorem Registered.coherent (h : r.Registered) : r.Coherent := by
  obtain ⟨schemas, hr⟩ := h
  exact coherent_of_fold coherent_empty hr

/-- What is found under a name has that name. -/
theorem Coherent.name_of_get (h : r.Coherent) {name : String} (hs : r.get? name = some s) :
    s.name = name := (LeadsToKey.of_at h.name_eq hs).2

/-- Types with one code are one type. -/
theorem Coherent.eq_of_code (h : r.Coherent) {name other : String} (hs : r.get? name = some s)
    (ht : r.get? other = some t) (hcode : s.code = t.code) : s = t := by
  obtain ⟨place, -, hplace⟩ := Option.bind_eq_some_iff.mp hs
  obtain ⟨place', -, hplace'⟩ := Option.bind_eq_some_iff.mp ht
  have hsame := h.code_place place s hplace
  rw [hcode, h.code_place place' t hplace'] at hsame
  obtain rfl := Option.some.inj hsame
  exact Option.some.inj (hplace.symm.trans hplace')

/-- Types are put behind the others in the order in which they are registered. -/
theorem schemas_of_fold {schemas : List Schema} (h : schemas.foldlM Registry.register r = .ok r') :
    r'.schemas.toList = r.schemas.toList ++ schemas := by
  induction schemas generalizing r with
  | nil =>
    cases h
    simp
  | cons s rest ih =>
    rw [List.foldlM_cons] at h
    obtain ⟨r₁, hs, hrest⟩ := except_bind_eq_ok.mp h
    rw [ih hrest, schemas_of_register hs, List.append_assoc, List.singleton_append]

/-- The name of each type leads to that type as well. -/
structure Indexed (r : Registry) : Prop extends r.Coherent where
  name_place : ∀ (place : Nat) (s : Schema), r.schemas[place]? = some s →
    r.byName[s.name]? = some place

theorem indexed_empty : empty.Indexed where
  toCoherent := coherent_empty
  name_place place s h := by simp [empty] at h

theorem Indexed.contains_iff (h : r.Indexed) {name : String} :
    r.byName.contains name = true ↔ ∃ t ∈ r.schemas.toList, t.name = name := by
  simp only [Std.TreeMap.contains_eq_isSome_getElem?, Option.isSome_iff_exists,
    place_eq_some h.name_eq h.name_place, Array.mem_toList_iff, Array.mem_iff_getElem?]
  exact ⟨fun ⟨place, t, ht, hname⟩ => ⟨t, ⟨place, ht⟩, hname⟩,
    fun ⟨t, ⟨place, ht⟩, hname⟩ => ⟨place, t, ht, hname⟩⟩

theorem Indexed.get_eq_some (h : r.Indexed) {name : String} :
    r.get? name = some s ↔ s ∈ r.schemas.toList ∧ s.name = name :=
  at_eq_some h.name_eq h.name_place

theorem Indexed.register (h : r.Indexed) (hr : r.register s = .ok r') : r'.Indexed := by
  refine ⟨h.toCoherent.register hr, ?_⟩
  obtain ⟨hname, -, rfl⟩ := register_eq_ok.mp hr
  refine FindsEach.push h.name_place fun t ht hsame => ?_
  rw [h.contains_iff.mpr ⟨t, ht, hsame⟩] at hname
  cases hname

theorem Indexed.names_nodup (h : r.Indexed) : (r.schemas.toList.map Schema.name).Nodup :=
  FindsEach.nodup h.name_place

theorem Coherent.codes_nodup (h : r.Coherent) : (r.schemas.toList.map Schema.code).Nodup :=
  FindsEach.nodup h.code_place

theorem lookup_eq_ok {name : String} {location : Location} :
    r.lookup name location = .ok s ↔ r.get? name = some s := by
  unfold lookup
  split <;> simp_all

end ResourceCompiler.Registry
