import ResourceCompiler.Proofs.Schema.Registration
import Mathlib.Data.List.Induction

/-!
A registry over any sequence of registrations, refused ones among them. It is a map with two keys
to which entries are only added: what it holds are the types whose name and code both were new when
they came, and a refusal leaves no trace.
-/

namespace ResourceCompiler.Registry

/-! Registrations and what they leave -/

/-- Registers a type in the registry at hand, as a definition does. -/
def offer (s : Schema) : Attempt Registry Unit := do
  let r ← Attempt.lift ((← Attempt.get).register s)
  Attempt.modify fun _ => r

/-- The registry behind some registrations, whatever came of each. -/
def behind (offered : List Schema) : Registry :=
  offered.foldl (fun r s => (offer s r).2) .empty

/-- A type has a name and a code that none of the others has. -/
def Fresh (kept : List Schema) (s : Schema) : Prop :=
  ∀ t ∈ kept, t.name ≠ s.name ∧ t.code ≠ s.code

instance (kept : List Schema) (s : Schema) : Decidable (Fresh kept s) :=
  inferInstanceAs (Decidable (∀ t ∈ kept, t.name ≠ s.name ∧ t.code ≠ s.code))

/-- The types of a sequence that differ in name and in code from all those kept before them. -/
def admitted (offered : List Schema) : List Schema :=
  offered.foldl (fun kept s => if Fresh kept s then kept ++ [s] else kept) []

/-- What comes of registering a type with a registry that holds some types. A name that is taken is
reported whatever the code is, and for a code that is taken the report names its owner. -/
inductive Offered (kept : List Schema) (r : Registry) (s : Schema) :
    Except CompileError Unit × Registry → Prop
  | accepted {r' : Registry} : Fresh kept s → r'.size = r.size + 1 →
    (∀ name, r'.get? name = if name = s.name then some s else r.get? name) →
    Offered kept r s (.ok (), r')
  | nameTaken {t : Schema} : t ∈ kept → t.name = s.name →
    Offered kept r s (.error (.meaning s.location (.duplicateTypeName s.name)), r)
  | codeTaken {owner : Schema} : (∀ t ∈ kept, t.name ≠ s.name) → owner ∈ kept →
    owner.code = s.code →
    Offered kept r s (.error (.meaning s.location (.duplicateTypeCode s.code owner.name)), r)

/-- A registry holds just the given types, in their order, each found by its name and its code. -/
structure Holds (r : Registry) (kept : List Schema) : Prop where
  schemas_eq : r.schemas.toList = kept
  size_eq : r.size = kept.length
  names_nodup : (kept.map Schema.name).Nodup
  codes_nodup : (kept.map Schema.code).Nodup
  name_place : ∀ (name : String) (place : Nat),
    r.byName[name]? = some place ↔ ∃ s : Schema, kept[place]? = some s ∧ s.name = name
  code_place : ∀ (code : String) (place : Nat),
    r.byCode[code]? = some place ↔ ∃ s : Schema, kept[place]? = some s ∧ s.code = code
  get_eq_some : ∀ (name : String) (s : Schema), r.get? name = some s ↔ s ∈ kept ∧ s.name = name
  lookup_eq_ok : ∀ (name : String) (location : Location) (s : Schema),
    r.lookup name location = .ok s ↔ s ∈ kept ∧ s.name = name

/-! The invariant -/

/-- The code index too leads to types of the right code only. -/
structure Linked (r : Registry) : Prop extends r.Indexed where
  code_eq : ∀ (code : String) (place : Nat), r.byCode[code]? = some place →
    ∃ s : Schema, r.schemas[place]? = some s ∧ s.code = code

variable {r r' : Registry} {s : Schema}

theorem linked_empty : empty.Linked where
  toIndexed := indexed_empty
  code_eq code place h := by simp [empty] at h

theorem Linked.register (h : r.Linked) (hr : r.register s = .ok r') : r'.Linked := by
  refine ⟨h.toIndexed.register hr, ?_⟩
  obtain ⟨-, -, rfl⟩ := register_eq_ok.mp hr
  exact LeadsToKey.push h.code_eq s

theorem Linked.owner_eq_some (h : r.Linked) {code : String} :
    r.owner? code = some s ↔ s ∈ r.schemas.toList ∧ s.code = code :=
  at_eq_some h.code_eq h.code_place

/-! One registration -/

theorem offer_ok (h : r.register s = .ok r') : offer s r = (.ok (), r') := by
  simp [offer, Attempt.bind_apply, Attempt.get, h]

theorem offer_error {e : CompileError} (h : r.register s = .error e) :
    offer s r = (.error e, r) := by
  simp [offer, Attempt.bind_apply, Attempt.get, h]

/-- A registry takes in just the types that are new to it in name and in code. -/
theorem Linked.accepts_iff (h : r.Linked) :
    (∃ r', r.register s = .ok r') ↔ Fresh r.schemas.toList s := by
  have hname : r.byName.contains s.name = false ↔ ∀ t ∈ r.schemas.toList, t.name ≠ s.name := by
    simp [← Bool.not_eq_true, h.contains_iff]
  have hcode : r.owner? s.code = none ↔ ∀ t ∈ r.schemas.toList, t.code ≠ s.code := by
    simp [Option.eq_none_iff_forall_ne_some, h.owner_eq_some]
  simp only [register_eq_ok, exists_and_left, exists_eq, and_true, hname, hcode, Fresh, forall_and]

/-- A type that is taken in is found under its name, and under no other name anything changes. -/
theorem Linked.get_register (h : r.Linked) (hr : r.register s = .ok r') (name : String) :
    r'.get? name = if name = s.name then some s else r.get? name := by
  have h' := h.register hr
  split
  · rename_i hname
    exact h'.get_eq_some.mpr ⟨(mem_of_register hr).mpr (.inr rfl), hname.symm⟩
  · rename_i hname
    refine Option.ext fun t => ?_
    rw [h'.get_eq_some, h.get_eq_some, mem_of_register hr]
    constructor
    · rintro ⟨ht | rfl, htname⟩
      · exact ⟨ht, htname⟩
      · exact absurd htname.symm hname
    · rintro ⟨ht, htname⟩
      exact ⟨.inl ht, htname⟩

theorem Linked.offered (h : r.Linked) (s : Schema) :
    Offered r.schemas.toList r s (offer s r) := by
  cases hr : r.register s with
  | ok r' =>
    rw [offer_ok hr]
    have hsize : r'.size = r.size + 1 := by
      simpa [size] using congrArg List.length (schemas_of_register hr)
    exact .accepted (h.accepts_iff.mp ⟨r', hr⟩) hsize (h.get_register hr)
  | error e =>
    rw [offer_error hr]
    rcases register_eq_error.mp hr with ⟨hname, rfl⟩ | ⟨hname, owner, howner, rfl⟩
    · obtain ⟨t, ht, hsame⟩ := h.contains_iff.mp hname
      exact .nameTaken ht hsame
    · obtain ⟨hmem, hcode⟩ := h.owner_eq_some.mp howner
      refine .codeTaken (fun t ht hsame => ?_) hmem hcode
      rw [h.contains_iff.mpr ⟨t, ht, hsame⟩] at hname
      cases hname

/-! Any registrations -/

theorem behind_append (offered : List Schema) (s : Schema) :
    behind (offered ++ [s]) = (offer s (behind offered)).2 := by
  simp [behind]

theorem admitted_append (offered : List Schema) (s : Schema) : admitted (offered ++ [s]) =
    if Fresh (admitted offered) s then admitted offered ++ [s] else admitted offered := by
  rw [admitted, List.foldl_append]
  rfl

theorem Linked.offer (h : r.Linked) (s : Schema) : (offer s r).2.Linked ∧
    (offer s r).2.schemas.toList =
      if Fresh r.schemas.toList s then r.schemas.toList ++ [s] else r.schemas.toList := by
  cases hr : r.register s with
  | ok r' =>
    rw [offer_ok hr, if_pos (h.accepts_iff.mp ⟨r', hr⟩)]
    exact ⟨h.register hr, schemas_of_register hr⟩
  | error e =>
    have hnot : ¬Fresh r.schemas.toList s := by
      rw [← h.accepts_iff, hr]
      rintro ⟨r', hok⟩
      cases hok
    rw [offer_error hr, if_neg hnot]
    exact ⟨h, rfl⟩

theorem linked_behind (offered : List Schema) :
    (behind offered).Linked ∧ (behind offered).schemas.toList = admitted offered := by
  induction offered using List.reverseRecOn with
  | nil => exact ⟨linked_empty, rfl⟩
  | append_singleton offered s ih =>
    obtain ⟨hlinked, hschemas⟩ := ih
    rw [behind_append, admitted_append, ← hschemas]
    exact hlinked.offer s

theorem Linked.holds (h : r.Linked) : r.Holds r.schemas.toList where
  schemas_eq := rfl
  size_eq := Array.length_toList.symm
  names_nodup := h.names_nodup
  codes_nodup := h.codes_nodup
  name_place name place := by
    rw [Array.getElem?_toList]
    exact place_eq_some h.name_eq h.name_place
  code_place code place := by
    rw [Array.getElem?_toList]
    exact place_eq_some h.code_eq h.code_place
  get_eq_some name s := h.get_eq_some
  lookup_eq_ok name location s := Registry.lookup_eq_ok.trans h.get_eq_some

/-- After any registrations a registry holds just the types that were new in name and in code when
they came. The next registration is accepted if its type is new as well, which changes what is
found under that type's name only; otherwise it is refused for the reason that comes first, and
the registry stays as it was. -/
theorem registry_only_grows (offered : List Schema) :
    (behind offered).Holds (admitted offered) ∧
      ∀ s, Offered (admitted offered) (behind offered) s (offer s (behind offered)) := by
  obtain ⟨hlinked, hschemas⟩ := linked_behind offered
  rw [← hschemas]
  exact ⟨hlinked.holds, hlinked.offered⟩

/-- A code that came with a taken name is left for the next type. -/
example : (behind [⟨"Ship", "ship", [], [], .unknown⟩, ⟨"Ship", "boat", [], [], .unknown⟩,
    ⟨"Boat", "boat", [], [], .unknown⟩]).schemas.toList.map (fun s => (s.name, s.code)) =
      [("Ship", "ship"), ("Boat", "boat")] := by decide

end ResourceCompiler.Registry
