import ResourceCompiler.Container.Format
import ResourceCompiler.Proofs.Container.ExtendedEmission
import ResourceCompiler.Proofs.Container.RezEmission
import ResourceCompiler.Proofs.Container.StandardEmission

/-!
Why a format refuses a container. A complaint about a type code is about the code of one of its
groups and a complaint about an id is about one of its resources; all others are about how much
there is.
-/

namespace ResourceCompiler

open Layout

namespace Container

theorem code_of_resource {c : Container} {e : String × Resource} (h : e ∈ c.resources) :
    ∃ g ∈ c.groups, g.code = e.1 := by
  obtain ⟨g, hg, hm⟩ := List.mem_flatMap.mp h
  obtain ⟨r, -, rfl⟩ := List.mem_map.mp hm
  exact ⟨g, hg, rfl⟩

/-- What may be wrong with a container. -/
inductive Flaw (c : Container) : CompileError → Prop
  | number (quantity : Quantity) (value : Nat) : Flaw c (.layout (.doesNotFit quantity value))
  | dataOffset (offset : Nat) : Flaw c (.layout (.dataOffsetTooLarge offset))
  | code {g : TypeGroup} (hg : g ∈ c.groups) (h : (MacRoman.encode g.code).length ≠ 4) :
    Flaw c (.layout (.typeCodeLength g.code (MacRoman.encode g.code).length))
  | id {e : String × Resource} (he : e ∈ c.resources) (h : ¬SixteenBit e.2.id) :
    Flaw c (.layout (.idNotSixteenBit e.2.id))

/-- A part of an encoder that fails for nothing but what is wrong with the container. -/
structure Finds {α : Type} (c : Container) (x : Except CompileError α) : Prop where
  flaw : ∀ e, x = .error e → c.Flaw e

namespace Finds

variable {c : Container} {α β : Type}

theorem ok (a : α) : c.Finds (.ok a) := ⟨nofun⟩

theorem error {e : CompileError} (h : c.Flaw e) : c.Finds (.error e : Except CompileError α) :=
  ⟨fun _ he => Except.error.inj he ▸ h⟩

theorem bind {x : Except CompileError α} {f : α → Except CompileError β} (hx : c.Finds x)
    (hf : ∀ a, c.Finds (f a)) : c.Finds (x >>= f) := by
  refine ⟨fun e he => ?_⟩
  rcases except_bind_eq_error.mp he with he | ⟨a, -, he⟩
  · exact hx.flaw e he
  · exact (hf a).flaw e he

theorem map_m {f : α → Except CompileError β} {xs : List α} (hf : ∀ a ∈ xs, c.Finds (f a)) :
    c.Finds (xs.mapM f) := by
  induction xs with
  | nil => exact ok _
  | cons x rest ih =>
    obtain ⟨hx, hrest⟩ := List.forall_mem_cons.mp hf
    rw [List.mapM_cons]
    exact hx.bind fun _ => (ih hrest).bind fun _ => ok _

theorem for_m {f : α → Except CompileError Unit} (hf : ∀ a, c.Finds (f a)) (xs : List α) :
    c.Finds (xs.forM f) := by
  induction xs with
  | nil => exact ok _
  | cons x rest ih => exact (hf x).bind fun _ => ih

theorem fit (width : Nat) (quantity : Quantity) (value : Nat) :
    c.Finds (Layout.fit width quantity value) := by
  unfold Layout.fit
  split
  · exact ok _
  · exact error (.number quantity value)

theorem fit_id {e : String × Resource} (he : e ∈ c.resources) : c.Finds (fitId e.2.id) := by
  unfold fitId
  split
  · exact ok _
  · rename_i h
    exact error (.id he h)

theorem type_code {g : TypeGroup} (hg : g ∈ c.groups) : c.Finds (typeCode g.code) := by
  unfold typeCode
  dsimp only
  split
  · exact ok _
  · rename_i h
    exact error (.code hg h)

end Finds

end Container

open Container

namespace Standard

variable {c : Container}

theorem name_offset_finds (r : Resource) (start : Nat) : c.Finds (nameOffset r start) := by
  unfold nameOffset
  split
  · exact .ok _
  · exact (Finds.fit ..).bind fun _ => .ok _

theorem type_entry_finds {g : TypeGroup} (hg : g ∈ c.groups) (typeCount preceding : Nat) :
    c.Finds (typeEntry typeCount g preceding) :=
  (Finds.type_code hg).bind fun _ => (Finds.fit ..).bind fun _ => (Finds.fit ..).bind fun _ =>
    .ok _

theorem resource_entry_finds {r : Resource} (hr : r ∈ ordered c) (nameOffset dataOffset : Nat) :
    c.Finds (resourceEntry r nameOffset dataOffset) := by
  obtain ⟨e, he, rfl⟩ := List.mem_map.mp hr
  refine (Finds.fit_id he).bind fun _ => ?_
  split
  · exact .error (.dataOffset dataOffset)
  · exact .ok _

theorem encode_finds (c : Container) : c.Finds (encode c) := by
  rw [encode_eq]
  refine (Finds.for_m (fun _ => .fit ..) _).bind fun _ => ?_
  refine (Finds.map_m fun _ _ => name_offset_finds ..).bind fun _ => ?_
  refine (Finds.fit ..).bind fun _ => (Finds.fit ..).bind fun _ => ?_
  refine (Finds.fit ..).bind fun _ => (Finds.fit ..).bind fun _ => ?_
  refine (Finds.fit ..).bind fun _ => ?_
  refine (Finds.map_m fun _ hg => type_entry_finds (List.of_mem_zip hg).1 ..).bind fun _ => ?_
  refine (Finds.map_m fun _ hr => resource_entry_finds (List.of_mem_zip hr).1 ..).bind fun _ => ?_
  exact .ok _

end Standard

theorem Extended.encode_finds (c : Container) : c.Finds (encode c) := by
  rw [encode_eq]
  refine (Finds.map_m fun _ hg => ?_).bind fun _ => .ok _
  exact (Finds.type_code (List.of_mem_zip hg).1).bind fun _ => .ok _

namespace Rez

variable {c : Container}

theorem index_entry_finds (r : Resource) (offset : Nat) : c.Finds (resourceIndexEntry r offset) :=
  (Finds.fit ..).bind fun _ => (Finds.fit ..).bind fun _ => .ok _

theorem type_entry_finds {g : TypeGroup} (hg : g ∈ c.groups) (typeCount preceding : Nat) :
    c.Finds (typeEntry typeCount g preceding) :=
  (Finds.type_code hg).bind fun _ => (Finds.fit ..).bind fun _ => (Finds.fit ..).bind fun _ =>
    .ok _

theorem resource_entry_finds {e : String × Resource} (he : e ∈ c.resources) (index : Nat) :
    c.Finds (resourceEntry e.1 e.2 index) := by
  obtain ⟨g, hg, hcode⟩ := code_of_resource he
  rw [← hcode]
  exact (Finds.fit ..).bind fun _ => (Finds.type_code hg).bind fun _ =>
    (Finds.fit_id he).bind fun _ => .ok _

theorem encode_finds (c : Container) : c.Finds (encode c) := by
  rw [encode_eq]
  refine (Finds.fit ..).bind fun _ => ?_
  refine (Finds.map_m fun _ _ => index_entry_finds ..).bind fun _ => ?_
  refine (Finds.fit ..).bind fun _ => (Finds.fit ..).bind fun _ => ?_
  refine (Finds.fit ..).bind fun _ => ?_
  refine (Finds.map_m fun _ hg => type_entry_finds (List.of_mem_zip hg).1 ..).bind fun _ => ?_
  refine (Finds.map_m fun _ he => resource_entry_finds (List.of_mem_zip he).1 ..).bind fun _ => ?_
  exact .ok _

end Rez

/-- Whatever the format, a container is refused for what is wrong with it. -/
theorem Container.encode_finds (c : Container) (format : Format) : c.Finds (c.encode format) := by
  cases format with
  | standard => exact Standard.encode_finds c
  | extended => exact Extended.encode_finds c
  | rez => exact Rez.encode_finds c

end ResourceCompiler
