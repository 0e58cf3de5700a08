import ResourceCompiler.Declared.Instance

/-!
The order of declared instances. A resource refers to those that are nested in it, so these come
first. The order is said here by itself, one instance at a time; flattening is shown to keep to it.
-/

namespace ResourceCompiler.InstanceTree

/-- The instances of some trees in order: those of the trees nested in the first one, then its own,
then those of the other trees. -/
inductive ChildrenFirst : List InstanceTree → List Instance → Prop
  | nil : ChildrenFirst [] []
  | cons {root : Instance} {nested rest : List InstanceTree} {inner others : List Instance}
      (children : ChildrenFirst nested inner) (behind : ChildrenFirst rest others) :
      ChildrenFirst (.node root nested :: rest) (inner ++ root :: others)

mutual

theorem children_first_flatten : (tree : InstanceTree) → {rest : List InstanceTree} →
    {others : List Instance} → ChildrenFirst rest others →
    ChildrenFirst (tree :: rest) (tree.flatten ++ others)
  | .node root nested, _, _, h => by
    rw [flatten, List.append_assoc]
    exact .cons (children_first_flatten_all nested) h

/-- Flattening keeps to the order. -/
theorem children_first_flatten_all : (trees : List InstanceTree) →
    ChildrenFirst trees (flattenAll trees)
  | [] => .nil
  | tree :: rest => children_first_flatten tree (children_first_flatten_all rest)

end

variable {trees more : List InstanceTree} {listed listed' added : List Instance}

theorem ChildrenFirst.append (h : ChildrenFirst trees listed) (h' : ChildrenFirst more added) :
    ChildrenFirst (trees ++ more) (listed ++ added) := by
  induction h with
  | nil => exact h'
  | cons children _ _ ih =>
    rw [List.cons_append, List.append_assoc, List.cons_append]
    exact .cons children ih

/-- The trees settle the order. -/
theorem ChildrenFirst.unique (h : ChildrenFirst trees listed) (h' : ChildrenFirst trees listed') :
    listed = listed' := by
  induction h generalizing listed' with
  | nil =>
    cases h'
    rfl
  | cons _ _ ihchildren ihbehind =>
    cases h' with
    | cons children behind => rw [ihchildren children, ihbehind behind]

theorem children_first_iff : ChildrenFirst trees listed ↔ listed = flattenAll trees :=
  ⟨fun h => h.unique (children_first_flatten_all trees),
    fun h => h ▸ children_first_flatten_all trees⟩

end ResourceCompiler.InstanceTree
