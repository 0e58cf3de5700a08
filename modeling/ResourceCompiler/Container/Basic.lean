import ResourceCompiler.Report.Error

/-!
Resources in memory, grouped by type code. Types keep the order of their first resource and
resources the order in which they were added; every format lays them out in that order.
-/

namespace ResourceCompiler

/-- The sum of some sizes. -/
def total : List Nat → Nat
  | [] => 0
  | size :: rest => size + total rest

structure Resource where
  id : Int64
  name : String
  data : ByteArray

/-- The resources of one type. -/
structure TypeGroup where
  code : String
  resources : Array Resource

namespace TypeGroup

def contains (g : TypeGroup) (id : Int64) : Bool := g.resources.any (·.id == id)

/-- Adds a resource to the group of its code, or as a new group behind the others. -/
def insert (code : String) (resource : Resource) : List TypeGroup → List TypeGroup
  | [] => [⟨code, #[resource]⟩]
  | g :: rest =>
    if g.code = code then { g with resources := g.resources.push resource } :: rest
    else g :: insert code resource rest

end TypeGroup

structure Container where
  groups : List TypeGroup

namespace Container

def empty : Container := ⟨[]⟩

def add (c : Container) (code : String) (resource : Resource) : Container :=
  ⟨TypeGroup.insert code resource c.groups⟩

def group? (c : Container) (code : String) : Option TypeGroup :=
  c.groups.find? (·.code == code)

def contains (c : Container) (code : String) (id : Int64) : Bool :=
  (c.group? code).any (·.contains id)

/-- Every resource with its type code, in layout order. -/
def resources (c : Container) : List (String × Resource) :=
  c.groups.flatMap fun g => g.resources.toList.map fun r => (g.code, r)

def resourceCount (c : Container) : Nat := total (c.groups.map (·.resources.size))

def isEmpty (c : Container) : Bool := c.groups.isEmpty

end Container

end ResourceCompiler
