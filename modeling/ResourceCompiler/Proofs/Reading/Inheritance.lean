import ResourceCompiler.Proofs.Reading.Taking
import ResourceCompiler.Proofs.Reading.DeclarationSpelling
import ResourceCompiler.Proofs.Schema.Registration

/-!
What can be relied on in declared resources, and how they come to their ids and names. A nested
resource starts with the id and the name that its parent has in the end, since attributes stand in
front of everything else; what its own attributes make of the id is checked when it is complete.
-/

namespace ResourceCompiler

open ResourceCompiler.Parser

namespace Declaration

/-! Attributes -/

/-- Whether tokens are an attribute. -/
def IdentityPart.Stands (part : IdentityPart) (taken : List Token) : Prop :=
  ∃ key equals value, taken = [key, equals, value] ∧ key.kind = .identifier ∧
    equals.kind = .equals ∧ match part with
      | .id n => key.text = "id" ∧ value.kind = .resourceId ∧ Text.parseInt64 value.text = some n
      | .name text => key.text = "name" ∧ value.kind = .string ∧ value.text = text

/-- Attributes one behind the other, with a comma behind each that needs one. -/
inductive Listed : List IdentityPart → List Token → Prop
  | nil : Listed [] []
  | snoc {given : List IdentityPart} {part : IdentityPart} {taken more : List Token}
      {comma : Option Token} : Listed given taken → part.Stands more →
      (∀ t ∈ comma, t.kind = .comma) → Listed (given ++ [part]) (taken ++ (more ++ comma.toList))

/-- The attributes of a resource, in parentheses or left out. -/
inductive Attributed : List IdentityPart → List Token → Prop
  | none : Attributed [] []
  | listed {given : List IdentityPart} {taken : List Token} {opening closing : Token} :
      opening.kind = .leftParen → Listed given taken → closing.kind = .rightParen →
      Attributed given (opening :: (taken ++ [closing]))

/-! Resources -/

/-- What stands between the braces of a resource: values of a field, or a field with another
resource, whose attributes are known apart. -/
inductive Entry
  | values (field equals : Token) (stored : List Value) (written : List Token)
  | nested (field equals : Token) (given : List IdentityPart) (child : InstanceTree)
      (written : List Token) (semicolon : Option Token)

namespace Entry

def tokens : Entry → List Token
  | .values field equals _ written => field :: equals :: written
  | .nested field equals _ _ written semicolon =>
    field :: equals :: (written ++ semicolon.toList)

def assignment? : Entry → Option Assignment
  | .values field _ stored _ => some ⟨field.text, stored, field.location⟩
  | .nested .. => none

def nested? : Entry → Option InstanceTree
  | .values .. => none
  | .nested _ _ _ child _ _ => some child

/-- What holds of an entry in a resource. A nested resource belongs to a reference of the resource
around it, and has what is not said of it from there. -/
def Fits (registry : Registry) (root : Instance) : Entry → Prop
  | .values field equals stored _ =>
    field.kind = .identifier ∧ equals.kind = .equals ∧ stored ≠ []
  | .nested field equals given child _ semicolon =>
    field.kind = .identifier ∧ equals.kind = .equals ∧ (∀ t ∈ semicolon, t.kind = .semicolon) ∧
      ∃ id, root.Nests registry field.text id child.root ∧
        ((∀ n, .id n ∉ given) → child.root.id = id) ∧
        ((∀ text, .name text ∉ given) → child.root.name = root.name)

end Entry

end Declaration

open Declaration in
/-- A resource with the attributes that it is given, and the tokens that declare it. Its type is
registered, no field is assigned twice, and all that holds of it holds of those inside it. -/
inductive InstanceTree.Declared (registry : Registry) :
    List IdentityPart → InstanceTree → List Token → Prop
  | node {root : Instance} {nested : List InstanceTree} {given : List IdentityPart}
      {entries : List Entry} {word opening closing : Token} {attributes : List Token}
      (new : (Condition.keyword "new").holds word = true) (attributed : Attributed given attributes)
      (opens : opening.kind = .leftBrace) (closes : closing.kind = .rightBrace)
      (known : ∃ schema, registry.get? root.typeName = some schema)
      (assigns : root.assignments = entries.filterMap Entry.assignment?)
      (nests : nested = entries.filterMap Entry.nested?)
      (fields : (root.assignments.map Assignment.field).Nodup)
      (fits : ∀ entry ∈ entries, entry.Fits registry root)
      (children : ∀ field equals given child written semicolon,
        Entry.nested field equals given child written semicolon ∈ entries →
          child.Declared registry given written) :
      Declared registry given (.node root nested)
        (word :: (attributes ++ opening :: (entries.flatMap Entry.tokens ++ [closing])))

namespace Declaration

variable {registry : Registry} {start : Int64 × String} {given : List IdentityPart}

/-! Reading attributes -/

theorem takes_identity_attribute (identity : Int64 × String) :
    Takes (identityAttribute identity) fun taken reached =>
      ∃ part : IdentityPart, part.Stands taken ∧ reached = part.set identity := by
  refine (takes_ensure_kind _).bind fun _ key hkey => ?_
  refine (takes_ensure_kind _).bind fun _ equals hequals => ?_
  obtain ⟨rfl, hkey⟩ := hkey
  obtain ⟨rfl, hequals⟩ := hequals
  split
  · rename_i htext
    refine (takes_ensure_kind _).bind fun _ value hvalue => ?_
    obtain ⟨rfl, hvalue⟩ := hvalue
    refine (takes_demand _ _ _).bind fun _ n hn => takes_pure ?_
    obtain ⟨rfl, hn⟩ := hn
    exact ⟨.id n, ⟨key, equals, value, rfl, hkey, hequals, htext, hvalue, hn⟩, rfl⟩
  · rename_i htext
    refine (takes_ensure_kind _).bind fun _ value hvalue => takes_pure ?_
    obtain ⟨rfl, hvalue⟩ := hvalue
    exact ⟨.name value.text, ⟨key, equals, value, rfl, hkey, hequals, htext, hvalue, rfl⟩, rfl⟩
  · exact takes_fail _

theorem takes_attributes (start : Int64 × String) : Takes (attributes start) fun taken reached =>
    ∃ given, Attributed given taken ∧ reached = given.foldl IdentityPart.set start := by
  refine (takes_accept_kind _).bind fun _ found hfound => ?_
  obtain ⟨rfl, hfound⟩ := hfound
  cases found with
  | none => exact takes_pure ⟨[], .none, rfl⟩
  | some opening =>
    have hlisted : Takes (listUntilClosed .rightParen identityAttribute start)
        (Closed .rightParen fun taken reached =>
          ∃ given, Listed given taken ∧ reached = given.foldl IdentityPart.set start) := by
      refine takes_list_until_closed ⟨[], .nil, rfl⟩ fun taken identity hs => ?_
      obtain ⟨given, hlisted, rfl⟩ := hs
      refine (takes_identity_attribute _).mono fun more reached hmore comma hcomma => ?_
      obtain ⟨part, hpart, rfl⟩ := hmore
      exact ⟨given ++ [part], hlisted.snoc hpart hcomma, by rw [List.foldl_append]; rfl⟩
    refine hlisted.mono fun taken reached htaken => ?_
    obtain ⟨inner, closing, rfl, hcloses, given, hgiven, rfl⟩ := htaken
    exact ⟨given, .listed (hfound _ rfl) hgiven hcloses, rfl⟩

/-- What is not given stays. -/
theorem fold_id (h : ∀ n, .id n ∉ given) (start : Int64 × String) :
    (given.foldl IdentityPart.set start).1 = start.1 := by
  induction given generalizing start with
  | nil => rfl
  | cons part given ih =>
    cases part with
    | id n => exact absurd List.mem_cons_self (h n)
    | name text => exact ih (fun n hn => h n (List.mem_cons_of_mem _ hn)) _

theorem fold_name (h : ∀ text, .name text ∉ given) (start : Int64 × String) :
    (given.foldl IdentityPart.set start).2 = start.2 := by
  induction given generalizing start with
  | nil => rfl
  | cons part given ih =>
    cases part with
    | id n => exact ih (fun text ht => h text (List.mem_cons_of_mem _ ht)) _
    | name text => exact absurd List.mem_cons_self (h text)

/-! Reading resources -/

/-- What is known of a resource of a type that was read from an id and a name on. -/
def ReadAs (registry : Registry) (type : String) (start : Int64 × String) (taken : List Token)
    (tree : InstanceTree) : Prop :=
  tree.root.typeName = type ∧ ∃ given, tree.Declared registry given taken ∧
    (tree.root.id, tree.root.name) = given.foldl IdentityPart.set start

/-- What was read of a resource, after some of its entries. Only the assignments grow: what the
nested resources start from stands from the beginning. -/
structure Building (registry : Registry) (bare : Instance) (entries : List Entry)
    (tree : Instance × List InstanceTree) : Prop where
  root : tree.1 = { bare with assignments := entries.filterMap Entry.assignment? }
  nested : tree.2 = entries.filterMap Entry.nested?
  fields : (tree.1.assignments.map Assignment.field).Nodup
  fits : ∀ entry ∈ entries, entry.Fits registry bare
  children : ∀ field equals given child written semicolon,
    Entry.nested field equals given child written semicolon ∈ entries →
      child.Declared registry given written

variable {bare : Instance} {entries : List Entry} {tree : Instance × List InstanceTree}
  {field equals : Token}

/-- An entry of values adds an assignment of a field that has none. -/
theorem Building.values (h : Building registry bare entries tree) {stored : List Value}
    {written : List Token} (hfield : field.kind = .identifier) (hequals : equals.kind = .equals)
    (hne : stored ≠ []) (hnew : field.text ∉ tree.1.assignments.map Assignment.field) :
    Building registry bare (entries ++ [.values field equals stored written])
      ({ tree.1 with
        assignments := tree.1.assignments ++ [⟨field.text, stored, field.location⟩] }, tree.2) where
  root := by simp [h.root, Entry.assignment?]
  nested := by simp [h.nested, Entry.nested?]
  fields := by
    rw [List.map_append, List.nodup_append]
    refine ⟨h.fields, by simp, fun other hother _ hmem heq => ?_⟩
    obtain rfl := List.mem_singleton.mp hmem
    rw [heq] at hother
    exact hnew hother
  fits := by
    refine List.forall_mem_append.mpr ⟨h.fits, List.forall_mem_singleton.mpr ?_⟩
    exact ⟨hfield, hequals, hne⟩
  children := by
    intro _ _ _ _ _ _ hmem
    exact h.children _ _ _ _ _ _ (by simpa using hmem)

/-- An entry with a resource adds that resource. -/
theorem Building.resource (h : Building registry bare entries tree) {child : InstanceTree}
    {written : List Token} {semicolon : Option Token}
    (hfits : (Entry.nested field equals given child written semicolon).Fits registry bare)
    (hchild : child.Declared registry given written) :
    Building registry bare (entries ++ [.nested field equals given child written semicolon])
      (tree.1, tree.2 ++ [child]) where
  root := by simp [h.root, Entry.assignment?]
  nested := by simp [h.nested, Entry.nested?]
  fields := h.fields
  fits := List.forall_mem_append.mpr ⟨h.fits, List.forall_mem_singleton.mpr hfits⟩
  children := by
    intro field' equals' given' child' written' semicolon' hmem
    rcases List.mem_append.mp hmem with hmem | hmem
    · exact h.children _ _ _ _ _ _ hmem
    · obtain ⟨-, -, rfl, rfl, rfl, -⟩ := Entry.nested.inj (List.mem_singleton.mp hmem)
      exact hchild

theorem takes_values (field : Token) : Takes (values field) fun _ stored => stored ≠ [] := by
  refine (local_until_closed _ (fun _ => ?_) _).takes.bind fun _ stored _ => ?_
  · exact Literal.local_value.bind fun _ => local_pure _
  · exact takes_ite (fun _ => takes_fail _) fun hne => takes_pure (by simpa using hne)

/-- What an assignment adds, where the field and the equals sign have been read. -/
def AddsEntry (registry : Registry) (bare : Instance) (entries : List Entry) (field equals : Token)
    (written : List Token) (tree : Instance × List InstanceTree) : Prop :=
  ∃ entry : Entry, entry.tokens = field :: equals :: written ∧
    Building registry bare (entries ++ [entry]) tree

theorem takes_values_part (h : Building registry bare entries tree)
    (hfield : field.kind = .identifier) (hequals : equals.kind = .equals) :
    Takes (valuesPart tree field) (AddsEntry registry bare entries field equals) := by
  refine (takes_values field).bind fun written stored hne => ?_
  refine (takes_lift _).bind fun _ root hroot => takes_pure ?_
  obtain ⟨rfl, hassign⟩ := hroot
  obtain ⟨hnew, rfl⟩ := Instance.assign_eq_ok.mp hassign
  rw [List.append_nil, List.append_nil]
  exact ⟨.values field equals stored written, rfl, h.values hfield hequals hne hnew⟩

theorem nested_reference_ok {parent : Instance} {reference : Reference} {id : Int64}
    (h : nestedReference registry parent field = .ok (reference, id)) : ∃ schema target,
      registry.get? parent.typeName = some schema ∧
      schema.reference? field.text = some reference ∧
      registry.get? reference.targetType = some target ∧
      reference.mapping.evaluate parent.id = .ok id := by
  obtain ⟨schema, hschema, hreference⟩ := except_bind_eq_ok.mp h
  split at hreference
  · cases hreference
  rename_i found hfound
  obtain ⟨target, htarget, hmapped⟩ := except_bind_eq_ok.mp hreference
  split at hmapped
  · rename_i hid
    cases hmapped
    exact ⟨schema, target, Registry.lookup_eq_ok.mp hschema, hfound,
      Registry.lookup_eq_ok.mp htarget, hid⟩
  · cases hmapped

/-- The reference is looked up for the parent as it is by then, whose type, id and name are those
that it has in the end. -/
theorem takes_nested_part (h : Building registry bare entries tree)
    (hfield : field.kind = .identifier) (hequals : equals.kind = .equals)
    {readNested : String → Int64 × String → Parser InstanceTree}
    (hnested : ∀ type start, (∃ schema, registry.get? type = some schema) →
      Takes (readNested type start) (ReadAs registry type start)) :
    Takes (nestedPart registry readNested tree field)
      (AddsEntry registry bare entries field equals) := by
  refine (takes_lift _).bind fun _ looked hlooked => ?_
  obtain ⟨reference, id⟩ := looked
  obtain ⟨rfl, hreference⟩ := hlooked
  obtain ⟨schema, target, hschema, hfound, htarget, hid⟩ := nested_reference_ok hreference
  refine (hnested _ _ ⟨target, htarget⟩).bind fun written child hchild => ?_
  refine takes_ite (fun _ => takes_fail _) fun hallows => ?_
  refine (takes_accept_kind _).bind fun _ semicolon hsemicolon => takes_pure ?_
  obtain ⟨htype, given, hdeclared, hidentity⟩ := hchild
  obtain ⟨rfl, hsemicolon⟩ := hsemicolon
  obtain ⟨hchildid, hchildname⟩ := Prod.mk.inj hidentity
  rw [h.root] at hschema hid hchildname
  refine ⟨.nested field equals given child written semicolon, by simp [Entry.tokens], ?_⟩
  refine h.resource ?_ hdeclared
  refine ⟨hfield, hequals, hsemicolon, id, ?_, fun hnone => ?_, fun hnone => ?_⟩
  · exact ⟨schema, reference, target, hschema, hfound, htype.symm, htype ▸ htarget, hid,
      by simpa using hallows⟩
  · rw [hchildid, fold_id hnone]
  · rw [hchildname, fold_name hnone]

theorem takes_assignment (h : Building registry bare entries tree)
    {readNested : String → Int64 × String → Parser InstanceTree}
    (hnested : ∀ type start, (∃ schema, registry.get? type = some schema) →
      Takes (readNested type start) (ReadAs registry type start)) :
    Takes (assignment registry readNested tree) fun taken tree' => ∃ entry : Entry,
      entry.tokens = taken ∧ Building registry bare (entries ++ [entry]) tree' := by
  rw [assignment_eq]
  refine (takes_ensure_kind _).bind fun _ field hfield => ?_
  refine (takes_ensure_kind _).bind fun _ equals hequals => ?_
  obtain ⟨rfl, hfield⟩ := hfield
  obtain ⟨rfl, hequals⟩ := hequals
  refine takes_look fun opens => takes_ite (fun _ => ?_) fun _ => ?_
  · exact takes_nested_part h hfield hequals hnested
  · exact takes_values_part h hfield hequals

/-- What was read so far are the tokens of some entries. -/
def BuiltFrom (registry : Registry) (bare : Instance) (taken : List Token)
    (tree : Instance × List InstanceTree) : Prop :=
  ∃ entries : List Entry, entries.flatMap Entry.tokens = taken ∧
    Building registry bare entries tree

theorem takes_entries {readNested : String → Int64 × String → Parser InstanceTree}
    (hnested : ∀ type start, (∃ schema, registry.get? type = some schema) →
      Takes (readNested type start) (ReadAs registry type start))
    (bare : Instance) (hbare : bare.assignments = []) :
    Takes (untilClosed .rightBrace (assignment registry readNested) (bare, []))
      (Closed .rightBrace (BuiltFrom registry bare)) := by
  have hstart : Building registry bare [] (bare, []) :=
    ⟨by rw [List.filterMap_nil, ← hbare], rfl, by simp [hbare], by simp, by simp⟩
  refine takes_until_closed ⟨[], rfl, hstart⟩ fun taken tree hbuilt => ?_
  obtain ⟨entries, rfl, hbuilding⟩ := hbuilt
  refine (takes_assignment hbuilding hnested).mono fun more tree' hmore => ?_
  obtain ⟨entry, rfl, hbuilding'⟩ := hmore
  exact ⟨entries ++ [entry], by simp, hbuilding'⟩

/-- The induction is on the levels; each resource inside another one has one less to spare. -/
theorem takes_instance_tree (levels : Nat) (type : String) (start : Int64 × String)
    (hknown : ∃ schema, registry.get? type = some schema) :
    Takes (instanceTree registry levels type start) (ReadAs registry type start) := by
  induction levels generalizing type start with
  | zero =>
    intro c c' tree h
    cases h
  | succ levels ih =>
    unfold instanceTree
    refine (takes_ensure _).bind fun _ word hword => ?_
    refine (takes_attributes _).bind fun attributes identity hattributes => ?_
    refine (takes_ensure_kind _).bind fun _ opening hopening => ?_
    refine (takes_entries ih ⟨type, identity.1, identity.2, [], word.location⟩ rfl).bind
      fun _ built hclosed => takes_pure ?_
    obtain ⟨root, nested⟩ := built
    obtain ⟨rfl, hnew⟩ := hword
    obtain ⟨given, hgiven, hidentity⟩ := hattributes
    obtain ⟨rfl, hopens⟩ := hopening
    obtain ⟨_, closing, rfl, hcloses, entries, rfl, hbuilding⟩ := hclosed
    obtain ⟨rfl, rfl, hfields, hfits, hchildren⟩ := hbuilding
    have hdeclared := InstanceTree.Declared.node hnew hgiven hopens hcloses hknown rfl rfl hfields
      hfits hchildren
    refine ⟨rfl, given, ?_, hidentity⟩
    simpa using hdeclared

/-! Declarations -/

/-- A resource of a declaration, with the attributes that it is given and the semicolon that may
follow it. -/
structure Item where
  given : List IdentityPart
  tree : InstanceTree
  written : List Token
  semicolon : Option Token

def Item.tokens (item : Item) : List Token := item.written ++ item.semicolon.toList

/-- What holds of the resources of a declaration. -/
structure Item.Fits (registry : Registry) (type : String) (item : Item) : Prop where
  type : item.tree.root.typeName = type
  declared : item.tree.Declared registry item.given item.written
  ended : ∀ t ∈ item.semicolon, t.kind = .semicolon

theorem takes_instances (type : String) (hknown : ∃ schema, registry.get? type = some schema) :
    Takes (instances registry type) (Closed .rightBrace fun taken trees =>
      ∃ items : List Item, items.flatMap Item.tokens = taken ∧ items.map Item.tree = trees ∧
        ∀ item ∈ items, item.Fits registry type) := by
  refine takes_look fun levels => takes_until_closed ⟨[], rfl, rfl, nofun⟩ fun taken trees hs => ?_
  obtain ⟨items, rfl, rfl, hitems⟩ := hs
  refine (takes_instance_tree _ _ _ hknown).bind fun written tree htree => ?_
  refine (takes_accept_kind _).bind fun _ semicolon hsemicolon => takes_pure ?_
  obtain ⟨htype, given, hdeclared, -⟩ := htree
  obtain ⟨rfl, hended⟩ := hsemicolon
  refine ⟨items ++ [⟨given, tree, written, semicolon⟩], by simp [Item.tokens], by simp, ?_⟩
  exact List.forall_mem_append.mpr ⟨hitems,
    List.forall_mem_singleton.mpr ⟨htype, hdeclared, hended⟩⟩

/-- The tokens of a declaration behind its first word, and the resources that they declare. -/
def Declares (registry : Registry) (taken : List Token) (trees : List InstanceTree) : Prop :=
  ∃ type opening closing, ∃ items : List Item,
    taken = type :: opening :: (items.flatMap Item.tokens ++ [closing]) ∧
      type.kind = .identifier ∧ opening.kind = .leftBrace ∧ closing.kind = .rightBrace ∧
      trees = items.map Item.tree ∧ ∀ item ∈ items, item.Fits registry type.text

theorem takes_body : Takes (body registry) (Declares registry) := by
  refine (takes_ensure_kind _).bind fun _ type htype => ?_
  refine (takes_ensure_kind _).bind fun _ opening hopening => ?_
  refine (takes_lift _).bind fun _ schema hschema => ?_
  obtain ⟨rfl, hschema⟩ := hschema
  have hknown := Registry.lookup_eq_ok.mp hschema
  refine (takes_instances _ ⟨schema, hknown⟩).mono fun _ trees htrees => ?_
  obtain ⟨rfl, hidentifier⟩ := htype
  obtain ⟨rfl, hopens⟩ := hopening
  obtain ⟨_, closing, rfl, hcloses, items, rfl, rfl, hitems⟩ := htrees
  exact ⟨type, opening, closing, items, rfl, hidentifier, hopens, hcloses, rfl, hitems⟩

end Declaration

end ResourceCompiler
