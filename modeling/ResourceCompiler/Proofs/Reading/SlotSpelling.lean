import ResourceCompiler.Proofs.Assembly.Encoding
import ResourceCompiler.Proofs.Reading.Values

/-!
How a slot of a type definition can be spelled, and that it is read back from any of its spellings.
-/

namespace ResourceCompiler

open ResourceCompiler.Parser

namespace SlotKind

/-- The word for a kind. -/
def word : SlotKind → String
  | .integer _ true => "integer"
  | .integer _ false => "unsigned"
  | .bitmask _ => "bitmask"
  | .resourceReference => "resource_reference"
  | .color => "color"
  | .cString _ => "string"
  | .pascalString => "p_string"

/-- Whether a slot of a kind may take so many bytes. A text without a fixed length has none that are
its own. -/
def MayTake (kind : SlotKind) (size : Nat) : Prop :=
  kind.HasSize size ∨ size = 0 ∧ (kind = .pascalString ∨ kind = .cString none)

/-- The size that has to be written, which is that of a number. -/
def writtenSize (size : Nat) : SlotKind → Option Nat
  | .integer _ _ | .bitmask _ => some size
  | _ => none

/-- The length that has to be written, which is that of a text. -/
def writtenLength (size : Nat) : SlotKind → Option Nat
  | .pascalString | .cString _ => some size
  | _ => none

end SlotKind

namespace Definition

/-- An attribute as it is written. -/
inductive SlotPart
  | name (text : String)
  | offset (count : Nat)
  | length (count : Nat)
  | size (count : Nat)
  | type (word : String)
  | default (form : ValueForm) (text : String)
deriving DecidableEq

namespace SlotPart

def key : SlotPart → String
  | .name _ => "name"
  | .offset _ => "offset"
  | .length _ => "length"
  | .size _ => "size"
  | .type _ => "type"
  | .default _ _ => "default"

/-- The words for sizes. -/
def sizeWords : List (String × Nat) :=
  [("byte", 1), ("word", 2), ("dword", 4), ("long", 4), ("qword", 8), ("quad", 8)]

/-- Whether tokens spell what an attribute is set to. -/
def Sets : SlotPart → List Spelling → Prop
  | .name text, spelled => spelled = [(.string, text)]
  | .offset count, spelled | .length count, spelled =>
    count < 0x10000000000000000 ∧ spelled = [(.integer, toString count)]
  | .size count, spelled =>
    count < 0x10000000000000000 ∧ spelled = [(.integer, toString count)] ∨
      ∃ word, (word, count) ∈ sizeWords ∧ spelled = [(.identifier, word)]
  | .type word, spelled => spelled = [(.identifier, word)]
  | .default form text, spelled => (⟨form, text, .unknown⟩ : Value).Spells spelled

def Spells (part : SlotPart) (spelled : List Spelling) : Prop :=
  ∃ set, part.Sets set ∧ spelled = assigned part.key ++ set

end SlotPart

/-- What was collected are the attributes that were written. -/
structure Collected (written : List SlotPart) (a : SlotAttributes) : Prop where
  name : ∀ text, a.name = some text ↔ .name text ∈ written
  offset : ∀ count, a.offset = some count ↔ .offset count ∈ written
  length : ∀ count, a.length = some count ↔ .length count ∈ written
  size : ∀ count, a.size = some count ↔ .size count ∈ written
  type : ∀ word, a.type.map Token.text = some word ↔ .type word ∈ written
  default : ∀ form text,
    a.default.map Value.plain = some ⟨form, text, .unknown⟩ ↔ .default form text ∈ written

theorem collected_nothing : Collected [] noAttributes := by
  constructor <;> simp [noAttributes]

variable {follow : Option TokenKind → Prop} {spelled : List Spelling} {α β : Type}

theorem reads_byte_count {count : Nat} (h : count < 0x10000000000000000) :
    Reads byteCount [(.integer, toString count)] follow (· = count) := by
  refine reads_token fun t _ htext => ?_
  rw [htext]
  exact reads_demanded (Text.parse_byte_count_repr h)

theorem named_size_of_mem {word : String} {count : Nat}
    (h : (word, count) ∈ SlotPart.sizeWords) : namedSize? word = some count := by
  have hwords : ∀ pair ∈ SlotPart.sizeWords, namedSize? pair.1 = some pair.2 := by decide
  exact hwords _ h

theorem reads_slot_size {count : Nat} (h : (SlotPart.size count).Sets spelled) :
    Reads slotSize spelled follow (· = count) := by
  rcases h with ⟨hcount, rfl⟩ | ⟨word, hword, rfl⟩
  · exact reads_next_is false (reads_byte_count hcount) fun _ _ => rfl
  · refine reads_next_is true ?_ fun _ _ => rfl
    refine reads_next fun t _ htext => ?_
    rw [htext]
    exact reads_demanded (named_size_of_mem hword)

/-- An attribute that was not given before, behind its key. -/
theorem reads_set {value : Parser α} {key : Token} {earlier : Option β} {given : α → β}
    {result : Option β → SlotAttributes} {sets : α → Prop} {wanted : SlotAttributes → Prop}
    (hvalue : Reads value spelled follow sets) (hearlier : earlier = none)
    (hresult : ∀ v, sets v → wanted (result (some (given v)))) :
    Reads (do
      let v ← value
      let v ← once key earlier (given v)
      return result v) spelled follow wanted := by
  subst hearlier
  rw [← List.append_nil spelled]
  exact hvalue.bind_before (fun v hv => reads_pure (hresult v hv)) fun k hk => hk

theorem not_set {o : Option α} {written : List SlotPart} {given : α → SlotPart}
    (h : ∀ v, o = some v ↔ given v ∈ written) (hnew : ∀ v, given v ∉ written) : o = none :=
  Option.eq_none_iff_forall_ne_some.mpr fun v hv => hnew v ((h v).mp hv)

theorem reads_slot_attribute {written : List SlotPart} {part : SlotPart} {a : SlotAttributes}
    (hpart : part.Spells spelled) (hkey : part.key ∉ written.map SlotPart.key)
    (ha : Collected written a) :
    Reads (slotAttribute a) spelled (· ≠ some .leftParen) (Collected (written ++ [part])) := by
  obtain ⟨set, hset, rfl⟩ := hpart
  refine reads_token fun key _ htext => reads_token fun _ _ _ => ?_
  rw [htext]
  have hothers (other : SlotPart) (hother : other.key = part.key) : other ∉ written :=
    fun h => hkey (hother ▸ List.mem_map_of_mem h)
  cases part with
  | name text =>
    obtain rfl := hset
    have hnew := fun text => hothers (.name text) rfl
    refine reads_set (reads_text _ _) (not_set ha.name hnew) fun t ht => ?_
    constructor <;> simp [ha.offset, ha.length, ha.size, ha.type, ha.default, hnew, ht, eq_comm]
  | offset count =>
    obtain ⟨hcount, rfl⟩ := hset
    have hnew := fun count => hothers (.offset count) rfl
    refine reads_set (reads_byte_count hcount) (not_set ha.offset hnew) fun n hn => ?_
    constructor <;> simp [ha.name, ha.length, ha.size, ha.type, ha.default, hnew, hn, eq_comm]
  | length count =>
    obtain ⟨hcount, rfl⟩ := hset
    have hnew := fun count => hothers (.length count) rfl
    refine reads_set (reads_byte_count hcount) (not_set ha.length hnew) fun n hn => ?_
    constructor <;> simp [ha.name, ha.offset, ha.size, ha.type, ha.default, hnew, hn, eq_comm]
  | size count =>
    have hnew := fun count => hothers (.size count) rfl
    refine reads_set (reads_slot_size hset) (not_set ha.size hnew) fun n hn => ?_
    constructor <;> simp [ha.name, ha.offset, ha.length, ha.type, ha.default, hnew, hn, eq_comm]
  | type word =>
    obtain rfl := hset
    have hnew := fun word => hothers (.type word) rfl
    have hnone := not_set ha.type hnew
    refine reads_set (reads_text _ _) (by simpa using hnone) fun t ht => ?_
    constructor <;> simp [ha.name, ha.offset, ha.length, ha.size, ha.default, hnew, ht, eq_comm]
  | default form text =>
    have hnew := fun form text => hothers (.default form text) rfl
    have hnone : a.default = none := Option.eq_none_iff_forall_ne_some.mpr fun v hv =>
      hnew v.form v.text ((ha.default v.form v.text).mp (by rw [hv]; rfl))
    refine reads_set (Literal.reads_value hset) hnone fun v hv => ?_
    have hplain : v.plain = ⟨form, text, .unknown⟩ := hv
    constructor <;>
      simp [ha.name, ha.offset, ha.length, ha.size, ha.type, hnew, hplain, eq_comm]

/-! Symbols -/

/-- Whether tokens spell the number of a symbol. One that is not below zero may look like an id. -/
def SpellsNumber (n : Int64) (spelled : List Spelling) : Prop :=
  n < 0 ∧ spelled = [(.minus, "-"), (.integer, toString (-n.toInt).toNat)] ∨
    0 ≤ n ∧ (spelled = [(.integer, toString n.toInt.toNat)] ∨
      spelled = [(.resourceId, toString n.toInt.toNat)])

theorem reads_symbol_number {n : Int64} (h : SpellsNumber n spelled) :
    Reads symbolNumber spelled follow (· = n) := by
  rcases h with ⟨hn, rfl⟩ | ⟨hn, rfl | rfl⟩
  · refine reads_accepted fun _ _ _ => reads_token fun t _ htext => ?_
    rw [htext]
    exact reads_demanded (Text.parse_negated_repr hn)
  · refine reads_not_accepted ?_ fun _ _ => by simp
    refine reads_not_accepted ?_ fun _ _ => by simp
    refine reads_token fun t _ htext => ?_
    exact reads_demanded (htext ▸ Text.parse_int64_repr hn)
  · refine reads_not_accepted ?_ fun _ _ => by simp
    refine reads_accepted fun t _ htext => ?_
    exact reads_demanded (htext ▸ Text.parse_int64_repr hn)

end Definition

def Symbol.Spells (symbol : Symbol) (spelled : List Spelling) : Prop :=
  ∃ number, Definition.SpellsNumber symbol.value number ∧
    spelled = assigned symbol.name ++ number ++ [(.semicolon, ";")]

/-- Whether tokens spell the symbols of a slot. Without symbols there need not be a table. -/
def SpellsTable (symbols : List Symbol) (spelled : List Spelling) : Prop :=
  symbols = [] ∧ spelled = [] ∨ ∃ items : List (Symbol × List Spelling),
    items.map Prod.fst = symbols ∧ (∀ x ∈ items, x.1.Spells x.2) ∧ spelled = block items

namespace Slot

/-- The slot wherever its default stands. -/
def plain (slot : Slot) : Slot := { slot with default := slot.default.map Value.plain }

/-- The attributes of a slot. The name of its field it need not repeat. -/
def parts (slot : Slot) (named : Bool) : List Definition.SlotPart :=
  (if named then [.name slot.name] else []) ++ [.offset slot.offset, .type slot.kind.word] ++
    (slot.kind.writtenSize slot.size).toList.map .size ++
    (slot.kind.writtenLength slot.size).toList.map .length ++
    slot.default.toList.map fun v => .default v.form v.text

/-- Whether tokens spell a slot of a field: its attributes in any order, with a comma behind the
last one or without, and its symbols. -/
def Spells (slot : Slot) (field : String) (spelled : List Spelling) : Prop :=
  ∃ named trailing table, ∃ items : List (Definition.SlotPart × List Spelling),
    (named = false → slot.name = field) ∧ (items.map Prod.fst).Perm (slot.parts named) ∧
      (∀ x ∈ items, x.1.Spells x.2) ∧ SpellsTable slot.symbols table ∧
      spelled = (.leftParen, "(") ::
        (separated Prod.snd trailing items ++ [(.rightParen, ")")] ++ table)

/-- What a definition demands of a slot. -/
structure WellFormed (slot : Slot) : Prop where
  kind : slot.kind.MayTake slot.size
  offset_lt : slot.offset < 0x10000000000000000
  size_lt : slot.size < 0x10000000000000000
  symbols : (slot.symbols.map Symbol.name).Nodup
  default : ∀ v ∈ slot.default, v.Spellable ∧ slot.permits v.form = true ∧
    (v.form = .identifier → v.text ∈ slot.symbols.map Symbol.name)

end Slot

namespace Definition

variable {spelled : List Spelling} {follow : Option TokenKind → Prop}

theorem reads_symbol {known : List Symbol} {symbol : Symbol} (h : symbol.Spells spelled)
    (hnew : symbol.name ∉ known.map Symbol.name) :
    Reads (Definition.symbol known) spelled follow (· = known ++ [symbol]) := by
  obtain ⟨number, hnumber, rfl⟩ := h
  refine reads_token fun name _ hname => reads_token fun _ _ _ => ?_
  refine (reads_symbol_number hnumber).bind fun n hn => reads_token fun _ _ _ => ?_
  obtain rfl := hn
  rw [if_neg (by simpa [hname] using hnew), hname]
  exact reads_pure rfl

theorem reads_symbols {items : List (Symbol × List Spelling)} (h : ∀ x ∈ items, x.1.Spells x.2)
    (hnodup : ((items.map Prod.fst).map Symbol.name).Nodup) :
    Reads symbols (block items) anything (· = items.map Prod.fst) := by
  refine reads_token fun _ _ _ => ReadsItems.lines_until_closed (fun done known => known = done)
    (fun known => (local_symbol known).weaken (by decide)) ?_ h ?_ rfl _
  · rintro symbol _ ⟨number, -, rfl⟩
    rfl
  · rintro done symbol rest hsplit spelled hsymbol _ rfl
    rw [hsplit, List.map_append, List.nodup_append] at hnodup
    exact reads_symbol hsymbol fun hx => hnodup.2.2 _ hx _ (by simp) rfl

theorem reads_located {α β : Type} {a : α} {location : Location} {r : Except MeaningFault α}
    {f : α → Parser β} {wanted : β → Prop} (h : r = .ok a)
    (hf : Reads (f a) spelled follow wanted) :
    Reads (locate location r >>= f) spelled follow wanted := by
  subst h
  exact hf

theorem number_width_eq {type : String} {width : Nat}
    (h : width = 1 ∨ width = 2 ∨ width = 4 ∨ width = 8) :
    numberWidth type (some width) = .ok width :=
  if_pos h

/-- What is written about the kind of a slot stands for that kind. -/
theorem slot_kind_eq {kind : SlotKind} {size : Nat} (h : kind.MayTake size) :
    slotKind kind.word (kind.writtenSize size) (kind.writtenLength size) = .ok (kind, size) := by
  unfold SlotKind.MayTake at h
  cases kind with
  | integer width signed =>
    obtain ⟨hwidth, rfl⟩ : (width = 1 ∨ width = 2 ∨ width = 4 ∨ width = 8) ∧ size = width := by
      simpa [SlotKind.HasSize] using h
    cases signed <;>
      simp [SlotKind.word, SlotKind.writtenSize, slotKind, number_width_eq hwidth]
  | bitmask width =>
    obtain ⟨hwidth, rfl⟩ : (width = 1 ∨ width = 2 ∨ width = 4 ∨ width = 8) ∧ size = width := by
      simpa [SlotKind.HasSize] using h
    simp [SlotKind.word, SlotKind.writtenSize, slotKind, number_width_eq hwidth]
  | resourceReference =>
    obtain rfl : size = 2 := by simpa [SlotKind.HasSize] using h
    rfl
  | color =>
    obtain rfl : size = 4 := by simpa [SlotKind.HasSize] using h
    rfl
  | pascalString => rfl
  | cString fixedLength =>
    obtain rfl : (if size > 0 then some size else none) = fixedLength := by
      rcases h with ⟨hpos, rfl⟩ | ⟨rfl, hnone⟩
      · exact if_pos hpos
      · simpa [eq_comm] using hnone
    rfl

theorem keys_nodup (slot : Slot) (named : Bool) :
    ((slot.parts named).map SlotPart.key).Nodup := by
  have hlist {α : Type} (o : Option α) (given : α → SlotPart) (key : String)
      (hkey : ∀ v, (given v).key = key) :
      List.Sublist ((o.toList.map given).map SlotPart.key) [key] := by
    cases o <;> simp [hkey]
  have hall : List.Sublist ((slot.parts named).map SlotPart.key)
      (["name"] ++ ["offset", "type"] ++ ["size"] ++ ["length"] ++ ["default"]) := by
    have hname : List.Sublist ((if named then [SlotPart.name slot.name] else []).map SlotPart.key)
        ["name"] := by
      cases named <;> simp [SlotPart.key]
    simp only [Slot.parts, List.map_append]
    exact (((hname.append (.refl _)).append (hlist _ .size "size" fun _ => rfl)).append
      (hlist _ .length "length" fun _ => rfl)).append
        (hlist _ (fun v : Value => .default v.form v.text) "default" fun _ => rfl)
  exact hall.nodup (by decide)

theorem Collected.perm {written other : List SlotPart} {a : SlotAttributes}
    (ha : Collected written a) (h : written.Perm other) : Collected other a := by
  constructor <;> intros
  · rw [ha.name, h.mem_iff]
  · rw [ha.offset, h.mem_iff]
  · rw [ha.length, h.mem_iff]
  · rw [ha.size, h.mem_iff]
  · rw [ha.type, h.mem_iff]
  · rw [ha.default, h.mem_iff]

/-- What is collected from the attributes of a slot. -/
theorem collected_parts {slot : Slot} {named : Bool} {field : String} {a : SlotAttributes}
    (ha : Collected (slot.parts named) a) (hname : named = false → slot.name = field) :
    (∃ t, a.type = some t ∧ t.text = slot.kind.word) ∧ a.offset = some slot.offset ∧
      a.size = slot.kind.writtenSize slot.size ∧ a.length = slot.kind.writtenLength slot.size ∧
      a.name.getD field = slot.name ∧ a.default.map Value.plain = slot.default.map Value.plain := by
  refine ⟨Option.map_eq_some_iff.mp ((ha.type _).mpr (by simp [Slot.parts])),
    (ha.offset _).mpr (by simp [Slot.parts]), Option.ext fun count => ?_,
    Option.ext fun count => ?_, ?_, ?_⟩
  · rw [ha.size]
    cases named <;> simp [Slot.parts]
  · rw [ha.length]
    cases named <;> simp [Slot.parts]
  · cases named with
    | true => rw [(ha.name slot.name).mpr (by simp [Slot.parts]), Option.getD_some]
    | false =>
      have hnone : a.name = none := not_set ha.name fun text => by simp [Slot.parts]
      rw [hnone, hname rfl, Option.getD_none]
  · cases hd : slot.default with
    | some v => exact (ha.default v.form v.text).mpr (by simp [Slot.parts, hd])
    | none =>
      rw [Option.map_none, Option.map_eq_none_iff]
      refine Option.eq_none_iff_forall_ne_some.mpr fun v hv => ?_
      have hwritten := (ha.default v.form v.text).mp (by rw [hv]; rfl)
      simp [Slot.parts, hd] at hwritten

theorem check_default_ok {slot : Slot} {read v : Value} (hread : read.plain = v.plain)
    (hpermits : slot.permits v.form = true)
    (hsymbol : v.form = .identifier → v.text ∈ slot.symbols.map Symbol.name) :
    checkDefault slot read = .ok () := by
  obtain ⟨hform, htext, -⟩ := Value.mk.inj hread
  rw [checkDefault, hform, htext, hpermits, if_neg (by decide), if_neg ?_]
  rw [Bool.and_eq_true, beq_iff_eq]
  intro ⟨hidentifier, hnone⟩
  obtain ⟨symbol, hsymbol, hname⟩ := List.mem_map.mp (hsymbol hidentifier)
  rw [Option.isNone_iff_eq_none, Slot.symbol?, List.find?_eq_none] at hnone
  exact hnone symbol hsymbol (by simp [hname])

/-- The default, if there is one, is the last to be looked at. -/
theorem reads_default {slot bare : Slot} {default : Option Value}
    (hbare : bare = { slot with default := none })
    (hdefault : default.map Value.plain = slot.default.map Value.plain) (hwell : slot.WellFormed) :
    Reads (match default with
      | none => pure bare
      | some value => do
        locate value.location (checkDefault bare value)
        return { bare with default := some value }) [] follow
      fun read => read.plain = slot.plain := by
  subst hbare
  cases default with
  | none => exact reads_pure (by simp [Slot.plain, ← hdefault])
  | some read =>
    obtain ⟨v, hv, hread⟩ : ∃ v, slot.default = some v ∧ v.plain = read.plain :=
      Option.map_eq_some_iff.mp hdefault.symm
    obtain ⟨-, hpermits, hsymbol⟩ := hwell.default v hv
    refine reads_located (check_default_ok hread.symm hpermits hsymbol) (reads_pure ?_)
    simp [Slot.plain, hv, hread]

/-- Every slot that a definition admits can be spelled. -/
theorem exists_slot_spelling {slot : Slot} (h : slot.WellFormed) (field : String) :
    ∃ spelled, slot.Spells field spelled := by
  have hparts : ∀ part ∈ slot.parts true, ∃ spelled, part.Spells spelled := by
    intro part hpart
    suffices hset : ∃ set, part.Sets set by
      obtain ⟨set, hset⟩ := hset
      exact ⟨_, set, hset, rfl⟩
    have hsize {count : Nat} (hc : slot.kind.writtenSize slot.size = some count ∨
        slot.kind.writtenLength slot.size = some count) : count < 0x10000000000000000 := by
      have hlt := h.size_lt
      unfold SlotKind.writtenSize SlotKind.writtenLength at hc
      cases hk : slot.kind <;> simp_all
    simp only [Slot.parts, if_true, List.mem_append, List.mem_cons, List.mem_map,
      Option.mem_toList, List.not_mem_nil, or_false] at hpart
    rcases hpart with (((rfl | rfl | rfl) | ⟨count, hc, rfl⟩) | ⟨count, hc, rfl⟩) | ⟨v, hv, rfl⟩
    · exact ⟨_, rfl⟩
    · exact ⟨_, h.offset_lt, rfl⟩
    · exact ⟨_, rfl⟩
    · exact ⟨_, .inl ⟨hsize (.inl hc), rfl⟩⟩
    · exact ⟨_, hsize (.inr hc), rfl⟩
    · obtain ⟨spelled, hv⟩ := (h.default v hv).1.spells
      exact ⟨spelled, hv⟩
  have hsymbols : ∀ symbol ∈ slot.symbols, ∃ spelled, symbol.Spells spelled := by
    intro symbol _
    by_cases hlow : symbol.value < 0
    · exact ⟨_, _, .inl ⟨hlow, rfl⟩, rfl⟩
    · exact ⟨_, _, .inr ⟨Int64.not_lt.mp hlow, .inl rfl⟩, rfl⟩
  obtain ⟨items, hitems, hspelled⟩ := exists_spellings hparts
  obtain ⟨symbols, hsymbols, htable⟩ := exists_spellings hsymbols
  exact ⟨_, true, false, _, items, nofun, .of_eq hitems, hspelled,
    .inr ⟨symbols, hsymbols, htable, rfl⟩, rfl⟩

theorem reads_slot {slot : Slot} {field : String} (h : slot.Spells field spelled)
    (hwell : slot.WellFormed) :
    Reads (Definition.slot field) spelled (· = some .semicolon)
      (fun read => read.plain = slot.plain) := by
  obtain ⟨named, trailing, table, items, hname, hparts, hitems, htable, rfl⟩ := h
  have hattributes : ReadsItems slotAttribute .rightParen
      (fun k => k = some .comma ∨ k = some .rightParen) Prod.snd
      (fun done a => Collected (done.map Prod.fst) a) items := by
    refine ⟨fun a => (local_slot_attribute a).weaken (by decide), fun x hx => ?_, ?_⟩
    · obtain ⟨set, -, hspelled⟩ := hitems x hx
      exact ⟨.identifier, by decide, by rw [hspelled]; rfl⟩
    · intro done x rest hsplit a ha
      have hkeys := (hparts.map SlotPart.key).nodup_iff.mpr (keys_nodup slot named)
      rw [hsplit, List.map_append, List.map_append, List.nodup_append] at hkeys
      rw [List.map_append]
      refine (reads_slot_attribute (hitems x (by simp [hsplit])) (fun hx => ?_) ha).mono ?_
        fun _ h => h
      · exact hkeys.2.2 _ hx _ (by simp) rfl
      · rintro k (rfl | rfl) <;> decide
  refine reads_token fun opening _ _ => ?_
  refine (hattributes.list_until_closed (by decide) collected_nothing trailing ")").bind
    fun a ha => ?_
  obtain ⟨⟨type, htype, hword⟩, hoffset, hsize, hlength, hcalled, hdefault⟩ :=
    collected_parts (ha.perm hparts) hname
  refine reads_demand htype (reads_demand hoffset (reads_located (a := (slot.kind, slot.size)) ?_
    ?_))
  · rw [hword, hsize, hlength]
    exact slot_kind_eq hwell.kind
  rcases htable with ⟨hnone, rfl⟩ | ⟨symbols, hsymbols, hspelled, rfl⟩
  · refine reads_next_is false ?_ fun k hk => by simp [hk]
    refine reads_default ?_ hdefault hwell
    rw [hcalled, hnone]
  · refine reads_next_is true ?_ fun _ _ => rfl
    rw [← List.append_nil (block symbols)]
    refine (reads_symbols hspelled (hsymbols ▸ hwell.symbols)).bind fun table ht => ?_
    refine reads_default ?_ hdefault hwell
    rw [hcalled, ht, hsymbols]

end Definition

end ResourceCompiler
