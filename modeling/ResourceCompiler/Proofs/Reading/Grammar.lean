import ResourceCompiler.Proofs.Reading.Local
import ResourceCompiler.Reading.Definition

/-!
The parsers of values and type definitions, one by one: what each reads at least, and how far it
looks ahead.
-/

namespace ResourceCompiler

open ResourceCompiler.Parser

namespace Literal

theorem local_file_reference (head : Token) : Local 3 0 (fileReference head) :=
  (local_ensure _).bind fun _ => (local_ensure _).bind fun _ => (local_ensure _).bind fun _ =>
    local_pure _

theorem local_color_round (text : String) : Local 1 0 (do
    let t ← next
    match t.kind with
    | .rightParen => return Round.done text
    | .integer => return Round.again (text ++ t.text)
    | .comma => return Round.again (text ++ ",")
    | _ => failGrammar t.location (.unexpectedInColor t.text)) := by
  refine local_next.bind (n := 0) (b := 0) fun t => ?_
  split
  · exact local_pure _
  · exact local_pure _
  · exact local_pure _
  · exact local_fail ..

theorem local_color_text : Local 0 0 colorText :=
  local_repeating (fun text => (local_color_round text).weaken (by decide))
    (fun text => (local_color_round text).progresses) ""

theorem local_color (head : Token) : Local 1 0 (color head) := by
  refine (local_ensure _).bind (n := 0) (b := 0) fun _ => ?_
  refine local_color_text.bind (n := 0) (b := 0) fun text => ?_
  have hnumber : Local 0 0 (do
      let number ← Attempt.lift (colorNumber head.location (Text.pieces ',' text.toList))
      return (⟨.color, toString number, head.location⟩ : Value)) :=
    (local_lift _).bind fun _ => local_pure _
  exact .ite ((local_fail 0 0 _).bind fun _ => hnumber) hnumber

theorem local_negative (head : Token) : Local 0 1 (negative head) := by
  refine (local_accept _).bind (n := 0) (b := 0) fun percentage => ?_
  cases percentage with
  | none => exact ((local_ensure _).bind fun _ => local_pure _).weaken (by decide)
  | some t => exact (local_pure t).bind fun _ => local_pure _

theorem local_word (t : Token) : Local 0 1 (word t) := by
  refine (local_next_is _).bind (n := 0) (b := 0) fun _ => ?_
  refine .ite ((local_file_reference t).weaken (by decide)) (.ite ?_ (local_pure _))
  exact (local_color t).weaken (by decide)

/-- A value may end in front of a word's parenthesis, so one token is looked at. -/
theorem local_value : Local 1 1 value := by
  refine local_next.bind (n := 0) (b := 1) fun t => ?_
  have hpure (v : Value) : Local 0 1 (pure v : Parser Value) :=
    (local_pure v).weaken (by decide)
  split
  · exact hpure _
  · exact hpure _
  · exact hpure _
  · exact hpure _
  · exact local_negative t
  · exact local_word t
  · exact local_fail ..

end Literal

namespace Definition

theorem local_text_assignment : Local 2 0 textAssignment :=
  (local_ensure _).bind fun _ => (local_ensure _).bind fun _ => local_pure _

theorem local_block_head : Local 4 0 blockHead :=
  (local_ensure _).bind fun _ => (local_ensure _).bind fun _ => (local_ensure _).bind fun _ =>
    (local_ensure _).bind fun _ => local_pure _

theorem local_locate {α : Type} (location : Location) (r : Except MeaningFault α) :
    Local 0 0 (locate location r) := by
  cases r with
  | error fault => exact local_fail ..
  | ok a => exact local_pure a

/-! Slots -/

theorem local_byte_count : Local 1 0 byteCount :=
  (local_ensure _).bind fun _ => local_demand ..

theorem local_slot_size : Local 1 0 slotSize :=
  (local_next_is _).bind (n := 1) (b := 0) fun _ =>
    .ite (local_next.bind fun _ => local_demand ..) local_byte_count

theorem local_once {α : Type} (key : Token) (earlier : Option α) (given : α) :
    Local 0 0 (once key earlier given) :=
  .ite (local_fail ..) (local_pure _)

/-- An attribute whose value is read by a parser of its own. -/
theorem local_given {α β : Type} {value : Parser α} (hvalue : Local 1 1 value) (key : Token)
    (earlier : Option β) (given : α → β) (result : Option β → SlotAttributes) :
    Local 1 1 (do
      let v ← value
      let v ← once key earlier (given v)
      return result v) :=
  hvalue.bind fun _ => (local_once ..).bind fun _ => local_pure _

theorem local_slot_attribute (a : SlotAttributes) : Local 3 1 (slotAttribute a) := by
  refine (local_ensure _).bind (n := 2) (b := 1) fun key => ?_
  refine (local_ensure _).bind (n := 1) (b := 1) fun _ => ?_
  have hword (kind : TokenKind) : Local 1 1 (ensureKind kind) :=
    (local_ensure _).weaken (by decide)
  have hcount : Local 1 1 byteCount := local_byte_count.weaken (by decide)
  have hsize : Local 1 1 slotSize := local_slot_size.weaken (by decide)
  split
  · exact local_given (hword _) ..
  · exact local_given hcount ..
  · exact local_given hcount ..
  · exact local_given hsize ..
  · exact local_given (hword _) ..
  · exact local_given Literal.local_value ..
  · exact local_fail ..

theorem local_symbol_number : Local 0 1 symbolNumber := by
  have hinteger (f : Token → Parser Int64) (hf : ∀ t, Local 0 0 (f t)) :
      Local 0 0 (ensureKind .integer >>= f) :=
    ((local_ensure _).bind hf).weaken (by decide)
  refine (local_accept _).bind (n := 0) (b := 1) fun minus => ?_
  cases minus with
  | some _ => exact (hinteger _ fun _ => local_demand ..).weaken (by decide)
  | none =>
    refine (local_accept _).bind (n := 0) (b := 0) fun id => ?_
    cases id with
    | some t => exact (local_pure t).bind fun _ => local_demand ..
    | none => exact hinteger _ fun _ => local_demand ..

theorem local_symbol (symbols : List Symbol) : Local 3 0 (symbol symbols) :=
  (local_ensure _).bind (n := 2) (b := 0) fun _ => (local_ensure _).bind (n := 1) (b := 0) fun _ =>
    local_symbol_number.bind (n := 1) (b := 0) fun _ => (local_ensure _).bind fun _ =>
      .ite (local_fail ..) (local_pure _)

theorem local_symbols : Local 2 0 symbols :=
  (local_ensure _).bind fun _ => local_until_closed _
    (fun symbols => (local_symbol symbols).weaken (by decide)) []

theorem local_slot (field : String) : Local 2 1 (slot field) := by
  refine (local_ensure _).bind (n := 1) (b := 1) fun opening => ?_
  have hitem (a : SlotAttributes) : Local 1 1 (slotAttribute a) :=
    (local_slot_attribute a).weaken (by decide)
  refine (local_list_until_closed _ hitem _).bind (n := 0) (b := 1) fun attributes => ?_
  refine (local_demand ..).bind (n := 0) (b := 1) fun type => ?_
  refine (local_demand ..).bind (n := 0) (b := 1) fun offset => ?_
  refine (local_locate ..).bind (n := 0) (b := 1) fun ⟨kind, size⟩ => ?_
  refine (local_next_is _).bind (n := 0) (b := 0) fun _ => ?_
  refine .ite ((local_symbols.bind (n := 0) (b := 0) fun table => ?_).weaken (by decide))
    ((local_pure []).bind (n := 0) (b := 0) fun table => ?_)
  all_goals
    cases attributes.default with
    | none => exact local_pure _
    | some value => exact (local_locate ..).bind fun _ => local_pure _

theorem local_end {α : Type} (y : α) : Local 1 0 (do
    let _ ← ensureKind .semicolon
    return y) :=
  (local_ensure _).bind fun _ => local_pure _

/-- An item whose last part the semicolon follows. -/
theorem local_ended {α β : Type} {p : Parser α} (hp : Local 0 1 p) (g : α → β) :
    Local 1 0 (do
      let x ← p
      let y ← pure (g x)
      let _ ← ensureKind .semicolon
      return y) :=
  hp.bind (n := 1) (b := 0) fun _ => (local_pure _).bind local_end

/-! Fields -/

theorem local_deprecation : Local 0 1 deprecation := by
  refine (local_accept _).bind (n := 0) (b := 0) fun note => ?_
  cases note with
  | none => exact local_pure _
  | some _ =>
    exact ((local_ensure _).bind fun _ => (local_ensure _).bind fun _ =>
      local_pure _).weaken (by decide)

theorem local_field_item (f : Field) : Local 2 0 (fieldItem f) := by
  refine (local_ensure _).bind (n := 1) (b := 0) fun item => ?_
  dsimp only
  split
  · exact local_end _
  · exact local_ended local_deprecation _
  · exact local_ended ((local_slot _).weaken (by decide)) _
  · exact (local_fail 0 0 _).bind local_end

theorem local_field : Local 5 0 field := by
  refine (local_peek 0).bind (n := 5) (b := 0) fun start => ?_
  refine local_block_head.bind (n := 1) (b := 0) fun name => ?_
  have hitem (f : Field) : Local 1 1 (fieldItem f) := (local_field_item f).weaken (by decide)
  refine (local_until_closed _ hitem _).bind (n := 0) (b := 0) fun f => ?_
  exact .ite (local_fail ..) (local_pure _)

/-! References -/

theorem local_mapping_id (t : Token) : Local 0 0 (mappingId t) := local_demand ..

theorem accept_operator_eq : acceptOperator = do
    match ← look (fun c => c.unread.head?.bind fun t => operator? t.kind) with
    | some operator => do
      let _ ← next
      return some operator
    | none => return none := by
  funext ⟨unread, last⟩
  cases unread with
  | nil => rfl
  | cons t rest =>
    have hlook : look (fun c => c.unread.head?.bind fun t => operator? t.kind) ⟨t :: rest, last⟩ =
        (.ok (operator? t.kind), ⟨t :: rest, last⟩) := rfl
    rw [Attempt.bind_ok hlook]
    cases ho : operator? t.kind <;> simp only [acceptOperator, ho] <;> rfl

theorem local_accept_operator : Local 0 1 acceptOperator := by
  have hlook : Local 0 1 (look fun c => c.unread.head?.bind fun t => operator? t.kind) := by
    refine local_look fun front rest other last hlen => ?_
    cases front with
    | nil => simp at hlen
    | cons t front => rfl
  rw [accept_operator_eq]
  refine hlook.bind (n := 0) (b := 0) fun operator => ?_
  cases operator with
  | none => exact local_pure _
  | some _ => exact (local_next.bind fun _ => local_pure _).weaken (by decide)

theorem local_operand : Local 1 0 operand := by
  refine local_next.bind (n := 0) (b := 0) fun t => ?_
  split
  · exact .ite (local_pure _) (local_fail ..)
  · exact (local_mapping_id t).bind fun _ => local_pure _
  · exact (local_mapping_id t).bind fun _ => local_pure _
  · exact local_fail ..

theorem local_mapping_round (state : List (IdOperator × IdOperand) × IdOperator) :
    Local 1 1 (do
      let (operations, operator) := state
      let operations := operations ++ [(operator, ← operand)]
      match ← acceptOperator with
      | some operator => return Round.again (operations, operator)
      | none => return Round.done (operations, operator)) := by
  refine local_operand.bind (n := 0) (b := 1) fun _ => ?_
  refine local_accept_operator.bind (n := 0) (b := 0) fun operator => ?_
  cases operator <;> exact local_pure _

theorem local_id_mapping : Local 0 1 idMapping := by
  refine local_accept_operator.bind (n := 0) (b := 1) fun first => ?_
  have hround (state : List (IdOperator × IdOperand) × IdOperator) :=
    (local_mapping_round state).weaken ⟨Nat.zero_le _, Nat.le_refl _⟩
  exact (local_repeating hround (fun state => (local_mapping_round state).progresses) _).bind
    (n := 0) (b := 0) fun _ => local_pure _

theorem local_reference_item (r : Reference) : Local 3 0 (referenceItem r) := by
  refine (local_ensure _).bind (n := 2) (b := 0) fun item => ?_
  refine (local_ensure _).bind (n := 1) (b := 0) fun _ => ?_
  dsimp only
  split
  · exact local_ended ((local_ensure _).weaken (by decide)) _
  · refine ((local_ensure _).bind (n := 2) (b := 0) fun first => (local_ensure _).bind (n := 1)
      (b := 0) fun last => (local_mapping_id first).bind (n := 1) (b := 0) fun low =>
        (local_mapping_id last).bind (n := 1) (b := 0) fun high => ?_).weaken (by decide)
    exact .ite ((local_fail 0 0 _).bind local_end) ((local_pure _).bind local_end)
  · exact local_ended local_id_mapping _
  · exact (local_fail 0 0 _).bind local_end

theorem local_reference (head : Token) : Local 5 0 (reference head) := by
  refine local_block_head.bind (n := 1) (b := 0) fun name => ?_
  have hitem (r : Reference) : Local 1 1 (referenceItem r) :=
    (local_reference_item r).weaken (by decide)
  refine (local_until_closed _ hitem _).bind (n := 0) (b := 0) fun r => ?_
  exact .ite (local_fail ..) (local_pure _)

/-! Types -/

/-- A part of a type that may not be there already. -/
theorem local_part {α : Type} {p : Parser α} (hp : Local 5 0 p) (known : α → Bool)
    (location : Location) (fault : α → MeaningFault) (add : α → Schema) :
    Local 1 0 (do
      let part ← p
      if known part then do
        let s ← failMeaning location (fault part)
        let _ ← ensureKind .semicolon
        return s
      else do
        let s ← pure (add part)
        let _ ← ensureKind .semicolon
        return s) :=
  (hp.bind (n := 1) (b := 0) fun _ => .ite ((local_fail 0 0 _).bind local_end)
    ((local_pure _).bind local_end)).weaken (by decide)

theorem local_item (s : Schema) : Local 2 0 (item s) := by
  refine (local_ensure _).bind (n := 1) (b := 0) fun word => ?_
  have htext : Local 0 1 textAssignment := local_text_assignment.weaken (by decide)
  dsimp only
  split
  · exact local_ended htext _
  · exact local_ended htext _
  · exact local_part local_field ..
  · exact local_part (local_reference word) ..
  · exact (local_fail 0 0 _).bind local_end

theorem local_schema (location : Location) : Local 2 0 (schema location) := by
  refine (local_ensure _).bind (n := 1) (b := 0) fun _ => ?_
  have hitem (s : Schema) : Local 1 1 (item s) := (local_item s).weaken (by decide)
  refine (local_until_closed _ hitem _).bind (n := 0) (b := 0) fun s => ?_
  exact (local_locate ..).bind fun _ => local_pure _

end Definition

end ResourceCompiler
