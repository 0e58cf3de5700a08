import ResourceCompiler.Source.Token
import ResourceCompiler.Schema.SlotKind

/-!
What can be wrong with a source or with the resources that it declares. Each fault is one cause;
its wording stands here and nowhere else.
-/

namespace ResourceCompiler

/-- What the lexer cannot read. -/
inductive LexicalFault
  | unrecognisedCharacter (c : Char)
  | missingDirectiveName
  | missingResourceDigits
  | unterminatedString
deriving DecidableEq, Repr

def LexicalFault.describe : LexicalFault → String
  | .unrecognisedCharacter c => "unrecognised character '" ++ c.toString ++ "'"
  | .missingDirectiveName => "expected a directive name after '@'"
  | .missingResourceDigits => "expected digits after '#' in resource id"
  | .unterminatedString => "unterminated string literal"

/-- Tokens that the grammar does not allow where they stand. -/
inductive GrammarFault
  | endOfInput
  | mismatch (expected : Condition) (found : String)
  | missing (expected : Condition)
  | unexpectedToken (text : String)
  | unknownDirective (name : String)
  | importWithoutPaths
  | importOfNonString (text : String)
  | unexpectedInDefinition (item : String)
  | unexpectedInField (item field : String)
  | unexpectedInReference (item reference : String)
  | unexpectedInColor (text : String)
  | unknownSlotAttribute (key : String)
  | unknownInstanceAttribute (key : String)
  | notMappingOperand (text : String)
  | notValue (text : String)
  | emptyAssignment (field : String)
deriving DecidableEq, Repr

def GrammarFault.describe : GrammarFault → String
  | .endOfInput => "unexpected end of input"
  | .mismatch expected found =>
    "expected " ++ expected.describe ++ " but found '" ++ found ++ "'"
  | .missing expected => "expected " ++ expected.describe ++ " but reached the end of input"
  | .unexpectedToken text => "unexpected token '" ++ text ++ "'"
  | .unknownDirective name => "unknown directive '@" ++ name ++ "'"
  | .importWithoutPaths => "@import expects at least one file path"
  | .importOfNonString text => "@import expects string paths, found '" ++ text ++ "'"
  | .unexpectedInDefinition item => "unexpected '" ++ item ++ "' in type definition"
  | .unexpectedInField item field => "unexpected '" ++ item ++ "' in field '" ++ field ++ "'"
  | .unexpectedInReference item reference =>
    "unexpected '" ++ item ++ "' in reference '" ++ reference ++ "'"
  | .unexpectedInColor text => "unexpected '" ++ text ++ "' in rgb()"
  | .unknownSlotAttribute key => "unknown value attribute '" ++ key ++ "'"
  | .unknownInstanceAttribute key => "unknown resource attribute '" ++ key ++ "'"
  | .notMappingOperand text =>
    "expected 'id' or an integer in id_mapping but found '" ++ text ++ "'"
  | .notValue text => "expected a value but found '" ++ text ++ "'"
  | .emptyAssignment field => "field '" ++ field ++ "' is assigned no values"

/-- The room that a number has to fit. -/
inductive Room
  | bytes (width : Nat)
  | resourceId
  | color
deriving DecidableEq, Repr

def Room.describe : Room → String
  | .bytes width => toString width ++ " byte(s)"
  | .resourceId => "a 16-bit resource id"
  | .color => "a 24-bit color"

/-- Source that reads well and means nothing. -/
inductive MeaningFault
  | importsTooDeep (limit : Nat)
  | importNotFound (path : String)
  | colorComponentCount (count : Nat)
  | colorComponent (text : String)
  | fieldDefinedTwice (field : String)
  | referenceDefinedTwice (reference : String)
  | missingTypeName
  | missingTypeCode (type : String)
  | missingFields (type : String)
  | missingValues (field : String)
  | slotAttributeGivenTwice (key : String)
  | missingSlotType (field : String)
  | missingSlotOffset (field : String)
  | missingSlotAttribute (type key : String)
  | fixedSlotSize (type : String) (expected given : Nat)
  | unsupportedSlotSize (type : String) (width : Nat)
  | unknownSlotType (type : String)
  | invalidByteCount (text : String)
  | unknownSize (text : String)
  | symbolDefinedTwice (name : String)
  | symbolOutOfRange (text : String)
  | defaultNotPermitted (value : ValueForm) (text : String) (kind : SlotKind) (slot : String)
  | defaultNotSymbol (text slot : String)
  | emptyIdRange (low high : Int64)
  | missingTargetType (reference : String)
  | invalidMappingId (text : String)
  | invalidResourceId (text : String)
  | mappingDividesByZero
  | mappingOverflow
  | duplicateTypeName (type : String)
  | duplicateTypeCode (code owner : String)
  | unknownType (type : String)
  | notReference (field type : String)
  | nestedIdOutsideRange (type : String) (id low high : Int64)
  | fieldAssignedTwice (field : String) (id : Int64)
  | invalidInteger (text : String)
  | unknownField (type field : String)
  | missingRequiredField (type : String) (id : Int64) (field : String)
  | valueCount (field : String) (expected given : Nat)
  | valueNotPermitted (value : ValueForm) (text : String) (kind : SlotKind) (slot field : String)
  | unknownSymbol (text slot : String)
  | outOfRange (text : String) (room : Room)
  | noIntegerWidth (slot : String) (width : Nat)
  | stringNotStorable (text : String) (kind : SlotKind)
deriving DecidableEq, Repr

def MeaningFault.describe : MeaningFault → String
  | .importsTooDeep limit => "imports are nested deeper than " ++ toString limit ++ " levels"
  | .importNotFound path => "imported file '" ++ path ++ "' could not be found"
  | .colorComponentCount count => "rgb() takes 3 components, found " ++ toString count
  | .colorComponent text => "rgb() component '" ++ text ++ "' is not in 0..=255"
  | .fieldDefinedTwice field => "field '" ++ field ++ "' is defined more than once"
  | .referenceDefinedTwice reference => "reference '" ++ reference ++ "' is defined more than once"
  | .missingTypeName => "type definition must include a type name"
  | .missingTypeCode type => "type definition '" ++ type ++ "' must include a type code"
  | .missingFields type => "type definition '" ++ type ++ "' must define at least one field"
  | .missingValues field => "field '" ++ field ++ "' defines no values"
  | .slotAttributeGivenTwice key => "value attribute '" ++ key ++ "' is given more than once"
  | .missingSlotType field => "value in field '" ++ field ++ "' must specify a type"
  | .missingSlotOffset field => "value in field '" ++ field ++ "' must specify an offset"
  | .missingSlotAttribute type key => "'" ++ type ++ "' values require a " ++ key
  | .fixedSlotSize type expected given =>
    "'" ++ type ++ "' values are always " ++ toString expected ++ " bytes, not " ++ toString given
  | .unsupportedSlotSize type width =>
    "unsupported size of " ++ toString width ++ " bytes for '" ++ type ++ "'"
  | .unknownSlotType type => "unknown value type '" ++ type ++ "'"
  | .invalidByteCount text => "'" ++ text ++ "' is not a valid byte count"
  | .unknownSize text => "unknown size '" ++ text ++ "'"
  | .symbolDefinedTwice name => "symbol '" ++ name ++ "' is defined more than once"
  | .symbolOutOfRange text => "symbol value '" ++ text ++ "' is out of range"
  | .defaultNotPermitted value text kind slot =>
    "default " ++ value.describe ++ " '" ++ text ++ "' is not valid for " ++ kind.describe ++
      " value '" ++ slot ++ "'"
  | .defaultNotSymbol text slot =>
    "default '" ++ text ++ "' is not a symbol of value '" ++ slot ++ "'"
  | .emptyIdRange low high =>
    "valid_id_range #" ++ toString low ++ " #" ++ toString high ++ " is empty"
  | .missingTargetType reference => "reference '" ++ reference ++ "' must name a target type"
  | .invalidMappingId text => "'" ++ text ++ "' is not a valid resource id"
  | .invalidResourceId text => "'#" ++ text ++ "' is not a valid resource id"
  | .mappingDividesByZero => "division by zero in id mapping"
  | .mappingOverflow => "id mapping overflowed"
  | .duplicateTypeName type => "duplicate type name '" ++ type ++ "'"
  | .duplicateTypeCode code owner =>
    "duplicate type code '" ++ code ++ "' (already used by '" ++ owner ++ "')"
  | .unknownType type => "unknown resource type '" ++ type ++ "'"
  | .notReference field type =>
    "field '" ++ field ++ "' of '" ++ type ++ "' cannot declare a nested resource"
  | .nestedIdOutsideRange type id low high =>
    "nested " ++ type ++ " id #" ++ toString id ++ " is outside the valid range #" ++
      toString low ++ " #" ++ toString high
  | .fieldAssignedTwice field id =>
    "field '" ++ field ++ "' is assigned more than once in resource #" ++ toString id
  | .invalidInteger text => "'" ++ text ++ "' is not a valid integer"
  | .unknownField type field => "'" ++ type ++ "' has no field named '" ++ field ++ "'"
  | .missingRequiredField type id field =>
    type ++ " #" ++ toString id ++ " is missing required field '" ++ field ++ "'"
  | .valueCount field expected given =>
    "field '" ++ field ++ "' expects " ++ toString expected ++ " value(s) but " ++
      toString given ++ " were given"
  | .valueNotPermitted value text kind slot field =>
    value.describe ++ " '" ++ text ++ "' cannot be stored in " ++ kind.describe ++ " value '" ++
      slot ++ "' of field '" ++ field ++ "'"
  | .unknownSymbol text slot => "'" ++ text ++ "' is not a known symbol of value '" ++ slot ++ "'"
  | .outOfRange text room => "'" ++ text ++ "' does not fit " ++ room.describe
  | .noIntegerWidth slot width =>
    "value '" ++ slot ++ "' has no integer width (" ++ toString width ++ " bytes)"
  | .stringNotStorable text kind =>
    "string '" ++ text ++ "' cannot be stored in a " ++ kind.describe ++ " value"

/-- The quantities that a container writes into fields of a fixed width. -/
inductive Quantity
  | resourceDataLength | nameListOffset | mapOffset | dataLength | mapLength | typeCount
  | resourceCount | resourceListOffset | headerLength | resourceOffset | resourceLength
  | typeListOffset | resourceIndex
deriving DecidableEq, Repr

def Quantity.describe : Quantity → String
  | .resourceDataLength => "resource data length"
  | .nameListOffset => "name list offset"
  | .mapOffset => "map offset"
  | .dataLength => "data length"
  | .mapLength => "map length"
  | .typeCount => "type count"
  | .resourceCount => "resource count"
  | .resourceListOffset => "resource list offset"
  | .headerLength => "header length"
  | .resourceOffset => "resource offset"
  | .resourceLength => "resource length"
  | .typeListOffset => "type list offset"
  | .resourceIndex => "resource index"

/-- Bytes that cannot be laid out. -/
inductive LayoutFault
  | doesNotFit (quantity : Quantity) (value : Nat)
  | idNotSixteenBit (id : Int64)
  | dataOffsetTooLarge (offset : Nat)
  | typeCodeLength (code : String) (length : Nat)
  | unsupportedIntegerWidth (width : Nat)
  | rawDataNotAppended (cursor size : Nat)
deriving DecidableEq, Repr

def LayoutFault.describe : LayoutFault → String
  | .doesNotFit quantity value =>
    quantity.describe ++ " (" ++ toString value ++ ") does not fit its field"
  | .idNotSixteenBit id => "resource id " ++ toString id ++ " does not fit a 16-bit id"
  | .dataOffsetTooLarge offset => "data offset " ++ toString offset ++ " does not fit 24 bits"
  | .typeCodeLength code length =>
    "type code '" ++ code ++ "' encodes to " ++ toString length ++ " bytes, expected 4"
  | .unsupportedIntegerWidth width =>
    "unsupported integer width of " ++ toString width ++ " bytes"
  | .rawDataNotAppended cursor size =>
    "raw data may only be appended (cursor at " ++ toString cursor ++ ", buffer is " ++
      toString size ++ " bytes)"

end ResourceCompiler
