import ResourceCompiler.Binary.ByteOrder
import ResourceCompiler.Text.MacRoman
import ResourceCompiler.Report.Error

/-!
A byte buffer with a cursor. Writes never shrink it: they overwrite from the cursor on and append
what runs past the end. A cursor beyond the end is only a promise; the next write fills the gap
with zeros.
-/

namespace ResourceCompiler

/-- Bytes from a list. -/
def bytesOf (bytes : List UInt8) : ByteArray := ⟨bytes.toArray⟩

/-- A run of zero bytes. -/
def zeros (count : Nat) : ByteArray := ⟨Array.replicate count 0⟩

structure Buffer where
  bytes : ByteArray
  order : ByteOrder
  cursor : Nat

namespace Buffer

def empty (order : ByteOrder) : Buffer := ⟨ByteArray.empty, order, 0⟩

/-- All bytes, wherever the cursor stands. -/
def size (b : Buffer) : Nat := b.bytes.size

def seek (b : Buffer) (position : Nat) : Buffer := { b with cursor := position }

def seekEnd (b : Buffer) : Buffer := b.seek b.size

def withOrder (b : Buffer) (order : ByteOrder) : Buffer := { b with order := order }

/-- The most bytes that a buffer can hold. -/
def maxSize : Nat := 0x7FFFFFFFFFFFFFFF

/-- Whether there can be a buffer of a size. -/
def checkSize (size : Nat) : Except CompileError Unit :=
  if size ≤ maxSize then .ok () else .error (.breakdown .capacityOverflow)

/-- Zeros at the end, up to a size. -/
def fillTo (b : Buffer) (size : Nat) : Buffer :=
  if b.size < size then { b with bytes := b.bytes ++ zeros (size - b.size) } else b

/-- One byte at the cursor, over the old one or behind the last one. -/
def putByte (b : Buffer) (byte : UInt8) : Buffer :=
  if h : b.cursor < b.bytes.size then
    { b with bytes := b.bytes.set b.cursor byte h, cursor := b.cursor + 1 }
  else
    { b with bytes := b.bytes.push byte, cursor := b.cursor + 1 }

/-- Bytes from the cursor on, which ends up behind them. -/
def put (b : Buffer) (bytes : List UInt8) : Buffer :=
  bytes.foldl putByte (b.fillTo b.cursor)

/-- The lowest `width` bytes of a number. -/
def putNumber (b : Buffer) (width : Nat) (value : Int) : Buffer :=
  b.put (b.order.encode width (wrap width value))

/-- The widths that an integer slot may have. -/
def isIntegerWidth (width : Nat) : Bool := width == 1 || width == 2 || width == 4 || width == 8

def writeInteger (b : Buffer) (value : Int) (width : Nat) : Except CompileError Buffer :=
  if isIntegerWidth width then .ok (b.putNumber width value)
  else .error (.layout (.unsupportedIntegerWidth width))

/-- A length byte and then the text, of which no more than 255 bytes are kept. -/
def pascalBytes (text : String) : List UInt8 :=
  let encoded := (MacRoman.encode text).take 255
  UInt8.ofNat encoded.length :: encoded

def writePascal (b : Buffer) (text : String) : Buffer := b.put (pascalBytes text)

/-- Bytes cut or filled with zeros to an exact length. -/
def padded (length : Nat) (bytes : List UInt8) : List UInt8 :=
  bytes.take length ++ List.replicate (length - bytes.length) 0

/-- A text of a fixed length, or with the length 0 a text that a zero byte ends. -/
def cStringBytes (text : String) (length : Nat) : List UInt8 :=
  if length == 0 then MacRoman.encode text ++ [0] else padded length (MacRoman.encode text)

def writeCString (b : Buffer) (text : String) (length : Nat) : Buffer :=
  b.put (cStringBytes text length)

/-- Raw bytes never overwrite anything: the cursor has to be at the end or beyond it. -/
def writeRaw (b : Buffer) (data : ByteArray) : Except CompileError Buffer :=
  if b.cursor < b.size then .error (.layout (.rawDataNotAppended b.cursor b.size))
  else
    let filled := b.fillTo b.cursor
    .ok { filled with bytes := filled.bytes ++ data, cursor := b.cursor + data.size }

/-- Zeros up to a size. The cursor moves on to the size if it is not there yet. -/
def padTo (b : Buffer) (size : Nat) : Buffer :=
  { (b.fillTo b.cursor).fillTo size with cursor := max b.cursor size }

end Buffer

end ResourceCompiler
