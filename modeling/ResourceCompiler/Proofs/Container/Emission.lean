import ResourceCompiler.Container.Layout
import ResourceCompiler.Proofs.Binary.Appending
import ResourceCompiler.Proofs.Container.StandardImage

/-!
How the formats are put into a buffer: part after part at the end, offsets taken from where the parts
come to stand, and the header written over the start once they are known. Here are the parts that
formats share.
-/

namespace ResourceCompiler.Emission

open Buffer Layout

/-- The data of a resource behind its length. Where it starts, counted from the start of the data,
comes behind the starts of the others. -/
def putData (lengthWidth dataStart : Nat) (check : Nat → Except CompileError Unit)
    (p : Buffer × List Nat) (r : Resource) : Except CompileError (Buffer × List Nat) := do
  check r.data.size
  let out ← (p.1.putNumber lengthWidth r.data.size).writeRaw r.data
  return (out, p.2 ++ [p.1.size - dataStart])

/-- A name into the list of names, and its offset behind those of the others. A resource without a
name gets a mark. -/
def putName (unnamed : Nat) (check : Nat → Except CompileError Unit)
    (p : Buffer × List Nat) (r : Resource) : Except CompileError (Buffer × List Nat) :=
  if r.name.isEmpty then return (p.1, p.2 ++ [unnamed])
  else do
    check p.1.size
    return (p.1.writePascal r.name, p.2 ++ [p.1.size])

def putCode (code : String) (out : Buffer) : Except CompileError Buffer := do
  out.writeRaw (bytesOf (← Layout.typeCode code))

/-! Parts one after the other -/

variable {order : ByteOrder} {α : Type}

/-- Parts that are put at the end one after the other. -/
theorem fold_append {put : Buffer → α → Except CompileError Buffer}
    {part : α → Except CompileError (List UInt8)}
    (h : ∀ bytes x, put (holding order bytes) x = do
      return holding order (bytes ++ (← part x))) (bytes : List UInt8) (xs : List α) :
    xs.foldlM put (holding order bytes) = do
      return holding order (bytes ++ (← xs.mapM part).flatten) := by
  induction xs generalizing bytes with
  | nil => simp
  | cons x xs ih => simp [List.foldlM_cons, h, ih, List.mapM_cons]

/-- The same for parts that depend on a running sum. -/
theorem fold_counted {put : Buffer × Nat → α → Except CompileError (Buffer × Nat)}
    {part : α → Nat → Except CompileError (List UInt8)} {size : α → Nat}
    (h : ∀ bytes n x, put (holding order bytes, n) x = do
      return (holding order (bytes ++ (← part x n)), n + size x))
    (bytes : List UInt8) (n : Nat) (xs : List α) :
    xs.foldlM put (holding order bytes, n) = do
      let parts ← (xs.zip (starts n (xs.map size))).mapM fun (x, n) => part x n
      return (holding order (bytes ++ parts.flatten), n + total (xs.map size)) := by
  induction xs generalizing bytes n with
  | nil => simp [starts, total]
  | cons x xs ih => simp [List.foldlM_cons, h, ih, List.mapM_cons, starts, total, Nat.add_assoc]

/-- Each data block starts where the buffer ended. -/
theorem fold_put_data {lengthWidth dataStart : Nat} {check : Nat → Except CompileError Unit}
    {bytes : List UInt8} (offsets : List Nat) (hstart : dataStart ≤ bytes.length)
    (resources : List Resource) :
    resources.foldlM (putData lengthWidth dataStart check) (holding .big bytes, offsets) = do
      resources.forM fun r => check r.data.size
      return (holding .big (bytes ++ (resources.map (dataBlock lengthWidth)).flatten),
        offsets ++ starts (bytes.length - dataStart)
          (resources.map fun r => lengthWidth + r.data.size)) := by
  induction resources generalizing bytes offsets with
  | nil => simp [starts]
  | cons r rest ih =>
    have hstep : putData lengthWidth dataStart check (holding .big bytes, offsets) r = do
        check r.data.size
        return (holding .big (bytes ++ dataBlock lengthWidth r),
          offsets ++ [bytes.length - dataStart]) := by
      simp [putData, dataBlock]
    have hlength : bytes.length + (lengthWidth + r.data.size) - dataStart =
        bytes.length - dataStart + (lengthWidth + r.data.size) := by omega
    rw [List.foldlM_cons, hstep]
    have hih := fun offsets => @ih (bytes ++ dataBlock lengthWidth r) offsets (by
      rw [List.length_append]; omega)
    simp [hih, starts, List.length_append, length_data_block, hlength]

/-- The offset of a name that would start at `start`. -/
def nameOffset (unnamed : Nat) (check : Nat → Except CompileError Unit) (r : Resource)
    (start : Nat) : Except CompileError Nat :=
  if r.name.isEmpty then return unnamed
  else do
    check start
    return start

/-- Each name starts where the list of names ended. -/
theorem fold_put_name {unnamed : Nat} {check : Nat → Except CompileError Unit}
    (bytes : List UInt8) (offsets : List Nat) (resources : List Resource) :
    resources.foldlM (putName unnamed check) (holding .big bytes, offsets) = do
      let more ← (resources.zip (starts bytes.length
        (resources.map fun r => (nameBlock r).length))).mapM fun (r, start) =>
          nameOffset unnamed check r start
      return (holding .big (bytes ++ resources.flatMap nameBlock), offsets ++ more) := by
  induction resources generalizing bytes offsets with
  | nil => simp
  | cons r rest ih =>
    have hstep : putName unnamed check (holding .big bytes, offsets) r = do
        let offset ← nameOffset unnamed check r bytes.length
        return (holding .big (bytes ++ nameBlock r), offsets ++ [offset]) := by
      unfold putName nameOffset nameBlock
      cases r.name.isEmpty <;> simp
    rw [List.foldlM_cons, hstep]
    simp [ih, starts, List.mapM_cons]

/-- The zeros at the start and the data behind them. -/
def dataSection (lengthWidth dataStart : Nat) (resources : List Resource) : List UInt8 :=
  List.replicate dataStart 0 ++ (resources.map (dataBlock lengthWidth)).flatten

theorem length_data_section (lengthWidth dataStart : Nat) (resources : List Resource) :
    (dataSection lengthWidth dataStart resources).length =
      dataStart + total (resources.map fun r => lengthWidth + r.data.size) := by
  rw [dataSection, List.length_append, List.length_replicate, length_flatten_eq_total, List.map_map]
  simp only [Function.comp_def, length_data_block]

theorem put_data_section (lengthWidth dataStart : Nat) (check : Nat → Except CompileError Unit)
    (resources : List Resource) :
    resources.foldlM (putData lengthWidth dataStart check)
        ((Buffer.empty .big).padTo dataStart, []) = do
      resources.forM fun r => check r.data.size
      return (holding .big (dataSection lengthWidth dataStart resources),
        starts 0 (resources.map fun r => lengthWidth + r.data.size)) := by
  rw [empty_eq_holding, pad_to_holding, fold_put_data]
  · simp only [List.nil_append, List.length_nil, List.length_replicate, Nat.sub_zero, Nat.sub_self,
      dataSection]
  · simp

theorem put_names (unnamed : Nat) (check : Nat → Except CompileError Unit)
    (resources : List Resource) :
    resources.foldlM (putName unnamed check) (Buffer.empty .big, []) = do
      let nameOffsets ← (resources.zip (nameStarts resources)).mapM fun (r, start) =>
        nameOffset unnamed check r start
      return (holding .big (resources.flatMap nameBlock), nameOffsets) := by
  rw [empty_eq_holding, fold_put_name]
  rfl

/-- The header goes over the zeros at the start and behind the data, and some zeros follow. -/
theorem put_headers (lengthWidth : Nat) (resources : List Resource) (gap : Nat)
    {dataStart mapOffset : Nat} {head : List UInt8} {putHeader : Nat → Buffer → Buffer}
    (hput : ∀ position out, out.order = .big →
      putHeader position out = (out.seek position).put head)
    (hhead : head.length ≤ dataStart)
    (hmap : (dataSection lengthWidth dataStart resources).length = mapOffset) :
    (putHeader mapOffset (putHeader 0
      (holding .big (dataSection lengthWidth dataStart resources)))).padTo
        (mapOffset + head.length + gap) =
      holding .big (head ++ (List.replicate (dataStart - head.length) 0 ++
        ((resources.map (dataBlock lengthWidth)).flatten ++ (head ++ List.replicate gap 0)))) := by
  have hsplit : dataSection lengthWidth dataStart resources = List.replicate head.length 0 ++
      (List.replicate (dataStart - head.length) 0 ++
        (resources.map (dataBlock lengthWidth)).flatten) := by
    rw [← List.append_assoc, List.replicate_append_replicate, Nat.add_sub_cancel' hhead]
    rfl
  have hover := put_over .big (List.replicate (dataStart - head.length) 0 ++
    (resources.map (dataBlock lengthWidth)).flatten)
    (List.length_replicate (n := head.length) (a := (0 : UInt8))).symm
  rw [← hsplit, hmap] at hover
  have hgap : mapOffset + head.length + gap - (head ++
      (List.replicate (dataStart - head.length) 0 ++
        (resources.map (dataBlock lengthWidth)).flatten) ++ head).length = gap := by
    rw [hsplit] at hmap
    simp only [List.length_append, List.length_replicate] at hmap ⊢
    omega
  rw [hput 0 _ rfl, hput _ _ (put_spec ..).1, hover, put_holding, pad_to_holding, hgap]
  simp only [List.append_assoc]

theorem for_m_return {ε : Type} (xs : List α) :
    (xs.forM fun _ => return : Except ε Unit) = return := by
  induction xs with
  | nil => rfl
  | cons x xs ih => exact ih

theorem put_code_holding (code : String) (bytes : List UInt8) :
    putCode code (holding order bytes) = do
      return holding order (bytes ++ (← typeCode code)) := by
  simp [putCode, bytesOf]

end ResourceCompiler.Emission
