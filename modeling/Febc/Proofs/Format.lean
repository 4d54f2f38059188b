import Febc.Proofs.Tables

/-!
# Reading entity files back

The layout of an entity file, written as readers that take a value from the front of a byte
list: big-endian numbers of two, four and eight bytes, lists preceded by a two-byte count,
constants by their tag, attributes by a four-byte length, and each member list by its count and
its table size.

Writing and reading are inverse on every value whose numbers fit the widths they are written in
(`EntityFile.Fits`): the reader takes back exactly the bytes of a file, returns the file, and
returns the two table-size words, which are the table sizes of the fields and of the functions.
A table-size word is the least word at least one past every table index, capped at 65535
(`tableSize_le_iff`), so it is above every index below 65535 but not above an index of 65535.
An exception table writes class 0 for a row that catches any exception, so a row that names
class 0 reads back as catching any.

Main statements:
* `Reader.run_entityFile`, `Reader.run_instructionAttribute`: what reading back a file or a
  function's code gives;
* `tableSize_le_iff`: what a table-size word is;
* `entity_files_read_back`: the three together.
-/

theorem ByteArray.toList_loop (bs : ByteArray) (i : Nat) (r : List UInt8) :
    ByteArray.toList.loop bs i r = r.reverse ++ bs.data.toList.drop i := by
  induction i, r using ByteArray.toList.loop.induct bs with
  | case1 i r inside ih =>
    have lt : i < bs.data.toList.length := by simpa using inside
    rw [ByteArray.toList.loop.eq_1, if_pos inside, ih, List.drop_eq_getElem_cons lt]
    simp [ByteArray.get!, getElem!_pos bs.data i (by simpa using lt)]
  | case2 i r outside =>
    rw [ByteArray.toList.loop.eq_1, if_neg outside]
    simp [ByteArray.size_data]
    omega

theorem ByteArray.toList_eq_data (bs : ByteArray) : bs.toList = bs.data.toList := by
  simp [ByteArray.toList, ByteArray.toList_loop]

namespace Febc

/-- A reader takes a value from the front of a byte list and leaves the rest. -/
abbrev Reader := StateT (List UInt8) Option

namespace Reader

def byte : Reader UInt8 := fun
  | b :: rest => some (b, rest)
  | [] => none

/-- The next `n` bytes as they are. -/
def bytes (n : Nat) : Reader (List UInt8) := fun bs =>
  if n ≤ bs.length then some (bs.take n, bs.drop n) else none

/-- Exactly the bytes `expected`, or nothing. -/
def literal (expected : List UInt8) : Reader Unit := do
  let found ← bytes expected.length
  if found = expected then pure () else failure

def u16 : Reader Nat := do
  let high ← byte
  let low ← byte
  pure (high.toNat * 256 + low.toNat)

def u32 : Reader Nat := do
  let high ← u16
  let low ← u16
  pure (high * 65536 + low)

def u64 : Reader Nat := do
  let high ← u32
  let low ← u32
  pure (high * 4294967296 + low)

/-- `n` items, one after the other. -/
def many {α : Type} (item : Reader α) : Nat → Reader (List α)
  | 0 => pure []
  | n + 1 => do
    let x ← item
    let xs ← many item n
    pure (x :: xs)

/-- A two-byte count, then that many items. -/
def counted {α : Type} (item : Reader α) : Reader (List α) := do
  many item (← u16)

/-- A constant: its tag, then the payload the tag calls for. -/
def constant : Reader Constant := do
  let tag ← byte
  match tag.toNat with
  | 1 => return .integer (UInt32.ofNat (← u32)).toInt32
  | 2 => return .long (UInt64.ofNat (← u64)).toInt64
  | 3 => return .float (UInt32.ofNat (← u32))
  | 4 => return .double (UInt64.ofNat (← u64))
  | 5 =>
    let text ← bytes (← u16)
    match String.fromUTF8? ⟨text.toArray⟩ with
    | some s => return .utf8 s
    | none => failure
  | 6 => return .string (← u16)
  | 7 => return .function (← u16) (← u16) (← u16) (← u16)
  | 8 => return .field (← u16) (← u16) (← u16)
  | 9 => return .classRef (← u16)
  | _ => failure

def attributeEntry : Reader Attribute := do
  let nameIndex ← u16
  let info ← bytes (← u32)
  pure ⟨nameIndex, info⟩

def member : Reader Member := do
  let flags ← u16
  let nameIndex ← u16
  let descriptorIndex ← u16
  let tableIndex ← u16
  let attributes ← counted attributeEntry
  pure ⟨flags, nameIndex, descriptorIndex, tableIndex, attributes⟩

/-- A member list: its count, its table-size word, then the members. -/
def members : Reader (Nat × List Member) := do
  let count ← u16
  let slots ← u16
  let ms ← many member count
  pure (slots, ms)

end Reader

/-- An entity file as read: the file, and the table-size words before its fields and its
functions. -/
structure ReadEntity where
  file : EntityFile
  fieldSlots : Nat
  functionSlots : Nat

namespace Reader

def entityFile : Reader ReadEntity := do
  literal EntityFile.magic
  let major ← u16
  let minor ← u16
  let streamFlags ← u16
  let constants ← counted constant
  literal [EntityFile.classType]
  let flags ← u16
  let selfIndex ← u16
  let supers ← counted u16
  let attributes ← counted attributeEntry
  let (fieldSlots, fields) ← members
  let (functionSlots, functions) ← members
  let file : EntityFile :=
    { version := ⟨major, minor⟩, streamFlags := streamFlags, constants := constants.toArray
      flags := flags, self := selfIndex, supers := supers, attributes := attributes
      fields := fields, functions := functions }
  pure ⟨file, fieldSlots, functionSlots⟩

/-- A row of an exception table; class 0 stands for any exception. -/
def handlerSite : Reader HandlerSite := do
  let start ← u16
  let stop ← u16
  let handler ← u16
  let catchClass ← u16
  pure ⟨start, stop, handler, if catchClass = 0 then none else some catchClass⟩

/-- The bytes of a function's code attribute. -/
def instructionAttribute : Reader InstructionAttribute := do
  let maxStack ← u16
  let localCount ← u16
  let code ← bytes (← u32)
  let handlers ← counted handlerSite
  pure ⟨maxStack, localCount, code, handlers⟩

end Reader

/-! ## Values that fit their widths -/

/-- Every number of a constant fits the width it is written in. -/
def Constant.Fits : Constant → Prop
  | .utf8 text => text.utf8ByteSize < 65536
  | .string text => text < 65536
  | .function owner descriptor name tableIndex =>
    owner < 65536 ∧ descriptor < 65536 ∧ name < 65536 ∧ tableIndex < 65536
  | .field owner descriptor name => owner < 65536 ∧ descriptor < 65536 ∧ name < 65536
  | .classRef name => name < 65536
  | _ => True

def Attribute.Fits (a : Attribute) : Prop :=
  a.nameIndex < 65536 ∧ a.info.length < 4294967296

/-- A member whose flags are among `mask` and whose numbers fit their widths. -/
structure Member.Fits (mask : Nat) (m : Member) : Prop where
  flags : m.flags &&& mask = m.flags
  name : m.nameIndex < 65536
  descriptor : m.descriptorIndex < 65536
  tableIndex : m.tableIndex < 65536
  attributeCount : m.attributes.length < 65536
  attributes : ∀ a ∈ m.attributes, a.Fits

/-- An entity file whose flags are those of an entity and whose numbers, counts and lengths
fit the widths they are written in. -/
structure EntityFile.Fits (e : EntityFile) : Prop where
  major : e.version.major < 65536
  minor : e.version.minor < 65536
  streamFlags : e.streamFlags < 65536
  constantCount : e.constants.size < 65536
  constants : ∀ c ∈ e.constants, c.Fits
  flags : e.flags &&& AccessFlag.entityMask = e.flags
  self : e.self < 65536
  superCount : e.supers.length < 65536
  supers : ∀ s ∈ e.supers, s < 65536
  attributeCount : e.attributes.length < 65536
  attributes : ∀ a ∈ e.attributes, a.Fits
  fieldCount : e.fields.length < 65536
  fields : ∀ m ∈ e.fields, m.Fits AccessFlag.fieldMask
  functionCount : e.functions.length < 65536
  functions : ∀ m ∈ e.functions, m.Fits AccessFlag.functionMask

def HandlerSite.Fits (s : HandlerSite) : Prop :=
  s.start < 65536 ∧ s.stop < 65536 ∧ s.handler < 65536 ∧ s.catchClass.getD 0 < 65536

structure InstructionAttribute.Fits (a : InstructionAttribute) : Prop where
  maxStack : a.maxStack < 65536
  localCount : a.localCount < 65536
  codeLength : a.code.length < 4294967296
  handlerCount : a.handlers.length < 65536
  handlers : ∀ s ∈ a.handlers, s.Fits

/-- A row as an exception table tells it: class 0 is any exception. -/
def HandlerSite.canonical (s : HandlerSite) : HandlerSite :=
  { s with catchClass := s.catchClass.filter (· != 0) }

namespace Reader

/-! ## Reading numbers and lists -/

section Numbers

@[simp] theorem run_byte (b : UInt8) (rest : List UInt8) :
    byte.run (b :: rest) = some (b, rest) := rfl

@[simp] theorem run_bytes (bs rest : List UInt8) :
    (bytes bs.length).run (bs ++ rest) = some (bs, rest) := by
  simp [bytes, StateT.run]

@[simp] theorem run_literal (bs rest : List UInt8) :
    (literal bs).run (bs ++ rest) = some ((), rest) := by
  simp [literal]

@[simp] theorem run_literal_singleton (b : UInt8) (rest : List UInt8) :
    (literal [b]).run (b :: rest) = some ((), rest) :=
  run_literal [b] rest

@[simp] theorem run_u16 (v : Nat) (rest : List UInt8) :
    u16.run (beU16 v ++ rest) = some (v % 65536, rest) := by
  have low := Nat.mod_lt v (by decide : 256 > 0)
  simp [u16, beU16, OperandWidth.encode, Nat.toUInt8]
  omega

theorem run_u16_of_lt {v : Nat} (fits : v < 65536) (rest : List UInt8) :
    u16.run (beU16 v ++ rest) = some (v, rest) := by
  rw [run_u16, Nat.mod_eq_of_lt fits]

theorem beU32_eq (v : Nat) : beU32 v = beU16 (v / 65536) ++ beU16 v := by
  simp [beU32, beU16, OperandWidth.encode, Nat.div_div_eq_div_mul]

@[simp] theorem run_u32 (v : Nat) (rest : List UInt8) :
    u32.run (beU32 v ++ rest) = some (v % 4294967296, rest) := by
  simp [u32, beU32_eq]
  omega

@[simp] theorem run_u64 (v : Nat) (rest : List UInt8) :
    u64.run (beU64 v ++ rest) = some (v % 18446744073709551616, rest) := by
  simp [u64, beU64]
  omega

end Numbers

section Lists

variable {α β : Type} {item : Reader β} {write : α → List UInt8} {read : α → β}

/-- Items that read back one by one read back as a list, each item's bytes after the last's. -/
theorem run_many (xs : List α)
    (reads : ∀ x ∈ xs, ∀ rest, item.run (write x ++ rest) = some (read x, rest))
    (rest : List UInt8) :
    (many item xs.length).run ((xs.map write).flatten ++ rest) = some (xs.map read, rest) := by
  induction xs with
  | nil => rfl
  | cons x xs ih =>
    have later := ih fun y mem => reads y (List.mem_cons_of_mem x mem)
    simp [many, reads x List.mem_cons_self, later]

theorem run_counted (xs : List α) (fits : xs.length < 65536)
    (reads : ∀ x ∈ xs, ∀ rest, item.run (write x ++ rest) = some (read x, rest))
    (rest : List UInt8) :
    (counted item).run (Febc.counted write xs ++ rest) = some (xs.map read, rest) := by
  simp [counted, Febc.counted, Nat.mod_eq_of_lt fits, run_many xs reads]

end Lists

/-! ## Constants -/

section Constants

theorem int32_ofNat_toNat (v : Int32) : Int32.ofNat v.toUInt32.toNat = v := by
  apply Int32.toBitVec_inj.mp
  simp

theorem int64_ofNat_toNat (v : Int64) : Int64.ofNat v.toUInt64.toNat = v := by
  apply Int64.toBitVec_inj.mp
  simp

theorem length_toByteArray_toList (s : String) :
    s.toByteArray.toList.length = s.utf8ByteSize := by
  simp [ByteArray.toList_eq_data]

theorem fromUTF8?_toByteArray_toList (s : String) :
    String.fromUTF8? ⟨s.toByteArray.toList.toArray⟩ = some s := by
  rw [ByteArray.toList_eq_data, Array.toArray_toList]
  unfold String.fromUTF8?
  rw [dif_pos s.isValidUTF8]
  rfl

/-- A constant is read back from its tag and payload. -/
theorem run_constant (c : Constant) (fits : c.Fits) (rest : List UInt8) :
    constant.run (c.serialize ++ rest) = some (c, rest) := by
  cases c with
  | integer v => simp [constant, Constant.serialize, Constant.tag, int32_ofNat_toNat]
  | long v => simp [constant, Constant.serialize, Constant.tag, int64_ofNat_toNat]
  | float bits => simp [constant, Constant.serialize, Constant.tag]
  | double bits => simp [constant, Constant.serialize, Constant.tag]
  | utf8 text =>
    have size : text.utf8ByteSize % 65536 = text.toByteArray.toList.length := by
      rw [Nat.mod_eq_of_lt fits, length_toByteArray_toList]
    simp [constant, Constant.serialize, Constant.tag, size, fromUTF8?_toByteArray_toList]
  | string text => simpa [constant, Constant.serialize, Constant.tag, Constant.Fits] using fits
  | function owner descriptor name tableIndex =>
    simpa [constant, Constant.serialize, Constant.tag, Constant.Fits] using fits
  | field owner descriptor name =>
    simpa [constant, Constant.serialize, Constant.tag, Constant.Fits] using fits
  | classRef name => simpa [constant, Constant.serialize, Constant.tag, Constant.Fits] using fits

end Constants

/-! ## Attributes, members and entity files -/

section Entities

theorem run_attributeEntry (a : Attribute) (fits : a.Fits) (rest : List UInt8) :
    attributeEntry.run (a.serialize ++ rest) = some (a, rest) := by
  simp [attributeEntry, Attribute.serialize, Nat.mod_eq_of_lt fits.1, Nat.mod_eq_of_lt fits.2]

theorem lt_of_and_eq {flags mask : Nat} (within : flags &&& mask = flags)
    (small : mask < 65536) : flags < 65536 := by
  rw [← within]
  exact Nat.lt_of_le_of_lt Nat.and_le_right small

theorem run_member {mask : Nat} (small : mask < 65536) (m : Member) (fits : m.Fits mask)
    (rest : List UInt8) : member.run (m.serialize mask ++ rest) = some (m, rest) := by
  have attributes := run_counted m.attributes fits.attributeCount
    fun a mem => run_attributeEntry a (fits.attributes a mem)
  simp [member, Member.serialize, fits.flags, Nat.mod_eq_of_lt (lt_of_and_eq fits.flags small),
    Nat.mod_eq_of_lt fits.name, Nat.mod_eq_of_lt fits.descriptor, Nat.mod_eq_of_lt fits.tableIndex,
    attributes]

theorem tableSize_lt (indices : List Nat) : tableSize indices < 65536 :=
  Nat.lt_of_le_of_lt (tableSize_le fun _ _ => Nat.min_le_right _ _) (by decide)

/-- A member list is read back with the table size of its members as its table-size word. -/
theorem run_members {mask : Nat} (small : mask < 65536) (ms : List Member)
    (count : ms.length < 65536) (fits : ∀ m ∈ ms, m.Fits mask) (rest : List UInt8) :
    members.run (EntityFile.members mask ms ++ rest) =
      some ((tableSize (ms.map (·.tableIndex)), ms), rest) := by
  have read := run_many ms (fun m mem => run_member small m (fits m mem))
  simp [members, EntityFile.members, Nat.mod_eq_of_lt count, Nat.mod_eq_of_lt (tableSize_lt _),
    read]

theorem run_entityFile (e : EntityFile) (fits : e.Fits) (rest : List UInt8) :
    entityFile.run (e.serialize ++ rest) =
      some (⟨e, tableSize (e.fields.map (·.tableIndex)),
        tableSize (e.functions.map (·.tableIndex))⟩, rest) := by
  have constants := run_counted e.constants.toList (by simpa using fits.constantCount)
    fun c mem => run_constant c (fits.constants c (by simpa using mem))
  have supers := run_counted e.supers fits.superCount
    fun s mem => run_u16_of_lt (fits.supers s mem)
  have attributes := run_counted e.attributes fits.attributeCount
    fun a mem => run_attributeEntry a (fits.attributes a mem)
  have fields := run_members (by decide) e.fields fits.fieldCount fits.fields
  have functions := run_members (by decide) e.functions fits.functionCount fits.functions
  simp only [entityFile, EntityFile.serialize, List.append_assoc, List.cons_append, List.nil_append,
    bind_pure_comp, StateT.run_bind, StateT.run_map, Option.map_eq_map, Option.bind_eq_bind,
    Option.bind_some, Option.map_some, run_literal, run_literal_singleton, run_u16,
    Nat.mod_eq_of_lt fits.major, Nat.mod_eq_of_lt fits.minor, Nat.mod_eq_of_lt fits.streamFlags,
    constants, List.map_id_fun', id_eq, Array.toArray_toList, fits.flags,
    Nat.mod_eq_of_lt (lt_of_and_eq fits.flags (by decide)), Nat.mod_eq_of_lt fits.self, supers,
    attributes, fields, functions]

end Entities

/-! ## Code attributes -/

section Code

/-- Class 0 is written both for a row that catches any exception and for a row naming class 0. -/
theorem filter_ne_zero (catchClass : Option Nat) : catchClass.filter (· != 0) =
    if catchClass.getD 0 = 0 then none else some (catchClass.getD 0) := by
  cases catchClass with
  | none => rfl
  | some c => by_cases zero : c = 0 <;> simp [Option.filter_some, zero]

theorem run_handlerSite (s : HandlerSite) (fits : s.Fits) (rest : List UInt8) :
    handlerSite.run (s.serialize ++ rest) = some (s.canonical, rest) := by
  obtain ⟨start_lt, stop_lt, handler_lt, class_lt⟩ := fits
  simp [handlerSite, HandlerSite.serialize, HandlerSite.canonical, filter_ne_zero,
    Nat.mod_eq_of_lt start_lt, Nat.mod_eq_of_lt stop_lt, Nat.mod_eq_of_lt handler_lt,
    Nat.mod_eq_of_lt class_lt]

theorem run_instructionAttribute (a : InstructionAttribute) (fits : a.Fits)
    (rest : List UInt8) :
    instructionAttribute.run (a.serialize ++ rest) =
      some ({ a with handlers := a.handlers.map HandlerSite.canonical }, rest) := by
  have handlers := run_counted a.handlers fits.handlerCount
    fun s mem => run_handlerSite s (fits.handlers s mem)
  simp [instructionAttribute, InstructionAttribute.serialize, Nat.mod_eq_of_lt fits.maxStack,
    Nat.mod_eq_of_lt fits.localCount, Nat.mod_eq_of_lt fits.codeLength, handlers]

end Code

end Reader

/-! ## Table sizes -/

/-- The table size is the least word at least one past every index, capped at 65535. -/
theorem tableSize_le_iff (indices : List Nat) (n : Nat) :
    tableSize indices ≤ n ↔ ∀ i ∈ indices, min (i + 1) 65535 ≤ n :=
  ⟨fun le _ mem => Nat.le_trans (le_tableSize mem) le, tableSize_le⟩

/-- Writing an entity file and reading it back gives the file and, as its table-size words, the
table sizes of its fields and its functions; the code of a function reads back with each
exception row that names class 0 catching any exception. -/
theorem entity_files_read_back :
    (∀ e : EntityFile, e.Fits → Reader.entityFile.run e.serialize =
        some (⟨e, tableSize (e.fields.map (·.tableIndex)),
          tableSize (e.functions.map (·.tableIndex))⟩, [])) ∧
      (∀ (indices : List Nat) (n : Nat),
        tableSize indices ≤ n ↔ ∀ i ∈ indices, min (i + 1) 65535 ≤ n) ∧
      ∀ a : InstructionAttribute, a.Fits → Reader.instructionAttribute.run a.serialize =
        some ({ a with handlers := a.handlers.map HandlerSite.canonical }, []) := by
  refine ⟨fun e fits => ?_, tableSize_le_iff, fun a fits => ?_⟩
  · simpa using Reader.run_entityFile e fits []
  · simpa using Reader.run_instructionAttribute a fits []

/-- A field at table index 65535 is read back under a table-size word of 65535, which is not
above its index; and an exception row naming class 0 reads back as catching any exception. -/
theorem table_size_word_saturates :
    (let e : EntityFile :=
        { constants := #[], flags := 0, self := 0, supers := []
          fields := [⟨0, 0, 0, 65535, []⟩], functions := [] };
      e.Fits ∧ Reader.entityFile.run e.serialize = some (⟨e, 65535, 0⟩, [])) ∧
    (let a : InstructionAttribute := ⟨0, 0, [], [⟨0, 0, 0, some 0⟩]⟩;
      a.Fits ∧ Reader.instructionAttribute.run a.serialize =
        some (⟨0, 0, [], [⟨0, 0, 0, none⟩]⟩, [])) := by
  constructor
  · have field : Member.Fits AccessFlag.fieldMask ⟨0, 0, 0, 65535, []⟩ :=
      ⟨rfl, by decide, by decide, by decide, by decide, fun _ none => nomatch none⟩
    have fits : EntityFile.Fits
        { constants := #[], flags := 0, self := 0, supers := []
          fields := [⟨0, 0, 0, 65535, []⟩], functions := [] } := by
      constructor <;> simp [field, Version.initial]
    exact ⟨fits, by simpa [tableSize] using Reader.run_entityFile _ fits []⟩
  · have fits : InstructionAttribute.Fits ⟨0, 0, [], [⟨0, 0, 0, some 0⟩]⟩ := by
      constructor <;> simp [HandlerSite.Fits]
    have read := Reader.run_instructionAttribute _ fits []
    exact ⟨fits, by simpa [HandlerSite.canonical, Option.filter_some] using read⟩

end Febc
