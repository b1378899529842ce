import SkLookup.Codec.Struct
import SkLookup.Kernel.PortMap

/-!
# ELF64 objects

The parts of an object that `src/scripts/patch-rust-btf-map-type.py` reads and writes: the file
header, the table of section headers, the section names and the symbols. An object is well formed
when no two of its parts share a byte and the sections with a reserved name have its type.
-/

namespace SkLookup.Elf

open Codec

/-- `e_shoff`, `e_shentsize`, `e_shnum` and `e_shstrndx` of the file header. -/
structure FileHeader where
  shoff : Nat
  shentsize : Nat
  shnum : Nat
  shstrndx : Nat
  deriving DecidableEq, Repr

/-- `16sHHIQQQIHHHHHH`; the identification counts as one field. -/
def headerWidths : List Nat := [16, 2, 2, 4, 8, 8, 8, 4, 2, 2, 2, 2, 2, 2]

/-- The four fields among all of the header. -/
def FileHeader.ofFields (vs : List Nat) : FileHeader :=
  ⟨vs.getD 6 0, vs.getD 11 0, vs.getD 12 0, vs.getD 13 0⟩

/-- A section header. -/
structure SectionHeader where
  name : Nat
  type : Nat
  flags : Nat
  addr : Nat
  offset : Nat
  size : Nat
  link : Nat
  info : Nat
  align : Nat
  entsize : Nat
  deriving DecidableEq, Repr

/-- `IIQQQQIIQQ`. -/
def sectionWidths : List Nat := [4, 4, 8, 8, 8, 8, 4, 4, 8, 8]

/-- The fields of a section header, in order. -/
def SectionHeader.toFields (s : SectionHeader) : List Nat :=
  [s.name, s.type, s.flags, s.addr, s.offset, s.size, s.link, s.info, s.align, s.entsize]

/-- A section header from its fields. -/
def SectionHeader.ofFields (vs : List Nat) : SectionHeader :=
  ⟨vs.getD 0 0, vs.getD 1 0, vs.getD 2 0, vs.getD 3 0, vs.getD 4 0, vs.getD 5 0, vs.getD 6 0,
    vs.getD 7 0, vs.getD 8 0, vs.getD 9 0⟩

/-- A symbol. -/
structure Symbol where
  name : Nat
  info : Nat
  other : Nat
  shndx : Nat
  value : Nat
  size : Nat
  deriving DecidableEq, Repr

/-- `IBBHQQ`. -/
def symbolWidths : List Nat := [4, 1, 1, 2, 8, 8]

/-- The fields of a symbol, in order. -/
def Symbol.toFields (s : Symbol) : List Nat :=
  [s.name, s.info, s.other, s.shndx, s.value, s.size]

/-- A symbol from its fields. -/
def Symbol.ofFields (vs : List Nat) : Symbol :=
  ⟨vs.getD 0 0, vs.getD 1 0, vs.getD 2 0, vs.getD 3 0, vs.getD 4 0, vs.getD 5 0⟩

/-- The bytes of a text up to its terminator; `split(b"\0", 1)[0]`. -/
def cString (names : Bytes) (off : Nat) : Bytes := (names.drop off).takeWhile (· ≠ 0)

/-- The bytes of an ASCII text. -/
def ascii (text : String) : Bytes := text.toList.map (fun c ↦ UInt8.ofNat c.toNat)

/-- Where the header of a section is. -/
def shdr (h : FileHeader) (index : Nat) : Nat := h.shoff + index * h.shentsize

/-! ### What an object says -/

section Readers

variable (data : Bytes)

/-- The byte order that the identification names. -/
def byteOrder : ByteOrder := if data[5]? = some 1 then .little else .big

/-- The file header. -/
def fileHeader : FileHeader := .ofFields (fieldsAt (byteOrder data) headerWidths data 0)

/-- The header of a section. -/
def sectionAt (i : Nat) : SectionHeader :=
  .ofFields (fieldsAt (byteOrder data) sectionWidths data (shdr (fileHeader data) i))

/-- The string table with the section names. -/
def sectionNames : Bytes :=
  (data.drop (sectionAt data (fileHeader data).shstrndx).offset).take
    (sectionAt data (fileHeader data).shstrndx).size

/-- The name of a section. -/
def nameAt (i : Nat) : Bytes := cString (sectionNames data) (sectionAt data i).name

/-- The sections with a name, in the order of their headers. -/
def sectionsNamed (name : String) : List Nat :=
  (List.range (fileHeader data).shnum).filter (fun i ↦ nameAt data i = ascii name)

/-- A symbol of a symbol table. -/
def symbolAt (symtab k : Nat) : Symbol :=
  .ofFields (fieldsAt (byteOrder data) symbolWidths data
    ((sectionAt data symtab).offset + k * (sectionAt data symtab).entsize))

/-- The number of symbols in a symbol table. -/
def symbolCount (symtab : Nat) : Nat :=
  (sectionAt data symtab).size / (sectionAt data symtab).entsize

/-- Where in the file a symbol points. -/
def fileOffset (s : Symbol) : Nat := (sectionAt data s.shndx).offset + s.value

end Readers

/-! ### Well-formed objects -/

/-- Some bytes of a file: where they start, and how many they are. -/
structure Extent where
  start : Nat
  count : Nat
  deriving DecidableEq, Repr

/-- A byte among them. -/
def Extent.Has (x : Extent) (pos : Nat) : Prop := x.start ≤ pos ∧ pos < x.start + x.count

/-- No byte is shared. -/
def Extent.Apart (x y : Extent) : Prop :=
  x.count = 0 ∨ y.count = 0 ∨ x.start + x.count ≤ y.start ∨ y.start + y.count ≤ x.start

instance (x y : Extent) : Decidable (x.Apart y) := inferInstanceAs (Decidable (_ ∨ _))

/-- The bytes of a section in the file; `SHT_NULL` and `SHT_NOBITS` sections have none. -/
def SectionHeader.extent (s : SectionHeader) : Extent :=
  ⟨s.offset, if s.type = 0 ∨ s.type = 8 then 0 else s.size⟩

/-- The bytes of the file header. -/
def headerExtent : Extent := ⟨0, 64⟩

/-- The bytes of the table of section headers. -/
def tableExtent (data : Bytes) : Extent :=
  ⟨(fileHeader data).shoff, (fileHeader data).shentsize * (fileHeader data).shnum⟩

/-- A well-formed object: its headers and sections share no byte, there is one symbol table, and
the sections with a reserved name have the type that goes with it. -/
structure Object where
  data : Bytes
  header_table : headerExtent.Apart (tableExtent data)
  header_section : ∀ i < (fileHeader data).shnum, headerExtent.Apart (sectionAt data i).extent
  table_section : ∀ i < (fileHeader data).shnum,
    (tableExtent data).Apart (sectionAt data i).extent
  section_section : ∀ i < (fileHeader data).shnum, ∀ j < (fileHeader data).shnum, i ≠ j →
    (sectionAt data i).extent.Apart (sectionAt data j).extent
  names_lt : (fileHeader data).shstrndx < (fileHeader data).shnum
  names_type : (sectionAt data (fileHeader data).shstrndx).type = 3
  btf_type : ∀ i ∈ sectionsNamed data ".BTF", (sectionAt data i).type = 1
  symtab_type : ∀ i ∈ sectionsNamed data ".symtab", (sectionAt data i).type = 2
  symtab_unique : ∀ i < (fileHeader data).shnum, ∀ j < (fileHeader data).shnum,
    (sectionAt data i).type = 2 → (sectionAt data j).type = 2 → i = j

/-- Bytes apart have no byte in common. -/
theorem Extent.Apart.not_has {x y : Extent} (h : x.Apart y) {pos : Nat} (hx : x.Has pos) :
    ¬ y.Has pos := by
  simp only [Extent.Apart, Extent.Has] at *
  omega

/-- Being apart has no direction. -/
theorem Extent.Apart.symm {x y : Extent} (h : x.Apart y) : y.Apart x := by
  simp only [Extent.Apart] at *
  omega

/-- The fields of a section header are read back. -/
@[simp] theorem SectionHeader.ofFields_toFields (s : SectionHeader) : ofFields s.toFields = s := rfl

/-- The fields of a symbol are read back. -/
@[simp] theorem Symbol.ofFields_toFields (s : Symbol) : ofFields s.toFields = s := rfl

end SkLookup.Elf
