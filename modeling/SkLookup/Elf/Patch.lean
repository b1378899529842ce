import SkLookup.Elf.Object

/-!
# Patching the BPF object

`src/scripts/patch-rust-btf-map-type.py`. An exit through `fail` and an exception of `struct` are
both failures; nothing is written then.
-/

namespace SkLookup.Elf

open Codec

/-- `fail`, `src/scripts/patch-rust-btf-map-type.py:9`. -/
def fail {α : Type} (message : String) : Result α := bail s!"error: {message}"

/-- `struct.unpack_from`. -/
def unpack (order : ByteOrder) (widths : List Nat) (data : Bytes) (off : Nat) :
    Result (List Nat) :=
  match unpackFrom order widths data off with
  | some values => .ok values
  | none => bail "struct.error"

/-- `struct.pack_into`. -/
def pack (order : ByteOrder) (widths : List Nat) (data : Bytes) (off : Nat) (values : List Nat) :
    Result Bytes :=
  match packInto order widths data off values with
  | some data => .ok data
  | none => bail "struct.error"

/-- The checks of the identification; `src/scripts/patch-rust-btf-map-type.py:19-28`. -/
def readOrder (object : Text) (data : Bytes) : Result ByteOrder :=
  if data.take 4 ≠ 0x7f :: ascii "ELF" ∨ data.length < 64 then
    fail s!"{shown object} is not an ELF object"
  else if data[4]? ≠ some 2 then fail "only ELF64 objects are supported"
  else if data[5]? = some 1 then .ok .little
  else if data[5]? = some 2 then .ok .big
  else fail "ELF object has an invalid byte order"

/-- The checks of the file header; `src/scripts/patch-rust-btf-map-type.py:30-38`. -/
def readHeader (order : ByteOrder) (data : Bytes) : Result FileHeader := do
  let elfHeader ← unpack order headerWidths data 0
  let h := FileHeader.ofFields elfHeader
  if h.shentsize < 64 ∨ ¬ (0 < h.shstrndx ∧ h.shstrndx < h.shnum) then
    fail "ELF section table is invalid or unsupported"
  else if h.shoff + h.shentsize * h.shnum > data.length then
    fail "ELF section table extends past the end of the file"
  else .ok h

/-- What the script keeps of the object: its byte order, its file header, and a copy of its section
names. -/
structure Script where
  order : ByteOrder
  header : FileHeader
  names : Bytes

/-- `section_fields`, `src/scripts/patch-rust-btf-map-type.py:43`. -/
def sectionFields (order : ByteOrder) (h : FileHeader) (data : Bytes) (index : Nat) :
    Result SectionHeader := do
  let values ← unpack order sectionWidths data (shdr h index)
  .ok (.ofFields values)

/-- What the script keeps; `src/scripts/patch-rust-btf-map-type.py:23-49`. -/
def readScript (object : Text) (data : Bytes) : Result Script := do
  let order ← readOrder object data
  let h ← readHeader order data
  let s ← sectionFields order h data h.shstrndx
  .ok ⟨order, h, (data.drop s.offset).take s.size⟩

namespace Script

variable (elf : Script)

/-- `section_name`, `src/scripts/patch-rust-btf-map-type.py:51`. -/
def sectionName (data : Bytes) (index : Nat) : Result Bytes := do
  let s ← sectionFields elf.order elf.header data index
  if s.name ≥ elf.names.length then fail "ELF section name offset is invalid"
  else .ok (cString elf.names s.name)

/-- `btf_index`, `maps_indices` and `symtab_index`. -/
structure Indices where
  btf : Option Nat
  maps : List Nat
  symtab : Option Nat

/-- One round of the search; `src/scripts/patch-rust-btf-map-type.py:61-67`. -/
def noteSection (data : Bytes) (found : Indices) (index : Nat) : Result Indices := do
  let name ← elf.sectionName data index
  if name = ascii ".BTF" then .ok { found with btf := some index }
  else if name = ascii ".maps" then .ok { found with maps := found.maps ++ [index] }
  else if name = ascii ".symtab" then .ok { found with symtab := some index }
  else .ok found

/-- The search for the sections; `src/scripts/patch-rust-btf-map-type.py:57-67`. -/
def findSections (data : Bytes) : Result Indices :=
  (List.range elf.header.shnum).foldlM (elf.noteSection data) ⟨none, [], none⟩

/-- `HBBIIIII`. -/
def btfWidths : List Nat := [2, 1, 1, 4, 4, 4, 4, 4]

/-- Where the strings of `.BTF` start and end; `src/scripts/patch-rust-btf-map-type.py:69-83`. -/
def btfStrings (data : Bytes) (btf : Option Nat) : Result (Nat × Nat) :=
  match btf with
  | none => fail ".BTF section is missing or invalid"
  | some index => do
    let s ← sectionFields elf.order elf.header data index
    if s.offset + s.size > data.length ∨ s.size < 24 then fail ".BTF section is missing or invalid"
    else do
      let values ← unpack elf.order btfWidths data s.offset
      let magic := values.getD 0 0
      let version := values.getD 1 0
      let headerLen := values.getD 3 0
      let start := s.offset + headerLen + values.getD 6 0
      let stop := start + values.getD 7 0
      if magic ≠ 0xEB9F ∨ version ≠ 1 ∨ headerLen < 24 then
        fail ".BTF header is invalid or unsupported"
      else if start < s.offset ∨ stop > s.offset + s.size then
        fail ".BTF string table extends past the section"
      else .ok (start, stop)

end Script

/-- `bytearray.find` with a start and an end. -/
def find (data pattern : Bytes) (start stop : Nat) : Option Nat :=
  (List.range' start (stop - start)).find? (fun i ↦
    i + pattern.length ≤ stop && (data.drop i).take pattern.length == pattern)

/-- The replacement of `type_`, and the number of replacements. A round moves the cursor on, so that
a fuel of one for each byte is never used up. `src/scripts/patch-rust-btf-map-type.py:85-94`. -/
def patchTypes (start stop : Nat) : Nat → Nat → Bytes → Nat → Bytes × Nat
  | 0, _, data, replacements => (data, replacements)
  | fuel + 1, cursor, data, replacements =>
    match find data (ascii "type_" ++ [0]) cursor stop with
    | none => (data, replacements)
    | some cursor =>
      if cursor = start ∨ data[cursor - 1]? = some 0 then
        patchTypes start stop fuel (cursor + 6) (overwrite data cursor (ascii "type" ++ [0, 0]))
          (replacements + 1)
      else patchTypes start stop fuel (cursor + 6) data replacements

/-- The check of the strings; `src/scripts/patch-rust-btf-map-type.py:96-98`. -/
def verifyStrings (data : Bytes) (start stop : Nat) : Result Unit :=
  let patchedEntries := ((data.drop start).take (stop - start)).splitOn 0
  if ascii "type_" ∈ patchedEntries ∨ ascii "type" ∉ patchedEntries then
    fail "BTF map field-name verification failed after patching"
  else .ok ()

/-- `#x`. -/
def hex (n : Nat) : String := "0x" ++ String.ofList (Nat.toDigits 16 n)

namespace Script

variable (elf : Script)

/-- One symbol of an extra section is moved to the first; `sym` is its number.
`src/scripts/patch-rust-btf-map-type.py:147-162`. -/
def moveSymbol (symOff first extra firstSize : Nat) (data : Bytes) (sym : Nat) : Result Bytes := do
  let st := symOff + 24 * sym
  let values ← unpack elf.order symbolWidths data st
  let s := Symbol.ofFields values
  if s.shndx = extra then
    pack elf.order symbolWidths data st
      { s with shndx := first, value := s.value + firstSize }.toFields
  else .ok data

/-- `data`, `first_size` and `merged`. -/
structure Merging where
  data : Bytes
  firstSize : Nat
  merged : Nat

/-- One round of the merge; `src/scripts/patch-rust-btf-map-type.py:121-183`. -/
def mergeExtra (symtab first firstOff : Nat) (m : Merging) (extra : Nat) : Result Merging := do
  let x ← sectionFields elf.order elf.header m.data extra
  if x.type ≠ 1 then fail "extra .maps section is not PROGBITS"
  else if x.offset ≠ firstOff + m.firstSize then
    fail ("duplicate .maps sections are not adjacent; " ++
      s!"{hex firstOff}+{hex m.firstSize} vs {hex x.offset}")
  else do
    let t ← sectionFields elf.order elf.header m.data symtab
    if t.entsize < 24 ∨ t.size % 24 ≠ 0 then fail ".symtab entry size is invalid"
    else do
      let data ← (List.range (t.size / 24)).foldlM
        (elf.moveSymbol t.offset first extra m.firstSize) m.data
      let data ← pack elf.order sectionWidths data (shdr elf.header extra)
        { x with name := 0 }.toFields
      .ok ⟨data, m.firstSize + x.size, m.merged + 1⟩

/-- The merge; `src/scripts/patch-rust-btf-map-type.py:100-199`. -/
def mergeMaps (data : Bytes) (found : Indices) : Result (Bytes × Nat) :=
  match found.maps with
  | first :: extra :: rest =>
    match found.symtab with
    | none => fail ".symtab is required to merge duplicate .maps sections"
    | some symtab => do
      let f ← sectionFields elf.order elf.header data first
      if f.type ≠ 1 then fail "first .maps section is not PROGBITS"
      else do
        let m ← (extra :: rest).foldlM (elf.mergeExtra symtab first f.offset) ⟨data, f.size, 0⟩
        let data ← pack elf.order sectionWidths m.data (shdr elf.header first)
          { f with size := m.firstSize }.toFields
        .ok (data, m.merged)
  | _ => .ok (data, 0)

/-- One round of the count; `src/scripts/patch-rust-btf-map-type.py:204-207`. -/
def countSection (data : Bytes) (mapsLeft index : Nat) : Result Nat := do
  let s ← sectionFields elf.order elf.header data index
  .ok (if cString elf.names s.name = ascii ".maps" then mapsLeft + 1 else mapsLeft)

/-- The number of `.maps` sections that are left; `src/scripts/patch-rust-btf-map-type.py:202`. -/
def countMaps (data : Bytes) : Result Nat :=
  (List.range elf.header.shnum).foldlM (elf.countSection data) 0

end Script

/-- What the script writes, and what it reports. -/
structure Patched where
  data : Bytes
  replacements : Nat
  merged : Nat

/-- `main`, `src/scripts/patch-rust-btf-map-type.py:13`. -/
def patch (object : Text) (data : Bytes) : Result Patched := do
  let elf ← readScript object data
  let found ← elf.findSections data
  let strings ← elf.btfStrings data found.btf
  let patched := patchTypes strings.1 strings.2 strings.2 strings.1 data 0
  verifyStrings patched.1 strings.1 strings.2
  let merging ← elf.mergeMaps patched.1 found
  let mapsLeft ← elf.countMaps merging.1
  if mapsLeft ≠ 1 then
    fail s!"expected exactly one .maps section after merge, found {mapsLeft}"
  else .ok ⟨merging.1, patched.2, merging.2⟩

/-- The line that the script prints; `src/scripts/patch-rust-btf-map-type.py:212-219`. -/
def Patched.line (p : Patched) (object : Text) : String :=
  let bits :=
    if p.replacements ≠ 0 then [s!"patched {p.replacements} BTF `type_` string(s)"]
    else ["verified C-compatible BTF `type` field"]
  let merged := if p.merged ≠ 0 then [s!"merged {p.merged + 1} .maps sections into one"] else []
  "; ".intercalate (bits ++ merged) ++ s!" in {shown object}"

end SkLookup.Elf
