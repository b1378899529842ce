import SkLookup.Elf.Merge

/-!
# One `.maps` section

What the script makes of a well-formed object, in the terms of the object that it writes: one
section is named `.maps`, it has the bytes of all those that were, and every symbol still points
to its byte.
-/

namespace SkLookup.Elf

open Codec

/-- What `data'` has in place of the `.maps` sections of `data`. -/
structure MapsMerged (data data' : Bytes) (first : Nat) : Prop where
  /-- One section is named `.maps`, and it was before. -/
  named : sectionsNamed data' ".maps" = [first]
  mem : first ∈ sectionsNamed data ".maps"
  /-- It has the bytes of all of them. -/
  spans : ∀ pos, (sectionAt data' first).extent.Has pos ↔
    ∃ i ∈ sectionsNamed data ".maps", (sectionAt data i).extent.Has pos
  bytes : ∀ pos, (sectionAt data' first).extent.Has pos → data'[pos]? = data[pos]?
  /-- The table of symbols is where it was. -/
  symtab : ∀ t ∈ sectionsNamed data ".symtab", sectionAt data' t = sectionAt data t
  /-- A symbol of one of them is a symbol of that section, at the same place in the file. -/
  moved : ∀ t ∈ sectionsNamed data ".symtab", ∀ k < symbolCount data t,
    (symbolAt data t k).shndx ∈ sectionsNamed data ".maps" →
      symbolAt data' t k = { symbolAt data t k with
        shndx := first
        value := (symbolAt data' t k).value } ∧
      fileOffset data' (symbolAt data' t k) = fileOffset data (symbolAt data t k)
  /-- Every other symbol is as it was. -/
  others : ∀ t ∈ sectionsNamed data ".symtab", ∀ k < symbolCount data t,
    (symbolAt data t k).shndx ∉ sectionsNamed data ".maps" →
      symbolAt data' t k = symbolAt data t k

/-! ### What the script reads of an object -/

/-- The script has the byte order, the header and the section names of an object. -/
structure Script.Reads (elf : Script) (data : Bytes) : Prop where
  order_eq : elf.order = byteOrder data
  header_eq : elf.header = fileHeader data
  names_eq : elf.names = sectionNames data

section Reading

variable {elf : Script} {data data' : Bytes}

/-- Both read the same section headers. -/
theorem Script.Reads.sectionIn (h : elf.Reads data) (i : Nat) :
    elf.sectionIn data i = sectionAt data i := by
  rw [Script.sectionIn, sectionAt, h.order_eq, h.header_eq]

/-- Both read the same symbols. -/
theorem Script.Reads.symbolIn (h : elf.Reads data) {t : Nat}
    (hsize : (sectionAt data t).entsize = 24) (k : Nat) :
    elf.symbolIn data ((sectionAt data t).offset + 24 * k) = symbolAt data t k := by
  rw [Script.symbolIn, symbolAt, h.order_eq, hsize, Nat.mul_comm]

/-- The identification that is accepted names the byte order. -/
private theorem order_of_readOrder {object : Text} {o : ByteOrder}
    (h : readOrder object data = .ok o) : o = byteOrder data := by
  unfold readOrder at h
  split at h
  · cases h
  split at h
  · cases h
  split at h
  next hlittle =>
    rw [byteOrder, if_pos hlittle]
    exact (Except.ok.inj h).symm
  next hlittle =>
  split at h
  · rw [byteOrder, if_neg hlittle]
    exact (Except.ok.inj h).symm
  · cases h

/-- What the script keeps is what the object says, and its headers are whole. -/
theorem of_readScript {object : Text} (h : readScript object data = .ok elf) :
    elf.Reads data ∧ 64 ≤ elf.header.shentsize ∧ elf.header.shstrndx < elf.header.shnum := by
  obtain ⟨o, ho, h⟩ := bind_eq_ok.mp h
  obtain ⟨hd, hh, h⟩ := bind_eq_ok.mp h
  obtain ⟨s, hs, h⟩ := bind_eq_ok.mp h
  obtain rfl := order_of_readOrder ho
  obtain ⟨values, hv, hh⟩ := bind_eq_ok.mp hh
  have hheader : FileHeader.ofFields values = fileHeader data := by
    rw [← (unpack_eq_ok.mp hv).2]
    rfl
  dsimp only at hh
  rw [hheader] at hh
  split at hh
  · cases hh
  next hvalid =>
  split at hh
  · cases hh
  obtain rfl := Except.ok.inj hh
  obtain rfl := Except.ok.inj h
  have hsec : Script.sectionIn ⟨byteOrder data, fileHeader data, []⟩ data
      (fileHeader data).shstrndx = s := of_sectionFields hs
  obtain ⟨hsize, hindex⟩ := not_or.mp hvalid
  refine ⟨⟨rfl, rfl, ?_⟩, Nat.not_lt.mp hsize, (Decidable.not_not.mp hindex).2⟩
  rw [sectionNames, ← hsec]
  rfl

/-- A change that leaves the headers and the names of the sections leaves what the script has. -/
theorem Script.Reads.changed {P : Nat → Prop} (h : elf.Reads data) (hc : ChangedIn P data data')
    (hhead : ∀ pos, headerExtent.Has pos → ¬ P pos)
    (hhdr : ∀ pos, (hdrExtent elf.header elf.header.shstrndx).Has pos → ¬ P pos)
    (hnames : ∀ pos, (sectionAt data elf.header.shstrndx).span.Has pos → ¬ P pos) :
    elf.Reads data' := by
  have horder : byteOrder data' = byteOrder data := by
    rw [byteOrder, byteOrder, hc.getElem?_eq 5 (hhead 5 ⟨Nat.zero_le _, by decide⟩)]
  have hheader : fileHeader data' = fileHeader data := by
    rw [fileHeader, fileHeader, horder]
    exact congrArg FileHeader.ofFields (hc.fieldsAt_eq (fun pos hlo hhi ↦ hhead pos ⟨hlo, hhi⟩))
  have hindex : elf.header.shstrndx = (fileHeader data).shstrndx := by rw [h.header_eq]
  have hsection : sectionAt data' elf.header.shstrndx = sectionAt data elf.header.shstrndx := by
    rw [← h.sectionIn, ← sectionIn_eq hc hhdr, Script.sectionIn, sectionAt, horder, hheader,
      h.order_eq, h.header_eq]
  refine ⟨h.order_eq.trans horder.symm, h.header_eq.trans hheader.symm, ?_⟩
  rw [h.names_eq, sectionNames, sectionNames, hheader, ← hindex, hsection]
  exact (hc.slice_eq (fun pos hlo hhi ↦ hnames pos ⟨hlo, hhi⟩)).symm

/-- The name that the script reads. -/
private theorem name_of_sectionName (hr : elf.Reads data) {i : Nat} {name : Bytes}
    (h : elf.sectionName data i = .ok name) : name = nameAt data i := by
  obtain ⟨s, hs, h⟩ := bind_eq_ok.mp h
  split at h
  · cases h
  rw [← Except.ok.inj h, nameAt, ← hr.sectionIn, of_sectionFields hs, hr.names_eq]

/-- A section with a name. -/
theorem mem_sectionsNamed {name : String} {i : Nat} :
    i ∈ sectionsNamed data name ↔ i < (fileHeader data).shnum ∧ nameAt data i = ascii name := by
  rw [sectionsNamed, List.mem_filter, List.mem_range, decide_eq_true_iff]

/-- The sections that the search finds. -/
theorem of_findSections (hr : elf.Reads data) {found : Script.Indices}
    (h : elf.findSections data = .ok found) :
    found.maps = sectionsNamed data ".maps" ∧
      (∀ i, found.btf = some i → i ∈ sectionsNamed data ".BTF") ∧
      ∀ i, found.symtab = some i → i ∈ sectionsNamed data ".symtab" := by
  have hall := foldlM_range_ok (I := fun n found ↦
    found.maps = (List.range n).filter (fun i ↦ nameAt data i = ascii ".maps") ∧
      (∀ i, found.btf = some i → i < n ∧ nameAt data i = ascii ".BTF") ∧
      ∀ i, found.symtab = some i → i < n ∧ nameAt data i = ascii ".symtab") (by simp) ?_ h
  · obtain ⟨hmaps, hbtf, hsymtab⟩ := hall
    rw [hr.header_eq] at hmaps hbtf hsymtab
    exact ⟨hmaps, fun i hi ↦ mem_sectionsNamed.mpr (hbtf i hi),
      fun i hi ↦ mem_sectionsNamed.mpr (hsymtab i hi)⟩
  · rintro n - c c' ⟨hmaps, hbtf, hsymtab⟩ hround
    obtain ⟨name, hname, hround⟩ := bind_eq_ok.mp hround
    have hname := name_of_sectionName hr hname
    have hb : ascii ".BTF" ≠ ascii ".maps" := by decide
    have hs : ascii ".symtab" ≠ ascii ".maps" := by decide
    rw [List.range_succ, List.filter_append, ← hmaps]
    grind

/-- The strings of `.BTF` lie in that section. -/
theorem of_btfStrings (hr : elf.Reads data) {btf : Option Nat} {start stop : Nat}
    (h : elf.btfStrings data btf = .ok (start, stop)) :
    ∃ i, btf = some i ∧ stop ≤ data.length ∧
      ∀ pos, start ≤ pos ∧ pos < stop → (sectionAt data i).span.Has pos := by
  cases btf with
  | none => cases h
  | some i =>
    refine ⟨i, rfl, ?_⟩
    obtain ⟨s, hs, h⟩ := bind_eq_ok.mp h
    rw [← hr.sectionIn, of_sectionFields hs]
    split at h
    · cases h
    next hin =>
    obtain ⟨values, -, h⟩ := bind_eq_ok.mp h
    dsimp only at h
    split at h
    · cases h
    split at h
    · cases h
    next hout =>
    obtain ⟨rfl, rfl⟩ := Prod.mk.inj (Except.ok.inj h)
    simp only [SectionHeader.span, Extent.Has]
    constructor
    · omega
    · omega

/-- The count is that of the sections named `.maps`. -/
theorem of_countMaps (hr : elf.Reads data) {n : Nat} (h : elf.countMaps data = .ok n) :
    n = (sectionsNamed data ".maps").length := by
  have hall := foldlM_range_ok (I := fun k c ↦
    c = ((List.range k).filter (fun i ↦ nameAt data i = ascii ".maps")).length) rfl ?_ h
  · rw [hr.header_eq] at hall
    exact hall
  · rintro k - c c' hc hround
    obtain ⟨s, hs, hround⟩ := bind_eq_ok.mp hround
    have hname : cString elf.names s.name = nameAt data k := by
      rw [nameAt, ← hr.sectionIn, of_sectionFields hs, hr.names_eq]
    rw [hname] at hround
    rw [← Except.ok.inj hround, List.range_succ, List.filter_append, List.length_append, ← hc]
    by_cases hmaps : nameAt data k = ascii ".maps"
    · simp [hmaps]
    · simp [hmaps]

end Reading

/-! ### The parts of a well-formed object -/

/-- A section that occupies its bytes. -/
theorem SectionHeader.extent_eq_span {s : SectionHeader} (h : s.type ≠ 0 ∧ s.type ≠ 8) :
    s.extent = s.span := by
  rw [extent, span, if_neg (not_or.mpr h)]

/-- The header of a section is in the table. -/
theorem hdrExtent_in_table {data : Bytes} (hentry : 64 ≤ (fileHeader data).shentsize) {i : Nat}
    (hi : i < (fileHeader data).shnum) {pos : Nat} (h : (hdrExtent (fileHeader data) i).Has pos) :
    (tableExtent data).Has pos := by
  have hmul : (i + 1) * (fileHeader data).shentsize ≤
      (fileHeader data).shnum * (fileHeader data).shentsize := Nat.mul_le_mul_right _ hi
  rw [Nat.add_mul, Nat.one_mul] at hmul
  have hcomm := Nat.mul_comm (fileHeader data).shentsize (fileHeader data).shnum
  simp only [hdrExtent, tableExtent, Extent.Has, shdr] at *
  omega

section Parts

variable {o : Object} {i j pos : Nat}

/-- No section lies in a section header. -/
theorem Object.hdr_apart (hentry : 64 ≤ (fileHeader o.data).shentsize)
    (hi : i < (fileHeader o.data).shnum) (hj : j < (fileHeader o.data).shnum)
    (h : (hdrExtent (fileHeader o.data) i).Has pos) : ¬ (sectionAt o.data j).extent.Has pos :=
  (o.table_section j hj).not_has (hdrExtent_in_table hentry hi h)

/-- The file header and the section headers are apart. -/
theorem Object.head_apart (hentry : 64 ≤ (fileHeader o.data).shentsize)
    (hi : i < (fileHeader o.data).shnum) (h : headerExtent.Has pos) :
    ¬ (hdrExtent (fileHeader o.data) i).Has pos :=
  fun hpos ↦ o.header_table.not_has h (hdrExtent_in_table hentry hi hpos)

/-- The string table with the section names occupies its bytes. -/
theorem Object.names_extent (o : Object) :
    (sectionAt o.data (fileHeader o.data).shstrndx).extent =
      (sectionAt o.data (fileHeader o.data).shstrndx).span := by
  apply SectionHeader.extent_eq_span
  rw [o.names_type]
  decide

/-- A symbol table occupies its bytes. -/
theorem Object.symtab_extent {t : Nat} (ht : t ∈ sectionsNamed o.data ".symtab") :
    (sectionAt o.data t).extent = (sectionAt o.data t).span := by
  apply SectionHeader.extent_eq_span
  rw [o.symtab_type t ht]
  decide

/-- `.BTF` occupies its bytes. -/
theorem Object.btf_extent {b : Nat} (hb : b ∈ sectionsNamed o.data ".BTF") :
    (sectionAt o.data b).extent = (sectionAt o.data b).span := by
  apply SectionHeader.extent_eq_span
  rw [o.btf_type b hb]
  decide

/-- Sections of different names are different. -/
theorem ne_of_names {data : Bytes} {name name' : String} (hi : i ∈ sectionsNamed data name)
    (hj : j ∈ sectionsNamed data name') (hne : ascii name ≠ ascii name') : i ≠ j := by
  rintro rfl
  exact hne ((mem_sectionsNamed.mp hi).2.symm.trans (mem_sectionsNamed.mp hj).2)

end Parts

/-- Two objects have the same headers and section names. -/
structure SameParts (data data' : Bytes) : Prop where
  order_eq : byteOrder data' = byteOrder data
  header_eq : fileHeader data' = fileHeader data
  section_eq : ∀ i < (fileHeader data).shnum, sectionAt data' i = sectionAt data i
  names_eq : sectionNames data' = sectionNames data

namespace SameParts

variable {data data' : Bytes}

/-- The sections with a name are the same. -/
theorem sectionsNamed_eq (h : SameParts data data') (name : String) :
    sectionsNamed data' name = sectionsNamed data name := by
  rw [sectionsNamed, sectionsNamed, h.header_eq]
  apply List.filter_congr
  intro i hi
  rw [nameAt, nameAt, h.names_eq, h.section_eq i (List.mem_range.mp hi)]

/-- The script has the same of both. -/
theorem reads {elf : Script} (h : SameParts data data') (hr : elf.Reads data) : elf.Reads data' :=
  ⟨hr.order_eq.trans h.order_eq.symm, hr.header_eq.trans h.header_eq.symm,
    hr.names_eq.trans h.names_eq.symm⟩

end SameParts

/-- An object with the same headers and section names is as well formed. -/
def Object.withData (o : Object) (data' : Bytes) (h : SameParts o.data data') : Object where
  data := data'
  header_table := by
    rw [tableExtent, h.header_eq]
    exact o.header_table
  header_section i hi := by
    rw [h.header_eq] at hi
    rw [h.section_eq i hi]
    exact o.header_section i hi
  table_section i hi := by
    rw [h.header_eq] at hi
    rw [tableExtent, h.header_eq, h.section_eq i hi]
    exact o.table_section i hi
  section_section i hi j hj hij := by
    rw [h.header_eq] at hi hj
    rw [h.section_eq i hi, h.section_eq j hj]
    exact o.section_section i hi j hj hij
  names_lt := by
    rw [h.header_eq]
    exact o.names_lt
  names_type := by
    rw [h.header_eq, h.section_eq _ o.names_lt]
    exact o.names_type
  btf_type i hi := by
    rw [h.sectionsNamed_eq] at hi
    rw [h.section_eq i (mem_sectionsNamed.mp hi).1]
    exact o.btf_type i hi
  symtab_type i hi := by
    rw [h.sectionsNamed_eq] at hi
    rw [h.section_eq i (mem_sectionsNamed.mp hi).1]
    exact o.symtab_type i hi
  symtab_unique i hi j hj := by
    rw [h.header_eq] at hi hj
    rw [h.section_eq i hi, h.section_eq j hj]
    exact o.symtab_unique i hi j hj

section Stages

variable {elf : Script} {o : Object} {data' : Bytes}

/-- A symbol lies in its table. -/
theorem Object.symbol_in_table {t k pos : Nat} (ht : t ∈ sectionsNamed o.data ".symtab")
    (hk : k < (sectionAt o.data t).size / 24)
    (h : (Extent.mk ((sectionAt o.data t).offset + 24 * k) 24).Has pos) :
    (sectionAt o.data t).extent.Has pos := by
  rw [Object.symtab_extent ht]
  simp only [SectionHeader.span, Extent.Has] at *
  omega

/-- Changing bytes of `.BTF` changes no header, no name and no symbol. -/
theorem of_btf_changed (hr : elf.Reads o.data) (hentry : 64 ≤ elf.header.shentsize) {b : Nat}
    (hb : b ∈ sectionsNamed o.data ".BTF")
    (hc : ChangedIn (sectionAt o.data b).extent.Has o.data data') :
    SameParts o.data data' ∧ ∀ t ∈ sectionsNamed o.data ".symtab",
      ∀ k < (sectionAt o.data t).size / 24,
        elf.symbolIn data' ((sectionAt o.data t).offset + 24 * k) =
          elf.symbolIn o.data ((sectionAt o.data t).offset + 24 * k) := by
  rw [hr.header_eq] at hentry
  have hblt := (mem_sectionsNamed.mp hb).1
  have hhead (pos : Nat) (h : headerExtent.Has pos) : ¬ (sectionAt o.data b).extent.Has pos :=
    (o.header_section b hblt).not_has h
  have hhdr (i : Nat) (hi : i < (fileHeader o.data).shnum) (pos : Nat)
      (h : (hdrExtent elf.header i).Has pos) : ¬ (sectionAt o.data b).extent.Has pos :=
    Object.hdr_apart hentry hi hblt (hr.header_eq ▸ h)
  have hnames (pos : Nat) (h : (sectionAt o.data elf.header.shstrndx).span.Has pos) :
      ¬ (sectionAt o.data b).extent.Has pos := by
    rw [hr.header_eq, ← o.names_extent] at h
    have hne : (fileHeader o.data).shstrndx ≠ b := by
      rintro rfl
      have htype := o.btf_type _ hb
      rw [o.names_type] at htype
      cases htype
    exact (o.section_section _ o.names_lt b hblt hne).not_has h
  have hindex : elf.header.shstrndx < (fileHeader o.data).shnum := hr.header_eq ▸ o.names_lt
  have hr' : elf.Reads data' := hr.changed hc hhead (hhdr _ hindex) hnames
  refine ⟨⟨hr'.order_eq.symm.trans hr.order_eq, hr'.header_eq.symm.trans hr.header_eq, ?_,
    hr'.names_eq.symm.trans hr.names_eq⟩, ?_⟩
  · intro i hi
    rw [← hr.sectionIn, ← hr'.sectionIn]
    exact sectionIn_eq hc (hhdr i hi)
  · intro t ht k hk
    have hne : t ≠ b := ne_of_names ht hb (by decide)
    apply symbolIn_eq hc
    intro pos hpos
    exact (o.section_section t (mem_sectionsNamed.mp ht).1 b hblt hne).not_has
      (Object.symbol_in_table ht hk hpos)

/-- The script has the parts of the object laid out as the merge needs them. -/
theorem laid_of_object (hr : elf.Reads o.data) (hentry : 64 ≤ elf.header.shentsize) {t : Nat}
    (ht : t ∈ sectionsNamed o.data ".symtab") :
    elf.Laid o.data t (sectionsNamed o.data ".maps") where
  entry := hentry
  symtab_outside i hi pos hpos := by
    rw [hr.header_eq] at hentry hi hpos
    rw [hr.sectionIn, ← Object.symtab_extent ht]
    exact Object.hdr_apart hentry hi (mem_sectionsNamed.mp ht).1 hpos
  symtab_lt := by
    rw [hr.header_eq]
    exact (mem_sectionsNamed.mp ht).1
  symtab_notMem hmem := ne_of_names ht hmem (by decide) rfl
  maps_lt x hx := by
    rw [hr.header_eq]
    exact (mem_sectionsNamed.mp hx).1
  maps_nodup := List.nodup_range.filter _

/-- With one `.maps` section there is nothing to merge. -/
private theorem mapsMerged_refl {first : Nat} (h : sectionsNamed o.data ".maps" = [first]) :
    MapsMerged o.data o.data first where
  named := h
  mem := by simp [h]
  spans pos := by simp [h]
  bytes _ _ := rfl
  symtab _ _ := rfl
  moved t _ k _ hin := by
    rw [h, List.mem_singleton] at hin
    refine ⟨?_, rfl⟩
    rw [← hin]
  others _ _ _ _ _ := rfl

end Stages

section Merged

variable {elf : Script} {o : Object} {t first : Nat} {extras : List Nat} {m : Script.Merging}
  {data' : Bytes}

/-- The bytes that the merge may change. -/
def Touched (elf : Script) (data : Bytes) (t : Nat) (pos : Nat) : Prop :=
  (sectionAt data t).extent.Has pos ∨
    ∃ x ∈ sectionsNamed data ".maps", (hdrExtent elf.header x).Has pos

/-- The merge changes the table of symbols and the headers of the `.maps` sections. -/
private theorem Script.Merged.changedIn (h : elf.Merged o.data t first extras m data')
    (hr : elf.Reads o.data) (ht : t ∈ sectionsNamed o.data ".symtab")
    (hmaps : sectionsNamed o.data ".maps" = first :: extras) :
    ChangedIn (Touched elf o.data t) o.data data' := by
  have hsym : (elf.sectionIn o.data t).span = (sectionAt o.data t).extent := by
    rw [hr.sectionIn, Object.symtab_extent ht]
  apply (h.rounds.changed.mono _).trans (h.changed.mono _)
  · rintro pos (hpos | ⟨x, hx, hpos⟩)
    · exact .inl (hsym ▸ hpos)
    · exact .inr ⟨x, by simp [hmaps, hx], hpos⟩
  · exact fun pos hpos ↦ .inr ⟨first, by simp [hmaps], hpos⟩

/-- The sections that are merged have contents in the file. -/
private theorem Script.Merged.maps_type (h : elf.Merged o.data t first extras m data')
    (hr : elf.Reads o.data) (hmaps : sectionsNamed o.data ".maps" = first :: extras) {x : Nat}
    (hx : x ∈ sectionsNamed o.data ".maps") : (sectionAt o.data x).type = 1 := by
  rw [← hr.sectionIn]
  rcases List.mem_cons.mp (hmaps ▸ hx) with rfl | hx
  · exact h.type
  · exact h.rounds.type x hx

/-- The header of a section that is not merged is outside what the merge touches. -/
private theorem hdr_not_touched (hr : elf.Reads o.data) (hentry : 64 ≤ elf.header.shentsize)
    (ht : t ∈ sectionsNamed o.data ".symtab") {i pos : Nat} (hi : i < (fileHeader o.data).shnum)
    (hmaps : i ∉ sectionsNamed o.data ".maps") (hpos : (hdrExtent elf.header i).Has pos) :
    ¬ Touched elf o.data t pos := by
  rintro (hsym | ⟨x, hx, hhdr⟩)
  · rw [hr.header_eq] at hentry hpos
    exact Object.hdr_apart hentry hi (mem_sectionsNamed.mp ht).1 hpos hsym
  · have hne : i ≠ x := fun he ↦ hmaps (he ▸ hx)
    exact hdrExtent_apart hentry hne hpos hhdr

/-- The bytes of another section are outside what the merge touches. -/
private theorem section_not_touched (hr : elf.Reads o.data) (hentry : 64 ≤ elf.header.shentsize)
    (ht : t ∈ sectionsNamed o.data ".symtab") {i pos : Nat} (hi : i < (fileHeader o.data).shnum)
    (hne : i ≠ t) (hpos : (sectionAt o.data i).extent.Has pos) : ¬ Touched elf o.data t pos := by
  rintro (hsym | ⟨x, hx, hhdr⟩)
  · exact (o.section_section i hi t (mem_sectionsNamed.mp ht).1 hne).not_has hpos hsym
  · rw [hr.header_eq] at hentry hhdr
    exact Object.hdr_apart hentry (mem_sectionsNamed.mp hx).1 hi hhdr hpos

/-- The script still reads the object after the merge. -/
private theorem Script.Merged.reads (h : elf.Merged o.data t first extras m data')
    (hr : elf.Reads o.data) (hentry : 64 ≤ elf.header.shentsize)
    (ht : t ∈ sectionsNamed o.data ".symtab")
    (hmaps : sectionsNamed o.data ".maps" = first :: extras) : elf.Reads data' := by
  have hindex : elf.header.shstrndx = (fileHeader o.data).shstrndx := by rw [hr.header_eq]
  have hnotMaps : (fileHeader o.data).shstrndx ∉ sectionsNamed o.data ".maps" := by
    intro hx
    have htype := h.maps_type hr hmaps hx
    rw [o.names_type] at htype
    cases htype
  have hne : (fileHeader o.data).shstrndx ≠ t := by
    rintro rfl
    have htype := o.symtab_type _ ht
    rw [o.names_type] at htype
    cases htype
  apply hr.changed (h.changedIn hr ht hmaps)
  · rintro pos hpos (hsym | ⟨x, hx, hhdr⟩)
    · exact (o.header_section t (mem_sectionsNamed.mp ht).1).not_has hpos hsym
    · rw [hr.header_eq] at hentry hhdr
      exact Object.head_apart hentry (mem_sectionsNamed.mp hx).1 hpos hhdr
  · rw [hindex]
    exact fun pos hpos ↦ hdr_not_touched hr hentry ht o.names_lt hnotMaps hpos
  · rw [hindex, ← o.names_extent]
    exact fun pos hpos ↦ section_not_touched hr hentry ht o.names_lt hne hpos

/-- The header of a section that is not merged stays. -/
private theorem Script.Merged.sectionAt_eq (h : elf.Merged o.data t first extras m data')
    (hr : elf.Reads o.data) (hentry : 64 ≤ elf.header.shentsize)
    (ht : t ∈ sectionsNamed o.data ".symtab")
    (hmaps : sectionsNamed o.data ".maps" = first :: extras) {i : Nat}
    (hi : i < (fileHeader o.data).shnum) (hnot : i ∉ sectionsNamed o.data ".maps") :
    sectionAt data' i = sectionAt o.data i := by
  rw [← (h.reads hr hentry ht hmaps).sectionIn, ← hr.sectionIn]
  exact sectionIn_eq (h.changedIn hr ht hmaps)
    (fun pos hpos ↦ hdr_not_touched hr hentry ht hi hnot hpos)

/-- The symbols after the merge. -/
private theorem Script.Merged.symbolAt_eq (h : elf.Merged o.data t first extras m data')
    (hr : elf.Reads o.data) (hentry : 64 ≤ elf.header.shentsize)
    (ht : t ∈ sectionsNamed o.data ".symtab")
    (hmaps : sectionsNamed o.data ".maps" = first :: extras)
    (hsize : (sectionAt o.data t).entsize = 24) {k : Nat} (hk : k < symbolCount o.data t) :
    symbolAt data' t k = elf.relocated o.data first extras (symbolAt o.data t k) := by
  have htlt := (mem_sectionsNamed.mp ht).1
  have hfirst : first ∈ sectionsNamed o.data ".maps" := by simp [hmaps]
  have hnot : t ∉ sectionsNamed o.data ".maps" :=
    fun hx ↦ ne_of_names ht hx (by decide) rfl
  have htable : sectionAt data' t = sectionAt o.data t :=
    h.sectionAt_eq hr hentry ht hmaps htlt hnot
  have hk24 : k < (sectionAt o.data t).size / 24 := by
    rw [symbolCount, hsize] at hk
    exact hk
  have hrounds := h.rounds.symbols k (by rwa [hr.sectionIn])
  rw [hr.sectionIn] at hrounds
  have hkept : elf.symbolIn data' ((sectionAt o.data t).offset + 24 * k) =
      elf.symbolIn m.data ((sectionAt o.data t).offset + 24 * k) := by
    apply symbolIn_eq h.changed
    intro pos hpos hhdr
    rw [hr.header_eq] at hentry hhdr
    exact Object.hdr_apart hentry (mem_sectionsNamed.mp hfirst).1 htlt hhdr
      (Object.symbol_in_table ht hk24 hpos)
  calc symbolAt data' t k
      = elf.symbolIn data' ((sectionAt o.data t).offset + 24 * k) := by
        have hsize' : (sectionAt data' t).entsize = 24 := by rw [htable, hsize]
        rw [← (h.reads hr hentry ht hmaps).symbolIn hsize' k, htable]
    _ = elf.relocated o.data first extras
          (elf.symbolIn o.data ((sectionAt o.data t).offset + 24 * k)) := hkept.trans hrounds
    _ = elf.relocated o.data first extras (symbolAt o.data t k) := by rw [hr.symbolIn hsize]

/-- A symbol of one of the merged sections points to its byte from the first. -/
private theorem relocated_in_maps (hr : elf.Reads o.data)
    (hmaps : sectionsNamed o.data ".maps" = first :: extras) {size : Nat}
    (hresized : sectionAt data' first = { sectionAt o.data first with size := size })
    (hbehind : ∀ x ∈ extras, (elf.sectionIn o.data first).offset ≤ (elf.sectionIn o.data x).offset)
    {s : Symbol} (hin : s.shndx ∈ sectionsNamed o.data ".maps") :
    elf.relocated o.data first extras s = { s with
      shndx := first
      value := (elf.relocated o.data first extras s).value } ∧
    fileOffset data' (elf.relocated o.data first extras s) = fileOffset o.data s := by
  unfold Script.relocated
  by_cases hextra : s.shndx ∈ extras
  · have hle := hbehind _ hextra
    rw [hr.sectionIn, hr.sectionIn] at hle ⊢
    rw [if_pos hextra]
    refine ⟨rfl, ?_⟩
    simp only [fileOffset, hresized]
    omega
  · have hfirst : s.shndx = first := by
      rw [hmaps, List.mem_cons] at hin
      exact hin.resolve_right hextra
    rw [if_neg hextra]
    refine ⟨by rw [← hfirst], ?_⟩
    simp only [fileOffset, hfirst, hresized]

/-- What the merge makes of the `.maps` sections, once one is counted. -/
private theorem Script.Merged.mapsMerged (h : elf.Merged o.data t first extras m data')
    (hr : elf.Reads o.data) (hentry : 64 ≤ elf.header.shentsize)
    (ht : t ∈ sectionsNamed o.data ".symtab")
    (hmaps : sectionsNamed o.data ".maps" = first :: extras)
    (hsize : (sectionAt o.data t).entsize = 24) (hcount : elf.countMaps data' = .ok 1) :
    MapsMerged o.data data' first := by
  have hr' : elf.Reads data' := h.reads hr hentry ht hmaps
  have htlt := (mem_sectionsNamed.mp ht).1
  have hfirst : first ∈ sectionsNamed o.data ".maps" := by simp [hmaps]
  have hresized : sectionAt data' first = { sectionAt o.data first with size := m.firstSize } := by
    rw [← hr'.sectionIn, ← hr.sectionIn, h.resized]
  have hspan {x : Nat} (hx : x ∈ sectionsNamed o.data ".maps") :
      (sectionAt o.data x).extent = (elf.sectionIn o.data x).span := by
    rw [hr.sectionIn]
    apply SectionHeader.extent_eq_span
    rw [h.maps_type hr hmaps hx]
    decide
  have hspans (pos : Nat) : (sectionAt data' first).extent.Has pos ↔
      ∃ i ∈ sectionsNamed o.data ".maps", (sectionAt o.data i).extent.Has pos := by
    have htype : (sectionAt data' first).type = 1 := by
      rw [hresized]
      exact h.maps_type hr hmaps hfirst
    have hnew : (sectionAt data' first).extent =
        ⟨(elf.sectionIn o.data first).offset, m.firstSize⟩ := by
      rw [SectionHeader.extent_eq_span (by rw [htype]; decide), hresized, hr.sectionIn]
      rfl
    rw [hnew, h.rounds.spans pos, ← hmaps]
    exact exists_congr (fun x ↦ and_congr_right (fun hx ↦ by rw [hspan hx]))
  have htable {t' : Nat} (ht' : t' ∈ sectionsNamed o.data ".symtab") : t' = t :=
    o.symtab_unique t' (mem_sectionsNamed.mp ht').1 t htlt (o.symtab_type t' ht')
      (o.symtab_type t ht)
  have hnodup : first ∉ extras := by
    have hall : (first :: extras).Nodup := hmaps ▸ List.nodup_range.filter _
    exact (List.nodup_cons.mp hall).1
  refine ⟨?_, hfirst, hspans, ?_, ?_, ?_, ?_⟩
  · have hone : (sectionsNamed data' ".maps").length = 1 := (of_countMaps hr' hcount).symm
    obtain ⟨x, hx⟩ := List.length_eq_one_iff.mp hone
    have hmem : first ∈ sectionsNamed data' ".maps" := by
      rw [mem_sectionsNamed, ← hr'.header_eq, nameAt, hresized, ← hr'.names_eq]
      rw [mem_sectionsNamed, ← hr.header_eq, nameAt, ← hr.names_eq] at hfirst
      exact hfirst
    rw [hx, List.mem_singleton] at hmem
    rw [hx, hmem]
  · intro pos hpos
    obtain ⟨x, hx, hpos⟩ := (hspans pos).mp hpos
    have hne : x ≠ t := (ne_of_names ht hx (by decide)).symm
    exact (h.changedIn hr ht hmaps).getElem?_eq pos
      (section_not_touched hr hentry ht (mem_sectionsNamed.mp hx).1 hne hpos)
  · intro t' ht'
    rw [htable ht']
    exact h.sectionAt_eq hr hentry ht hmaps htlt (fun hx ↦ ne_of_names ht hx (by decide) rfl)
  · intro t' ht' k hk hin
    rw [htable ht'] at hk hin ⊢
    rw [h.symbolAt_eq hr hentry ht hmaps hsize hk]
    exact relocated_in_maps hr hmaps hresized h.rounds.behind hin
  · intro t' ht' k hk hnot
    rw [htable ht'] at hk hnot ⊢
    rw [h.symbolAt_eq hr hentry ht hmaps hsize hk]
    apply if_neg
    exact fun hin ↦ hnot (by simp [hmaps, hin])

/-- A merge that leaves one `.maps` section has merged all of them. -/
private theorem mapsMerged_of_mergeMaps (hr : elf.Reads o.data)
    (hentry : 64 ≤ elf.header.shentsize) {found : Script.Indices}
    (hmaps : found.maps = sectionsNamed o.data ".maps")
    (hsymtab : ∀ t, found.symtab = some t → t ∈ sectionsNamed o.data ".symtab")
    (hsize : ∀ t ∈ sectionsNamed o.data ".symtab", (sectionAt o.data t).entsize = 24)
    {merged : Nat} (h : elf.mergeMaps o.data found = .ok (data', merged))
    (hcount : elf.countMaps data' = .ok 1) : ∃ first, MapsMerged o.data data' first := by
  cases hlist : found.maps with
  | nil =>
    rw [Script.mergeMaps, hlist] at h
    obtain ⟨rfl, -⟩ := Prod.mk.inj (Except.ok.inj h)
    have hone := of_countMaps hr hcount
    rw [← hmaps, hlist] at hone
    cases hone
  | cons first extras =>
    refine ⟨first, ?_⟩
    cases extras with
    | nil =>
      rw [Script.mergeMaps, hlist] at h
      obtain ⟨rfl, -⟩ := Prod.mk.inj (Except.ok.inj h)
      exact mapsMerged_refl (hmaps.symm.trans hlist)
    | cons extra rest =>
      cases htab : found.symtab with
      | none =>
        rw [Script.mergeMaps, hlist, htab] at h
        cases h
      | some t =>
        have ht := hsymtab t htab
        have hlaid := laid_of_object hr hentry ht
        rw [← hmaps, hlist] at hlaid
        obtain ⟨m, hm⟩ := of_mergeMaps hlist htab hlaid h
        exact hm.mapsMerged hr hentry ht (hmaps.symm.trans hlist) (hsize t ht) hcount

end Merged

/-- The `.maps` sections of two objects with the same headers, names and symbols are merged
alike. -/
private theorem MapsMerged.of_same {data data₁ data' : Bytes} {first : Nat}
    (h : MapsMerged data₁ data' first) (hsame : SameParts data data₁)
    (hsymbols : ∀ t ∈ sectionsNamed data ".symtab", ∀ k < symbolCount data t,
      symbolAt data₁ t k = symbolAt data t k)
    (hbytes : ∀ i ∈ sectionsNamed data ".maps", ∀ pos, (sectionAt data i).extent.Has pos →
      data₁[pos]? = data[pos]?) : MapsMerged data data' first := by
  obtain ⟨hnamed, hmem, hspans, hkept, hsymtab, hmoved, hothers⟩ := h
  simp only [hsame.sectionsNamed_eq] at hmem hspans hsymtab hmoved hothers
  have hheader {name : String} {i : Nat} (hi : i ∈ sectionsNamed data name) :
      sectionAt data₁ i = sectionAt data i := hsame.section_eq i (mem_sectionsNamed.mp hi).1
  have hcount {t : Nat} (ht : t ∈ sectionsNamed data ".symtab") :
      symbolCount data₁ t = symbolCount data t := by
    rw [symbolCount, symbolCount, hheader ht]
  have hspans' (pos : Nat) : (sectionAt data' first).extent.Has pos ↔
      ∃ i ∈ sectionsNamed data ".maps", (sectionAt data i).extent.Has pos :=
    (hspans pos).trans
      (exists_congr (fun x ↦ and_congr_right (fun hx ↦ by rw [hheader hx])))
  refine ⟨hnamed, hmem, hspans', ?_, ?_, ?_, ?_⟩
  · intro pos hpos
    obtain ⟨x, hx, hin⟩ := (hspans' pos).mp hpos
    exact (hkept pos hpos).trans (hbytes x hx pos hin)
  · exact fun t ht ↦ (hsymtab t ht).trans (hheader ht)
  · intro t ht k hk hin
    have hsym := hsymbols t ht k hk
    obtain ⟨hfields, hoffset⟩ := hmoved t ht k (hcount ht ▸ hk) (hsym ▸ hin)
    rw [hsym] at hfields hoffset
    refine ⟨hfields, hoffset.trans ?_⟩
    rw [fileOffset, fileOffset, hheader hin]
  · intro t ht k hk hnot
    have hsym := hsymbols t ht k hk
    exact (hothers t ht k (hcount ht ▸ hk) (hsym ▸ hnot)).trans hsym

/-- When the script succeeds on an object whose symbols have 24 bytes, one section is named
`.maps`, it has the bytes of all sections of that name, and their symbols point to the same bytes
from there; every other symbol is as it was. -/
theorem patch_merges_maps {object : Text} {p : Patched} (o : Object)
    (hsize : ∀ t ∈ sectionsNamed o.data ".symtab", (sectionAt o.data t).entsize = 24)
    (h : patch object o.data = .ok p) : ∃ first, MapsMerged o.data p.data first := by
  obtain ⟨elf, helf, h⟩ := bind_eq_ok.mp h
  obtain ⟨found, hfound, h⟩ := bind_eq_ok.mp h
  obtain ⟨⟨start, stop⟩, hstrings, h⟩ := bind_eq_ok.mp h
  obtain ⟨-, h⟩ := check_eq_ok.mp h
  obtain ⟨⟨data', merged⟩, hmerge, h⟩ := bind_eq_ok.mp h
  obtain ⟨mapsLeft, hleft, h⟩ := bind_eq_ok.mp h
  split at h
  · cases h
  next hone =>
  obtain rfl := Except.ok.inj h
  obtain rfl : mapsLeft = 1 := Decidable.not_not.mp hone
  obtain ⟨hr, hentry, -⟩ := of_readScript helf
  obtain ⟨hmaps, hbtf, hsymtab⟩ := of_findSections hr hfound
  obtain ⟨b, hb, hstop, hinside⟩ := of_btfStrings hr hstrings
  have hbmem := hbtf b hb
  have hchanged : ChangedIn (sectionAt o.data b).extent.Has o.data
      (patchTypes start stop stop start o.data 0).1 := by
    apply (changedIn_patchTypes stop 0 le_rfl hstop).mono
    intro pos hpos
    rw [Object.btf_extent hbmem]
    exact hinside pos hpos
  obtain ⟨hsame, hsymbols⟩ := of_btf_changed hr hentry hbmem hchanged
  generalize (patchTypes start stop stop start o.data 0).1 = data₁ at hmerge hchanged hsame hsymbols
  have hr₁ : elf.Reads data₁ := hsame.reads hr
  have hmaps₁ : sectionsNamed data₁ ".maps" = found.maps := by rw [hsame.sectionsNamed_eq, hmaps]
  have hsymbols₁ : ∀ t ∈ sectionsNamed o.data ".symtab", ∀ k < symbolCount o.data t,
      symbolAt data₁ t k = symbolAt o.data t k := by
    intro t ht k hk
    have hheader := hsame.section_eq t (mem_sectionsNamed.mp ht).1
    have hk24 : k < (sectionAt o.data t).size / 24 := by
      rw [symbolCount, hsize t ht] at hk
      exact hk
    rw [← hr.symbolIn (hsize t ht) k, ← hsymbols t ht k hk24, ← hheader]
    exact (hr₁.symbolIn (hheader ▸ hsize t ht) k).symm
  have hbytes : ∀ i ∈ sectionsNamed o.data ".maps", ∀ pos, (sectionAt o.data i).extent.Has pos →
      data₁[pos]? = o.data[pos]? := by
    intro i hi pos hpos
    have hne : i ≠ b := ne_of_names hi hbmem (by decide)
    exact hchanged.getElem?_eq pos ((o.section_section i (mem_sectionsNamed.mp hi).1 b
      (mem_sectionsNamed.mp hbmem).1 hne).not_has hpos)
  have hsize₁ : ∀ t ∈ sectionsNamed data₁ ".symtab", (sectionAt data₁ t).entsize = 24 := by
    intro t ht
    rw [hsame.sectionsNamed_eq] at ht
    rw [hsame.section_eq t (mem_sectionsNamed.mp ht).1]
    exact hsize t ht
  have hsymtab₁ : ∀ t, found.symtab = some t → t ∈ sectionsNamed data₁ ".symtab" := by
    rwa [hsame.sectionsNamed_eq]
  obtain ⟨first, hm⟩ := mapsMerged_of_mergeMaps (o := o.withData data₁ hsame) hr₁ hentry
    hmaps₁.symm hsymtab₁ hsize₁ hmerge hleft
  exact ⟨first, hm.of_same hsame hsymbols₁ hbytes⟩

/-- A header of the sample object. -/
private def sampleSection (order : ByteOrder) (name type offset size link entsize : Nat) : Bytes :=
  fieldBytes order sectionWidths
    (SectionHeader.mk name type 0 0 offset size link 0 1 entsize).toFields

/-- A symbol of the sample object. -/
private def sampleSymbol (order : ByteOrder) (shndx value : Nat) : Bytes :=
  fieldBytes order symbolWidths (Symbol.mk 0 17 0 shndx value 8).toFields

/-- An object with three `.maps` sections of eight bytes, and a symbol in each of them. -/
def threeMaps (order : ByteOrder) : Bytes :=
  let mark : UInt8 := match order with | .little => 1 | .big => 2
  0x7f :: ascii "ELF" ++ [2, mark, 1, 0, 0, 0, 0, 0, 0, 0, 0, 0] ++
    fieldBytes order headerWidths.tail [1, 247, 1, 0, 0, 248, 0, 64, 0, 0, 64, 7, 6] ++
    fieldBytes order Script.btfWidths [0xEB9F, 1, 0, 24, 0, 0, 0, 7] ++
    0 :: ascii "type_" ++ [0, 0] ++
    List.replicate 8 1 ++ List.replicate 8 2 ++ List.replicate 8 3 ++
    sampleSymbol order 0 0 ++ sampleSymbol order 2 4 ++ sampleSymbol order 3 4 ++
    sampleSymbol order 4 4 ++
    0 :: ascii ".BTF" ++ 0 :: ascii ".maps" ++ 0 :: ascii ".symtab" ++ 0 :: ascii ".shstrtab" ++
    [0, 0, 0] ++
    sampleSection order 0 0 0 0 0 0 ++ sampleSection order 1 1 64 31 0 0 ++
    sampleSection order 6 1 96 8 0 0 ++ sampleSection order 6 1 104 8 0 0 ++
    sampleSection order 6 1 112 8 0 0 ++ sampleSection order 12 2 120 96 6 24 ++
    sampleSection order 20 3 216 30 0 0

/-- It is well formed. -/
def threeMapsObject : Object where
  data := threeMaps .little
  header_table := by decide +kernel
  header_section := by decide +kernel
  table_section := by decide +kernel
  section_section := by decide +kernel
  names_lt := by decide +kernel
  names_type := by decide +kernel
  btf_type := by decide +kernel
  symtab_type := by decide +kernel
  symtab_unique := by decide +kernel

/-- The script merges its three sections. -/
theorem patch_merges_threeMaps :
    ∃ p, patch "sk_lookup.o".toList (threeMaps .little) = .ok p ∧
      ∃ first, MapsMerged (threeMaps .little) p.data first := by
  cases h : patch "sk_lookup.o".toList (threeMaps .little) with
  | error err =>
    have hruns : (patch "sk_lookup.o".toList (threeMaps .little)).isOk = true := by decide +kernel
    rw [h] at hruns
    cases hruns
  | ok p => exact ⟨p, rfl, patch_merges_maps threeMapsObject (by decide +kernel) h⟩

end SkLookup.Elf
