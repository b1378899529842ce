import SkLookup.Elf.Patch

/-!
# What the merge of the `.maps` sections does

The script changes bytes of `.BTF`, of the symbol table and of the headers of the `.maps` sections
only. Each round of the merge moves the symbols of one more section behind those of the first.
-/

namespace SkLookup.Elf

open Codec

/-! ### Loops that may fail -/

/-- A loop that ends well has kept its invariant, which may speak of the rounds done. -/
private theorem foldlM_ok {α β : Type} {f : β → α → Result β} {I : List α → β → Prop}
    {l : List α} {b b' : β} (hstart : I [] b)
    (hround : ∀ done x rest c c', l = done ++ x :: rest → I done c → f c x = .ok c' →
      I (done ++ [x]) c')
    (h : l.foldlM f b = .ok b') : I l b' := by
  have hall : ∀ (rest done : List α) (c : β), l = done ++ rest → I done c →
      rest.foldlM f c = .ok b' → I l b' := by
    intro rest
    induction rest with
    | nil =>
      intro done c hl hc hrun
      obtain rfl := Except.ok.inj hrun
      rw [hl, List.append_nil]
      exact hc
    | cons x rest ih =>
      intro done c hl hc hrun
      rw [List.foldlM_cons] at hrun
      obtain ⟨c', hx, hrun⟩ := bind_eq_ok.mp hrun
      exact ih (done ++ [x]) c' (by simp [hl]) (hround done x rest c c' hl hc hx) hrun
  exact hall l [] b rfl hstart h

/-- A loop over the numbers below a bound. -/
theorem foldlM_range_ok {β : Type} {f : β → Nat → Result β} {I : Nat → β → Prop} {n : Nat}
    {b b' : β} (hstart : I 0 b)
    (hround : ∀ k < n, ∀ c c', I k c → f c k = .ok c' → I (k + 1) c')
    (h : (List.range n).foldlM f b = .ok b') : I n b' := by
  have hlen := foldlM_ok (I := fun done c ↦ I done.length c) hstart ?_ h
  · rwa [List.length_range] at hlen
  · intro done x rest c c' hl hc hx
    have hx' : (List.range n)[done.length]? = some x := by rw [hl]; simp
    obtain ⟨hlt, hget⟩ := List.getElem?_eq_some_iff.mp hx'
    rw [List.getElem_range] at hget
    rw [List.length_range] at hlt
    rw [List.length_append, List.length_singleton]
    exact hround _ hlt c c' hc (hget ▸ hx)

/-! ### The strings of `.BTF` -/

/-- A pattern that is found lies inside the bounds. -/
private theorem of_find {data pattern : Bytes} {start stop i : Nat}
    (h : find data pattern start stop = some i) : start ≤ i ∧ i + pattern.length ≤ stop := by
  have hmem := List.mem_of_find?_eq_some h
  have hp := List.find?_some h
  rw [List.mem_range'_1] at hmem
  simp only [Bool.and_eq_true, decide_eq_true_eq] at hp
  exact ⟨hmem.1, hp.1⟩

/-- Replacing the strings changes bytes among them only. -/
theorem changedIn_patchTypes {start stop : Nat} (fuel : Nat) {cursor : Nat} {data : Bytes} (n : Nat)
    (hcursor : start ≤ cursor) (hstop : stop ≤ data.length) :
    ChangedIn (fun i ↦ start ≤ i ∧ i < stop) data
      (patchTypes start stop fuel cursor data n).1 := by
  induction fuel generalizing cursor data n with
  | zero => exact .refl _ _
  | succ fuel ih =>
    rw [patchTypes]
    cases hfind : find data (ascii "type_" ++ [0]) cursor stop with
    | none => exact .refl _ _
    | some i =>
      obtain ⟨hi, hend⟩ := of_find hfind
      have hend : i + 6 ≤ stop := hend
      dsimp only
      by_cases hwhole : i = start ∨ data[i - 1]? = some 0
      · rw [if_pos hwhole]
        have hone : ChangedIn (fun j ↦ start ≤ j ∧ j < stop) data
            (overwrite data i (ascii "type" ++ [0, 0])) := by
          have hin : i + (ascii "type" ++ [0, 0]).length ≤ data.length := hend.trans hstop
          apply (changedIn_overwrite hin).mono
          rintro j ⟨hj, hj'⟩
          have hj' : j < i + 6 := hj'
          omega
        exact hone.trans (ih (n + 1) (by omega) (hone.length_eq ▸ hstop))
      · rw [if_neg hwhole]
        exact ih n (by omega) hstop

/-! ### Reading and writing headers and symbols -/

/-- The header of a section as the script reads it. -/
def Script.sectionIn (elf : Script) (data : Bytes) (i : Nat) : SectionHeader :=
  .ofFields (fieldsAt elf.order sectionWidths data (shdr elf.header i))

/-- A symbol as the script reads it. -/
def Script.symbolIn (elf : Script) (data : Bytes) (off : Nat) : Symbol :=
  .ofFields (fieldsAt elf.order symbolWidths data off)

/-- The bytes of the header of a section. -/
def hdrExtent (h : FileHeader) (i : Nat) : Extent := ⟨shdr h i, 64⟩

/-- What is unpacked is in the buffer. -/
theorem unpack_eq_ok {order : ByteOrder} {widths : List Nat} {data : Bytes} {off : Nat}
    {values : List Nat} :
    unpack order widths data off = .ok values ↔
      off + widths.sum ≤ data.length ∧ fieldsAt order widths data off = values := by
  rw [← unpackFrom_eq_some, unpack]
  cases unpackFrom order widths data off with
  | none => simp
  | some vs => simp

/-- What is packed changes its own place, and is read back. -/
theorem of_pack {order : ByteOrder} {widths : List Nat} {data data' : Bytes} {off : Nat}
    {values : List Nat} (h : pack order widths data off values = .ok data') :
    ChangedIn (Extent.Has ⟨off, widths.sum⟩) data data' ∧
      fieldsAt order widths data' off = values := by
  unfold pack at h
  cases hp : packInto order widths data off values with
  | none => simp [hp] at h
  | some d =>
    rw [hp] at h
    obtain rfl := Except.ok.inj h
    exact (packInto_eq_some hp).2

section Rounds

variable {elf : Script} {data data' : Bytes}

/-- A section header is read from its place. -/
theorem of_sectionFields {i : Nat} {s : SectionHeader}
    (h : sectionFields elf.order elf.header data i = .ok s) : elf.sectionIn data i = s := by
  obtain ⟨values, hv, h⟩ := bind_eq_ok.mp h
  rw [← Except.ok.inj h, ← (unpack_eq_ok.mp hv).2]
  rfl

/-- A header that no change touches is the same. -/
theorem sectionIn_eq {P : Nat → Prop} (h : ChangedIn P data data') {i : Nat}
    (hout : ∀ pos, (hdrExtent elf.header i).Has pos → ¬ P pos) :
    elf.sectionIn data' i = elf.sectionIn data i :=
  congrArg SectionHeader.ofFields (h.fieldsAt_eq (fun pos hlo hhi ↦ hout pos ⟨hlo, hhi⟩))

/-- A symbol that no change touches is the same. -/
theorem symbolIn_eq {P : Nat → Prop} (h : ChangedIn P data data') {off : Nat}
    (hout : ∀ pos, (Extent.mk off 24).Has pos → ¬ P pos) :
    elf.symbolIn data' off = elf.symbolIn data off :=
  congrArg Symbol.ofFields (h.fieldsAt_eq (fun pos hlo hhi ↦ hout pos ⟨hlo, hhi⟩))

/-- A symbol of one section becomes a symbol of another, at a distance. -/
def moved (first extra distance : Nat) (s : Symbol) : Symbol :=
  if s.shndx = extra then { s with shndx := first, value := s.value + distance } else s

/-- One symbol is moved, if it is of the extra section. -/
private theorem of_moveSymbol {symOff first extra firstSize sym : Nat}
    (h : elf.moveSymbol symOff first extra firstSize data sym = .ok data') :
    ChangedIn (Extent.mk (symOff + 24 * sym) 24).Has data data' ∧
      elf.symbolIn data' (symOff + 24 * sym) =
        moved first extra firstSize (elf.symbolIn data (symOff + 24 * sym)) := by
  obtain ⟨values, hv, h⟩ := bind_eq_ok.mp h
  have hread : Symbol.ofFields values = elf.symbolIn data (symOff + 24 * sym) := by
    rw [← (unpack_eq_ok.mp hv).2]
    rfl
  rw [hread] at h
  unfold moved
  by_cases hs : (elf.symbolIn data (symOff + 24 * sym)).shndx = extra
  · rw [if_pos hs] at h ⊢
    obtain ⟨hchanged, hfields⟩ := of_pack h
    exact ⟨hchanged, congrArg Symbol.ofFields hfields⟩
  · rw [if_neg hs] at h ⊢
    obtain rfl := Except.ok.inj h
    exact ⟨.refl _ _, rfl⟩

/-- All symbols of the extra section are moved, and nothing but the table changes. -/
theorem of_moveSymbols {symOff first extra firstSize n : Nat}
    (h : (List.range n).foldlM (elf.moveSymbol symOff first extra firstSize) data = .ok data') :
    ChangedIn (Extent.mk symOff (24 * n)).Has data data' ∧
      ∀ k < n, elf.symbolIn data' (symOff + 24 * k) =
        moved first extra firstSize (elf.symbolIn data (symOff + 24 * k)) := by
  -- after `m` rounds the symbols below `m` are moved, and those from `m` on are as they were
  refine foldlM_range_ok (I := fun m d ↦ ChangedIn (Extent.mk symOff (24 * m)).Has data d ∧
    ∀ k < m, elf.symbolIn d (symOff + 24 * k) =
      moved first extra firstSize (elf.symbolIn data (symOff + 24 * k))) ?_ ?_ h
  · exact ⟨.refl _ _, nofun⟩
  · rintro m hm c c' ⟨hchanged, hmoved⟩ hround
    obtain ⟨hone, hsym⟩ := of_moveSymbol hround
    constructor
    · have hbefore : ChangedIn (Extent.mk symOff (24 * (m + 1))).Has data c := by
        apply hchanged.mono
        simp only [Extent.Has]
        omega
      apply hbefore.trans (hone.mono _)
      simp only [Extent.Has]
      omega
    · intro k hk
      by_cases hkm : k = m
      · rw [hkm, hsym]
        congr 1
        apply symbolIn_eq hchanged
        simp only [Extent.Has]
        omega
      · rw [← hmoved k (by omega)]
        apply symbolIn_eq hone
        simp only [Extent.Has]
        omega

end Rounds

/-! ### The rounds of the merge -/

/-- The symbols of the extra sections become symbols of the first, each at the distance of its
section. -/
def Script.relocated (elf : Script) (data : Bytes) (first : Nat) (extras : List Nat) (s : Symbol) :
    Symbol :=
  if s.shndx ∈ extras then
    { s with
      shndx := first
      value := s.value +
        ((elf.sectionIn data s.shndx).offset - (elf.sectionIn data first).offset) }
  else s

/-- The bytes that the header of a section names. -/
def SectionHeader.span (s : SectionHeader) : Extent := ⟨s.offset, s.size⟩

/-- The headers are whole and lie beside each other, the table of symbols lies outside them, and
the sections at hand are among them. -/
structure Script.Laid (elf : Script) (data : Bytes) (symtab : Nat) (maps : List Nat) : Prop where
  entry : 64 ≤ elf.header.shentsize
  symtab_outside : ∀ i < elf.header.shnum, ∀ pos, (hdrExtent elf.header i).Has pos →
    ¬ (elf.sectionIn data symtab).span.Has pos
  symtab_lt : symtab < elf.header.shnum
  symtab_notMem : symtab ∉ maps
  maps_lt : ∀ x ∈ maps, x < elf.header.shnum
  maps_nodup : maps.Nodup

/-- What holds after the rounds for some extra sections. -/
structure Script.MergedTo (elf : Script) (data : Bytes) (symtab first : Nat) (done : List Nat)
    (m : Merging) : Prop where
  changed : ChangedIn (fun pos ↦ (elf.sectionIn data symtab).span.Has pos ∨
    ∃ x ∈ done, (hdrExtent elf.header x).Has pos) data m.data
  hidden : ∀ x ∈ done, elf.sectionIn m.data x = { elf.sectionIn data x with name := 0 }
  type : ∀ x ∈ done, (elf.sectionIn data x).type = 1
  spans : ∀ pos, Extent.Has ⟨(elf.sectionIn data first).offset, m.firstSize⟩ pos ↔
    ∃ x ∈ first :: done, (elf.sectionIn data x).span.Has pos
  behind : ∀ x ∈ done, (elf.sectionIn data first).offset ≤ (elf.sectionIn data x).offset
  symbols : ∀ k < (elf.sectionIn data symtab).size / 24,
    elf.symbolIn m.data ((elf.sectionIn data symtab).offset + 24 * k) =
      elf.relocated data first done
        (elf.symbolIn data ((elf.sectionIn data symtab).offset + 24 * k))

/-- What holds after the merge: its rounds, and the new size of the first section. -/
structure Script.Merged (elf : Script) (data : Bytes) (symtab first : Nat) (extras : List Nat)
    (m : Merging) (data' : Bytes) : Prop where
  type : (elf.sectionIn data first).type = 1
  rounds : elf.MergedTo data symtab first extras m
  changed : ChangedIn (hdrExtent elf.header first).Has m.data data'
  resized : elf.sectionIn data' first = { elf.sectionIn data first with size := m.firstSize }

section Merge

variable {elf : Script} {data : Bytes} {symtab first : Nat} {maps extras : List Nat}

/-- Two headers share no byte. -/
theorem hdrExtent_apart {h : FileHeader} (hentry : 64 ≤ h.shentsize) {i j : Nat} (hij : i ≠ j)
    {pos : Nat} (hi : (hdrExtent h i).Has pos) : ¬ (hdrExtent h j).Has pos := by
  simp only [hdrExtent, Extent.Has, shdr] at *
  rcases Nat.lt_or_gt_of_ne hij with hlt | hlt
  · have hmul : (i + 1) * h.shentsize ≤ j * h.shentsize := Nat.mul_le_mul_right _ hlt
    rw [Nat.add_mul, Nat.one_mul] at hmul
    omega
  · have hmul : (j + 1) * h.shentsize ≤ i * h.shentsize := Nat.mul_le_mul_right _ hlt
    rw [Nat.add_mul, Nat.one_mul] at hmul
    omega

/-- Moving the symbols of one more section, on top of those already moved. -/
private theorem moved_relocated {done : List Nat} {x distance : Nat} (hx : x ∉ done)
    (hfirst : first ≠ x)
    (hdist : (elf.sectionIn data x).offset = (elf.sectionIn data first).offset + distance)
    (s : Symbol) :
    moved first x distance (elf.relocated data first done s) =
      elf.relocated data first (done ++ [x]) s := by
  unfold moved Script.relocated
  by_cases hs : s.shndx ∈ done
  · simp [hs, hfirst]
  · by_cases hsx : s.shndx = x
    · have hdiff : (elf.sectionIn data x).offset - (elf.sectionIn data first).offset =
          distance := by omega
      simp [hx, hsx, hdiff]
    · simp [hs, hsx]

/-- No round has been done. -/
private theorem mergedTo_nil (m : Nat) :
    elf.MergedTo data symtab first [] ⟨data, (elf.sectionIn data first).size, m⟩ where
  changed := .refl _ _
  hidden := nofun
  type := nofun
  spans pos := by simp [SectionHeader.span]
  behind := nofun
  symbols k _ := by simp [Script.relocated]

/-- The header of a section that no round has reached is as it was. -/
private theorem Script.MergedTo.sectionIn_eq {done : List Nat} {m : Script.Merging}
    (h : elf.MergedTo data symtab first done m) (hlaid : elf.Laid data symtab maps) {i : Nat}
    (hi : i < elf.header.shnum) (hdone : i ∉ done) :
    elf.sectionIn m.data i = elf.sectionIn data i := by
  apply Elf.sectionIn_eq h.changed
  rintro pos hpos (hsym | ⟨x, hx, hhdr⟩)
  · exact hlaid.symtab_outside i hi pos hpos hsym
  · have hne : i ≠ x := fun he ↦ hdone (he ▸ hx)
    exact hdrExtent_apart hlaid.entry hne hpos hhdr

/-- What one round reads and writes: the symbols are moved, then the header of the extra section is
hidden. -/
private structure Script.Round (elf : Script) (symtab first firstOff : Nat) (m : Merging) (x : Nat)
    (d : Bytes) (m' : Merging) : Prop where
  type : (elf.sectionIn m.data x).type = 1
  adjacent : (elf.sectionIn m.data x).offset = firstOff + m.firstSize
  size : m'.firstSize = m.firstSize + (elf.sectionIn m.data x).size
  table : ChangedIn (elf.sectionIn m.data symtab).span.Has m.data d
  symbols : ∀ k < (elf.sectionIn m.data symtab).size / 24,
    elf.symbolIn d ((elf.sectionIn m.data symtab).offset + 24 * k) =
      Elf.moved first x m.firstSize
        (elf.symbolIn m.data ((elf.sectionIn m.data symtab).offset + 24 * k))
  header : ChangedIn (hdrExtent elf.header x).Has d m'.data
  hidden : elf.sectionIn m'.data x = { elf.sectionIn m.data x with name := 0 }

/-- A round that ends well. -/
private theorem of_mergeExtra {firstOff x : Nat} {m m' : Script.Merging}
    (h : elf.mergeExtra symtab first firstOff m x = .ok m') :
    ∃ d, elf.Round symtab first firstOff m x d m' := by
  obtain ⟨s, hs, h⟩ := bind_eq_ok.mp h
  obtain rfl := of_sectionFields hs
  split at h
  · cases h
  next htype =>
  split at h
  · cases h
  next hoff =>
  obtain ⟨t, ht, h⟩ := bind_eq_ok.mp h
  obtain rfl := of_sectionFields ht
  split at h
  · cases h
  obtain ⟨d, hd, h⟩ := bind_eq_ok.mp h
  obtain ⟨d', hd', h⟩ := bind_eq_ok.mp h
  obtain rfl := Except.ok.inj h
  obtain ⟨hsyms, hmoved⟩ := of_moveSymbols hd
  obtain ⟨hhdr, hfields⟩ := of_pack hd'
  have hwhole := Nat.mul_div_le (elf.sectionIn m.data symtab).size 24
  refine ⟨d, Decidable.not_not.mp htype, Decidable.not_not.mp hoff, rfl, hsyms.mono ?_, hmoved,
    hhdr, congrArg SectionHeader.ofFields hfields⟩
  simp only [Extent.Has, SectionHeader.span]
  omega

/-- One round of the merge. -/
private theorem Script.MergedTo.round {done rest : List Nat} {x : Nat} {m m' : Script.Merging}
    (h : elf.MergedTo data symtab first done m)
    (hlaid : elf.Laid data symtab (first :: (done ++ x :: rest)))
    (hround : elf.mergeExtra symtab first (elf.sectionIn data first).offset m x = .ok m') :
    elf.MergedTo data symtab first (done ++ [x]) m' := by
  have hnodup : x ∉ done ∧ first ≠ x := by
    have hall := hlaid.maps_nodup
    grind [List.nodup_cons, List.nodup_append]
  have hxlt : x < elf.header.shnum := hlaid.maps_lt x (by simp)
  have hsymdone : symtab ∉ done := fun hs ↦ hlaid.symtab_notMem (by simp [hs])
  have hx : elf.sectionIn m.data x = elf.sectionIn data x := h.sectionIn_eq hlaid hxlt hnodup.1
  have ht : elf.sectionIn m.data symtab = elf.sectionIn data symtab :=
    h.sectionIn_eq hlaid hlaid.symtab_lt hsymdone
  obtain ⟨d, htype, hoff, hsize, htable, hmoved, hhdr, hhidden⟩ := of_mergeExtra hround
  rw [hx] at htype hoff hsize hhidden
  rw [ht] at htable hmoved
  have hlast {P : Nat → Prop} (hP : P x) (hdone : ∀ y ∈ done, P y) : ∀ y ∈ done ++ [x], P y := by
    intro y hy
    rcases List.mem_append.mp hy with hy | hy
    · exact hdone y hy
    · exact List.mem_singleton.mp hy ▸ hP
  constructor
  · have hold := h.changed.mono (Q := fun pos ↦ (elf.sectionIn data symtab).span.Has pos ∨
        ∃ y ∈ done ++ [x], (hdrExtent elf.header y).Has pos) (by grind)
    apply hold.trans
    apply (htable.mono (fun pos hpos ↦ .inl hpos)).trans
    exact hhdr.mono (fun pos hpos ↦ .inr ⟨x, by simp, hpos⟩)
  · refine hlast hhidden (fun y hy ↦ ?_)
    have hyx : y ≠ x := fun he ↦ hnodup.1 (he ▸ hy)
    have hylt : y < elf.header.shnum := hlaid.maps_lt y (by simp [hy])
    rw [← h.hidden y hy]
    calc elf.sectionIn m'.data y
        = elf.sectionIn d y :=
          Elf.sectionIn_eq hhdr (fun _ hpos ↦ hdrExtent_apart hlaid.entry hyx hpos)
      _ = elf.sectionIn m.data y :=
          Elf.sectionIn_eq htable (hlaid.symtab_outside y hylt)
  · exact hlast htype h.type
  · intro pos
    have hspans := h.spans pos
    have hsplit : (∃ y ∈ (first :: done) ++ [x], (elf.sectionIn data y).span.Has pos) ↔
        (∃ y ∈ first :: done, (elf.sectionIn data y).span.Has pos) ∨
          (elf.sectionIn data x).span.Has pos := by
      simp only [List.mem_append, List.mem_singleton, or_and_right, exists_or, exists_eq_left]
    rw [← List.cons_append, hsplit, ← hspans, hsize]
    simp only [Extent.Has, SectionHeader.span]
    omega
  · exact hlast (by omega) h.behind
  · intro k hk
    have hplace (pos : Nat) (hpos : (Extent.mk ((elf.sectionIn data symtab).offset + 24 * k)
        24).Has pos) : (elf.sectionIn data symtab).span.Has pos := by
      simp only [Extent.Has, SectionHeader.span] at *
      omega
    calc elf.symbolIn m'.data ((elf.sectionIn data symtab).offset + 24 * k)
        = elf.symbolIn d ((elf.sectionIn data symtab).offset + 24 * k) :=
          symbolIn_eq hhdr
            (fun pos hpos hx ↦ hlaid.symtab_outside x hxlt pos hx (hplace pos hpos))
      _ = moved first x m.firstSize
            (elf.symbolIn m.data ((elf.sectionIn data symtab).offset + 24 * k)) := hmoved k hk
      _ = moved first x m.firstSize (elf.relocated data first done
            (elf.symbolIn data ((elf.sectionIn data symtab).offset + 24 * k))) := by
          rw [h.symbols k hk]
      _ = elf.relocated data first (done ++ [x])
            (elf.symbolIn data ((elf.sectionIn data symtab).offset + 24 * k)) :=
          moved_relocated hnodup.1 hnodup.2 hoff _

/-- A merge that ends well. -/
theorem of_mergeMaps {found : Script.Indices} {data' : Bytes} {merged extra : Nat}
    {rest : List Nat} (hmaps : found.maps = first :: extra :: rest)
    (hsymtab : found.symtab = some symtab)
    (hlaid : elf.Laid data symtab (first :: extra :: rest))
    (h : elf.mergeMaps data found = .ok (data', merged)) :
    ∃ m, elf.Merged data symtab first (extra :: rest) m data' := by
  rw [Script.mergeMaps, hmaps, hsymtab] at h
  obtain ⟨f, hf, h⟩ := bind_eq_ok.mp h
  obtain rfl := of_sectionFields hf
  split at h
  · cases h
  next htype =>
  obtain ⟨m, hm, h⟩ := bind_eq_ok.mp h
  obtain ⟨d, hd, h⟩ := bind_eq_ok.mp h
  obtain ⟨rfl, -⟩ := Prod.mk.inj (Except.ok.inj h)
  obtain ⟨hchanged, hfields⟩ := of_pack hd
  have hrounds : elf.MergedTo data symtab first (extra :: rest) m := by
    refine foldlM_ok (I := fun done m ↦ elf.MergedTo data symtab first done m)
      (mergedTo_nil 0) ?_ hm
    intro done x rest' c c' hall hc hround
    exact hc.round (hall ▸ hlaid) hround
  exact ⟨m, Decidable.not_not.mp htype, hrounds, hchanged, congrArg SectionHeader.ofFields hfields⟩

end Merge

end SkLookup.Elf
