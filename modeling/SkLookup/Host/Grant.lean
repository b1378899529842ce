import SkLookup.Desired.Format
import SkLookup.Effect.Guarantee
import SkLookup.Host.World

/-!
# What an operation may do to the machine

A grant lists the ports files an operation may replace, by the text of which state, and the
changes it may make to ports of the map. Everything else of the machine that later steps
read stays as it is. The operations of the program are specified by the grants they keep.
-/

namespace SkLookup

open Codec Effect

/-- The changes an operation may make. -/
structure Grant where
  /-- The ports file may be replaced by the text of the state. -/
  store : Path → DesiredPorts → Prop
  /-- The port may be moved to the slot, or closed. -/
  move : Port → Option Slot → Prop
  /-- Central documents or freeze files may be written. -/
  writes : Role → Prop

namespace Grant

/-- Nothing may change but metrics, stamps, temporary files and the audit log. -/
def none : Grant := ⟨fun _ _ ↦ False, fun _ _ ↦ False, fun _ ↦ False⟩

/-- The ports file may be replaced by the text of one state. -/
def storing (path : Path) (desired : DesiredPorts) : Grant :=
  ⟨fun p d ↦ p = path ∧ d = desired, fun _ _ ↦ False, fun _ ↦ False⟩

/-- Ports of the map may be moved. -/
def moving (move : Port → Option Slot → Prop) : Grant :=
  ⟨fun _ _ ↦ False, move, fun _ ↦ False⟩

/-- What any grant of a family allows. -/
def any {ι : Sort*} (g : ι → Grant) : Grant where
  store path desired := ∃ i, (g i).store path desired
  move port slot := ∃ i, (g i).move port slot
  writes role := ∃ i, (g i).writes role

/-- One grant is part of another. -/
structure Le (g g' : Grant) : Prop where
  store : ∀ {path desired}, g.store path desired → g'.store path desired
  move : ∀ {port slot}, g.move port slot → g'.move port slot
  writes : ∀ {role}, g.writes role → g'.writes role

/-- The empty grant is part of every grant. -/
theorem none_le (g : Grant) : none.Le g := ⟨False.elim, False.elim, False.elim⟩

/-- A grant is part of itself. -/
theorem le_refl (g : Grant) : g.Le g := ⟨id, id, id⟩

/-- A member of a family is part of what the family allows. -/
theorem le_any {ι : Sort*} (g : ι → Grant) (i : ι) : (g i).Le (any g) :=
  ⟨fun h ↦ ⟨i, h⟩, fun h ↦ ⟨i, h⟩, fun h ↦ ⟨i, h⟩⟩

end Grant

/-- The second state differs from the first by granted changes only. -/
structure Within (e : Endian) (g : Grant) (w w' : World) : Prop where
  files : ∀ role path, role = .policy ∨ role = .list → w'.files role path = w.files role path
  written : ∀ role path, role = .central ∨ role = .freeze →
    w'.files role path = w.files role path ∨
      g.writes role ∧ (w'.files role path).isSome = true
  ports : ∀ path, w'.files .ports path = w.files .ports path ∨
    ∃ desired, g.store path desired ∧ w'.files .ports path = some (desiredText desired)
  conf : w'.conf = w.conf
  pinned : ∀ dir, w.pinned dir = true → w'.pinned dir = true
  slot : ∀ port, w'.slot e port = w.slot e port ∨ g.move port (w'.slot e port)

/-- `pack_keys`, `src/rust/loader/src/bulk.rs:46`. -/
def packKeys (e : Endian) (keySize : Nat) (ports : List Port) : Bytes :=
  ports.flatMap (portKeyBytes e keySize)

/-- `pack_slot_values`, `src/rust/loader/src/bulk.rs:57`. -/
def packSlotValues (valueSize n : Nat) (slot : Slot) : Bytes :=
  (List.replicate n (slotValueBytes valueSize slot)).flatten

/-- The command is covered by the grant in this state. -/
def Allowed (e : Endian) (g : Grant) (w : World) : Op → Prop
  | .writeFile role _ _ => role = .metrics ∨ role = .stamp ∨
    (role = .central ∨ role = .freeze) ∧ g.writes role
  | .removeFile _ _ => False
  | .renameTemp path pid => ∀ text, w.temps path pid = some text →
    ∃ desired, g.store path desired ∧ text = desiredText desired
  | .mapUpdate key value => ∃ port slot, key = portKeyBytes e openPortsKeySize port ∧
    value = slotValueBytes openPortsValueSize slot ∧ g.move port (some slot)
  | .mapUpdateBatch keys values count => ∃ ports slot, keys = packKeys e openPortsKeySize ports ∧
    values = packSlotValues openPortsValueSize ports.length slot ∧ count = ports.length ∧
    ∀ port ∈ ports, g.move port (some slot)
  | .mapDelete key => ∃ port, key = portKeyBytes e openPortsKeySize port ∧ g.move port none
  | .mapDeleteBatch keys count => ∃ ports, keys = packKeys e openPortsKeySize ports ∧
    count = ports.length ∧ ∀ port ∈ ports, g.move port none
  | .loadAndAttach pinDir => w.pinned pinDir = true ∨ ∀ port, g.move port none
  | _ => True

/-- The command puts the port into the map. -/
def Op.Puts (e : Endian) (o : Op) (port : Port) : Prop :=
  match o with
  | .mapUpdate key _ => key = toNeBytes e port
  | .mapUpdateBatch keys _ count => toNeBytes e port ∈ unpack openPortsKeySize count keys
  | _ => False

namespace Within

variable {e : Endian} {g g' : Grant} {w w' w'' : World}

/-- Nothing is a granted change. -/
theorem refl (w : World) : Within e g w w where
  files _ _ _ := rfl
  written _ _ _ := .inl rfl
  ports _ := .inl rfl
  conf := rfl
  pinned _ h := h
  slot _ := .inl rfl

/-- Granted changes compose. -/
theorem trans (h : Within e g w w') (h' : Within e g w' w'') : Within e g w w'' where
  files role path hr := (h'.files role path hr).trans (h.files role path hr)
  written role path hr := by
    rcases h'.written role path hr with hc | hc
    · rw [hc]
      exact h.written role path hr
    · exact .inr hc
  ports path := by
    rcases h'.ports path with hp | hp
    · rw [hp]
      exact h.ports path
    · exact .inr hp
  conf := h'.conf.trans h.conf
  pinned dir hd := h'.pinned dir (h.pinned dir hd)
  slot port := by
    rcases h'.slot port with hs | hs
    · rw [hs]
      exact h.slot port
    · exact .inr hs

/-- A larger grant covers the same changes. -/
theorem mono (h : Within e g w w') (hg : g.Le g') : Within e g' w w' where
  files := h.files
  written role path hr := (h.written role path hr).imp_right (fun hx ↦ ⟨hg.writes hx.1, hx.2⟩)
  ports path := (h.ports path).imp_right (fun ⟨d, hd, ht⟩ ↦ ⟨d, hg.store hd, ht⟩)
  conf := h.conf
  pinned := h.pinned
  slot port := (h.slot port).imp_right hg.move

/-- Without a grant the map stays as it is. -/
theorem slot_eq (h : Within e .none w w') (port : Port) : w'.slot e port = w.slot e port :=
  (h.slot port).resolve_right id

/-- Without a grant the ports files stay as they are. -/
theorem ports_eq (h : Within e .none w w') (path : Path) :
    w'.files .ports path = w.files .ports path :=
  (h.ports path).resolve_right (fun ⟨_, hd, _⟩ ↦ hd)

/-- A freeze file that is there stays there. -/
theorem frozen (h : Within e g w w') {path : Path} (hf : w.files .freeze path ≠ none) :
    w'.files .freeze path ≠ none := by
  rcases h.written .freeze path (.inr rfl) with hs | ⟨-, hs⟩
  · rw [hs]
    exact hf
  · exact Option.isSome_iff_ne_none.mp hs

/-- A grant that moves no port leaves the map as it is. -/
theorem slot_eq_of_not_move (h : Within e g w w') {port : Port}
    (hg : ∀ slot, ¬g.move port slot) : w'.slot e port = w.slot e port :=
  (h.slot port).resolve_right (hg _)

/-- A change of map content that moves ports as granted. -/
theorem of_openPorts {m : PortMap}
    (h : ∀ port, m.slot e port = w.slot e port ∨ g.move port (m.slot e port)) :
    Within e g w { w with openPorts := m } where
  files _ _ _ := rfl
  written _ _ _ := .inl rfl
  ports _ := .inl rfl
  conf := rfl
  pinned _ hd := hd
  slot := h

/-- A change of a temporary file. -/
theorem setTemp (w : World) (path : Path) (pid : Nat) (text : Option Text) :
    Within e g w (w.setTemp path pid text) :=
  ⟨fun _ _ _ ↦ rfl, fun _ _ _ ↦ .inl rfl, fun _ ↦ .inl rfl, rfl, fun _ h ↦ h, fun _ ↦ .inl rfl⟩

/-- A change of a file that is neither read as policy, list or ports file nor removed. -/
theorem setFile {role : Role} {path : Path} {text : Text}
    (hr : role = .metrics ∨ role = .stamp ∨ (role = .central ∨ role = .freeze) ∧ g.writes role) :
    Within e g w (w.setFile role path (some text)) where
  files r p h := by
    have hne : r ≠ role := by
      rintro rfl
      rcases h with rfl | rfl <;> simp at hr
    simp [World.setFile, hne]
  written r p h := by
    by_cases hrp : r = role ∧ p = path
    · obtain ⟨rfl, rfl⟩ := hrp
      refine .inr ⟨?_, by simp [World.setFile]⟩
      rcases h with rfl | rfl <;> simpa using hr
    · exact .inl (if_neg hrp)
  ports p := by
    have hne : role ≠ .ports := by
      rintro rfl
      simp at hr
    exact .inl (by simp [World.setFile, Ne.symm hne])
  conf := rfl
  pinned _ h := h
  slot _ := .inl rfl

/-- The replacement of a ports file. -/
theorem storePorts {path : Path} {desired : DesiredPorts} (h : g.store path desired) :
    Within e g w (w.setFile .ports path (some (desiredText desired))) where
  files r p hr := by
    have hne : r ≠ .ports := by
      rintro rfl
      simp at hr
    simp [World.setFile, hne]
  written r p hr := by
    have hne : r ≠ .ports := by
      rintro rfl
      simp at hr
    exact .inl (by simp [World.setFile, hne])
  ports p := by
    by_cases hp : p = path
    · subst hp
      exact .inr ⟨desired, h, by simp [World.setFile]⟩
    · exact .inl (by simp [World.setFile, hp])
  conf := rfl
  pinned _ h := h
  slot _ := .inl rfl

end Within

/-! ### Map commands and grants -/

section Map

variable {e : Endian} {g : Grant}

/-- Unpacking packed keys gives the keys. -/
theorem unpack_packKeys (ports : List Port) :
    unpack openPortsKeySize ports.length (packKeys e openPortsKeySize ports) =
      ports.map (toNeBytes e) := by
  induction ports with
  | nil => rfl
  | cons port ports ih =>
    have hl : (toNeBytes e port).length = openPortsKeySize := length_toNeBytes e port
    rw [packKeys] at ih ⊢
    rw [List.length_cons, List.flatMap_cons, unpack, portKeyBytes_openPorts,
      List.take_left' hl, List.drop_left' hl, ih, List.map_cons]

/-- Unpacking packed slots gives the slot for every port. -/
theorem unpack_packSlotValues (n : Nat) (slot : Slot) :
    unpack openPortsValueSize n (packSlotValues openPortsValueSize n slot) =
      List.replicate n [slot] := by
  induction n with
  | zero => rfl
  | succ n ih =>
    have hl : [slot].length = openPortsValueSize := rfl
    rw [packSlotValues] at ih ⊢
    rw [List.replicate_succ, List.flatten_cons, unpack, slotValueBytes_openPorts,
      List.take_left' hl, List.drop_left' hl, ← slotValueBytes_openPorts, ih,
      List.replicate_succ, slotValueBytes_openPorts]

/-- Writing one slot to listed ports succeeds and opens exactly those. -/
theorem updateAll_ports (m : PortMap) (ports : List Port) (slot : Slot) :
    ∃ m', m.updateAll ((ports.map (toNeBytes e)).zip (List.replicate ports.length [slot])) =
        (m', true) ∧
      ∀ q, m'.slot e q = if q ∈ ports then some slot else m.slot e q := by
  induction ports generalizing m with
  | nil => exact ⟨m, rfl, by simp⟩
  | cons port ports ih =>
    obtain ⟨m₁, h₁, hs₁⟩ := m.update_port e port slot
    obtain ⟨m₂, h₂, hs₂⟩ := ih m₁
    refine ⟨m₂, ?_, fun q ↦ ?_⟩
    · simp only [List.map_cons, List.length_cons, List.replicate_succ, List.zip_cons_cons,
        PortMap.updateAll, h₁, h₂]
    · rw [hs₂, hs₁]
      by_cases hq : q = port <;> by_cases hm : q ∈ ports <;> simp [hq, hm]

/-- Writing part of the listed ports opens no other port. -/
theorem updateAll_take (m : PortMap) (ports : List Port) (slot : Slot) (n : Nat) (q : Port) :
    let m' := (m.updateAll (((ports.map (toNeBytes e)).zip
      (List.replicate ports.length [slot])).take n)).1
    m'.slot e q = m.slot e q ∨ q ∈ ports ∧ m'.slot e q = some slot := by
  have ht : ((ports.map (toNeBytes e)).zip (List.replicate ports.length [slot])).take n =
      ((ports.take n).map (toNeBytes e)).zip (List.replicate (ports.take n).length [slot]) := by
    rw [List.zip, List.take_zipWith, ← List.zip, List.map_take, List.take_replicate,
      List.length_take]
  obtain ⟨m', h, hs⟩ := updateAll_ports m (ports.take n) slot
  dsimp only
  rw [ht, h, hs]
  by_cases hq : q ∈ ports.take n
  · exact .inr ⟨List.mem_of_mem_take hq, by simp [hq]⟩
  · simp [hq]

/-- Deleting listed ports closes some of them and, when it gets through, all. -/
theorem eraseAll_ports (m : PortMap) (ports : List Port) :
    (∀ q, (m.eraseAll (ports.map (toNeBytes e))).1.slot e q = m.slot e q ∨
      q ∈ ports ∧ (m.eraseAll (ports.map (toNeBytes e))).1.slot e q = none) ∧
      ((m.eraseAll (ports.map (toNeBytes e))).2 = true →
        ∀ q ∈ ports, (m.eraseAll (ports.map (toNeBytes e))).1.slot e q = none) := by
  induction ports generalizing m with
  | nil => exact ⟨fun q ↦ .inl rfl, by simp⟩
  | cons port ports ih =>
    rw [List.map_cons, PortMap.eraseAll]
    split
    · obtain ⟨ih₁, ih₂⟩ := ih (m.erase (toNeBytes e port))
      have hstep (q : Port) :
          ((m.erase (toNeBytes e port)).eraseAll (ports.map (toNeBytes e))).1.slot e q =
            (if q = port then none else m.slot e q) ∨
          q ∈ ports ∧ ((m.erase (toNeBytes e port)).eraseAll
            (ports.map (toNeBytes e))).1.slot e q = none := by
        rw [← m.slot_erase e port q]
        exact ih₁ q
      constructor
      · intro q
        rcases hstep q with h | ⟨hq, h⟩
        · by_cases hp : q = port
          · exact .inr ⟨by simp [hp], by rw [h, if_pos hp]⟩
          · exact .inl (by rw [h, if_neg hp])
        · exact .inr ⟨by simp [hq], h⟩
      · intro hd q hq
        rcases List.mem_cons.mp hq with rfl | hq
        · rcases hstep q with h | ⟨-, h⟩
          · rw [h, if_pos rfl]
          · exact h
        · exact ih₂ hd q hq
    · exact ⟨fun q ↦ .inl rfl, by simp⟩

end Map

/-- A packed batch asks for the slot at every listed port. -/
theorem batchPairs_packed (e : Endian) (ports : List Port) (slot : Slot) :
    batchPairs (packKeys e openPortsKeySize ports)
        (packSlotValues openPortsValueSize ports.length slot) ports.length =
      (ports.map (toNeBytes e)).zip (List.replicate ports.length [slot]) := by
  rw [batchPairs, unpack_packKeys, unpack_packSlotValues]

section Step

variable {e : Endian} {g : Grant} {w : World}

private theorem within_mapUpdate {key value : Bytes}
    (h : Allowed e g w (.mapUpdate key value)) (c : Choice) :
    Within e g w (exec (.mapUpdate key value) c w).1 := by
  obtain ⟨port, slot, rfl, rfl, hm⟩ := h
  rw [portKeyBytes_openPorts, slotValueBytes_openPorts]
  cases c with
  | fails n => exact .refl w
  | works n =>
    obtain ⟨m, hu, hs⟩ := w.openPorts.update_port e port slot
    rw [exec, hu]
    refine .of_openPorts fun q ↦ ?_
    rw [hs]
    by_cases hq : q = port
    · exact .inr (by rw [if_pos hq, hq]; exact hm)
    · exact .inl (if_neg hq)

private theorem within_mapUpdateBatch {keys values : Bytes} {count : Nat}
    (h : Allowed e g w (.mapUpdateBatch keys values count)) (c : Choice) :
    Within e g w (exec (.mapUpdateBatch keys values count) c w).1 := by
  obtain ⟨ports, slot, rfl, rfl, rfl, hm⟩ := h
  cases c with
  | fails n =>
    rw [exec, batchPairs_packed]
    refine .of_openPorts fun q ↦ ?_
    rcases updateAll_take (e := e) w.openPorts ports slot n q with hs | ⟨hq, hs⟩
    · exact .inl hs
    · exact .inr (by rw [hs]; exact hm q hq)
  | works n =>
    obtain ⟨m, hu, hs⟩ := updateAll_ports (e := e) w.openPorts ports slot
    rw [exec, batchPairs_packed, hu]
    refine .of_openPorts fun q ↦ ?_
    rw [hs]
    by_cases hq : q ∈ ports
    · exact .inr (by rw [if_pos hq]; exact hm q hq)
    · exact .inl (if_neg hq)

private theorem within_mapDelete {key : Bytes} (h : Allowed e g w (.mapDelete key))
    (c : Choice) : Within e g w (exec (.mapDelete key) c w).1 := by
  obtain ⟨port, rfl, hm⟩ := h
  rw [portKeyBytes_openPorts]
  cases c with
  | fails n => exact .refl w
  | works n =>
    rw [exec]
    split
    · refine .of_openPorts fun q ↦ ?_
      rw [PortMap.slot_erase]
      by_cases hq : q = port
      · exact .inr (by rw [if_pos hq, hq]; exact hm)
      · exact .inl (if_neg hq)
    · exact .refl w

private theorem within_mapDeleteBatch {keys : Bytes} {count : Nat}
    (h : Allowed e g w (.mapDeleteBatch keys count)) (c : Choice) :
    Within e g w (exec (.mapDeleteBatch keys count) c w).1 := by
  obtain ⟨ports, rfl, rfl, hm⟩ := h
  have herase (ps : List Port) (hps : ∀ q ∈ ps, q ∈ ports) :
      Within e g w { w with openPorts := (w.openPorts.eraseAll (ps.map (toNeBytes e))).1 } := by
    refine .of_openPorts fun q ↦ ?_
    rcases (eraseAll_ports (e := e) w.openPorts ps).1 q with hs | ⟨hq, hs⟩
    · exact .inl hs
    · exact .inr (by rw [hs]; exact hm q (hps q hq))
  cases c with
  | fails n =>
    rw [exec, unpack_packKeys, ← List.map_take]
    exact herase (ports.take n) (fun q hq ↦ List.mem_of_mem_take hq)
  | works n =>
    rw [exec, unpack_packKeys]
    exact herase ports (fun q hq ↦ hq)

private theorem within_renameTemp {path : Path} {pid : Nat}
    (h : Allowed e g w (.renameTemp path pid)) (c : Choice) :
    Within e g w (exec (.renameTemp path pid) c w).1 := by
  cases c with
  | fails n => exact .refl w
  | works n =>
    rw [exec]
    split
    · next text ht =>
      obtain ⟨desired, hd, rfl⟩ := h text ht
      exact (Within.storePorts hd).trans (.setTemp _ _ _ _)
    · exact .refl w

/-- A command covered by the grant makes granted changes only. -/
theorem within_exec {o : Op} (h : Allowed e g w o) (c : Choice) :
    Within e g w (exec o c w).1 := by
  cases o with
  | mapUpdate key value => exact within_mapUpdate h c
  | mapUpdateBatch keys values count => exact within_mapUpdateBatch h c
  | mapDelete key => exact within_mapDelete h c
  | mapDeleteBatch keys count => exact within_mapDeleteBatch h c
  | renameTemp path pid => exact within_renameTemp h c
  | removeFile role path => exact h.elim
  | writeFile role path text =>
    rcases c with n | _ | n
    · exact .setFile h
    · exact .refl w
    · exact .setFile h
  | loadAndAttach pinDir =>
    cases c with
    | fails n => exact .refl w
    | works n =>
      rw [exec]
      split
      · exact .refl w
      · next hp =>
        have hm := h.resolve_left hp
        refine .of_openPorts fun q ↦ .inr ?_
        rw [PortMap.slot_empty]
        exact hm q
  | pinMaps pinDir =>
    cases c with
    | fails n => exact .refl w
    | works n =>
      refine ⟨fun _ _ _ ↦ rfl, fun _ _ _ ↦ .inl rfl, fun _ ↦ .inl rfl, rfl, ?_,
        fun _ ↦ .inl rfl⟩
      intro dir hd
      rw [exec]
      dsimp only
      split
      · rfl
      · exact hd
  | redirUpdate key fd =>
    cases c with
    | fails n => exact .refl w
    | works n =>
      exact ⟨fun _ _ _ ↦ rfl, fun _ _ _ ↦ .inl rfl, fun _ ↦ .inl rfl, rfl, fun _ h ↦ h,
        fun _ ↦ .inl rfl⟩
  | auditLine line =>
    exact ⟨fun _ _ _ ↦ rfl, fun _ _ _ ↦ .inl rfl, fun _ ↦ .inl rfl, rfl, fun _ h ↦ h,
      fun _ ↦ .inl rfl⟩
  | createTemp path pid =>
    cases c with
    | fails n => exact .refl w
    | works n => exact .setTemp w path pid _
  | appendTemp path pid text => cases c <;> exact .setTemp w path pid _
  | removeTemp path pid =>
    cases c with
    | fails n => exact .refl w
    | works n => exact .setTemp w path pid _
  | readFile role path => cases c <;> exact .refl w
  | openPinned pinDir => cases c <;> exact .refl w
  | mapLookup key => cases c <;> exact .refl w
  | listenSocket addr => cases c <;> exact .refl w
  | fileExists role path => exact .refl w
  | createDirAll dir => exact .refl w
  | keepOwner path pid => exact .refl w
  | loaderLock => exact .refl w
  | syncTemp path pid => exact .refl w
  | confTree => exact .refl w
  | mapKeys => exact .refl w
  | report op done total => exact .refl w

/-- A larger grant covers the same commands. -/
theorem Allowed.mono {g' : Grant} {o : Op} (h : Allowed e g w o) (hg : g.Le g') :
    Allowed e g' w o := by
  cases o with
  | mapUpdate key value =>
    obtain ⟨port, slot, hk, hv, hm⟩ := h
    exact ⟨port, slot, hk, hv, hg.move hm⟩
  | mapUpdateBatch keys values count =>
    obtain ⟨ports, slot, hk, hv, hc, hm⟩ := h
    exact ⟨ports, slot, hk, hv, hc, fun p hp ↦ hg.move (hm p hp)⟩
  | mapDelete key =>
    obtain ⟨port, hk, hm⟩ := h
    exact ⟨port, hk, hg.move hm⟩
  | mapDeleteBatch keys count =>
    obtain ⟨ports, hk, hc, hm⟩ := h
    exact ⟨ports, hk, hc, fun p hp ↦ hg.move (hm p hp)⟩
  | renameTemp path pid =>
    intro text ht
    obtain ⟨desired, hd, he⟩ := h text ht
    exact ⟨desired, hg.store hd, he⟩
  | writeFile role path text =>
    exact h.imp_right (fun h ↦ h.imp_right (fun h ↦ ⟨h.1, hg.writes h.2⟩))
  | loadAndAttach pinDir => exact h.imp_right (fun h p ↦ hg.move (h p))
  | removeFile role path => exact h
  | _ => trivial

/-- A covered command puts only ports that may be opened. -/
theorem Allowed.move_of_puts {o : Op} (h : Allowed e g w o) {port : Port} (hp : o.Puts e port) :
    ∃ slot, g.move port (some slot) := by
  cases o with
  | mapUpdate key value =>
    obtain ⟨p, slot, rfl, -, hm⟩ := h
    rw [Op.Puts, portKeyBytes_openPorts] at hp
    exact ⟨slot, toNeBytes_inj hp ▸ hm⟩
  | mapUpdateBatch keys values count =>
    obtain ⟨ports, slot, rfl, -, rfl, hm⟩ := h
    rw [Op.Puts, unpack_packKeys] at hp
    obtain ⟨p, hin, he⟩ := List.mem_map.mp hp
    exact ⟨slot, hm port (toNeBytes_inj he ▸ hin)⟩
  | _ => exact hp.elim

end Step

/-- The guarantee of a grant. -/
def Grant.guarantee (e : Endian) (g : Grant) : Guarantee machine where
  rel := Within e g
  allow := Allowed e g
  refl := .refl
  trans := .trans
  step := within_exec

/-- A larger grant gives a weaker guarantee. -/
theorem Grant.Le.guarantee {e : Endian} {g g' : Grant} (h : g.Le g') :
    (g.guarantee e).Le (g'.guarantee e) :=
  ⟨fun hw ↦ hw.mono h, fun ho ↦ ho.mono h⟩

/-- From `w` the task keeps the grant and its outcome satisfies `Q`. -/
abbrev Keeps (e : Endian) (g : Grant) {α : Type} (p : Task α)
    (Q : Result α → World → Prop) (w : World) : Prop := (g.guarantee e).Holds p Q w

/-- From `w` the task keeps the grant. -/
abbrev Stays (e : Endian) (g : Grant) {α : Type} (p : Task α) (w : World) : Prop :=
  (g.guarantee e).Confines p w

end SkLookup
