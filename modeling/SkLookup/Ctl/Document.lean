import SkLookup.Ctl.Central

/-!
# What a central document says

`load_from_str` of `src/rust/loader/src/central.rs` reads a document as the set of its entries: it
fails where two entries bind one port differently, and neither order nor repetition matters. What
`write` makes of a desired state is read as that state.
-/

namespace SkLookup

open Codec Effect

variable {start desired : DesiredPorts} {entries : List CentralPort}

/-- Entries that name no port 0, and that agree on the binding of a port with each other and with
what is already bound. -/
def EntriesAgree (start : DesiredPorts) (entries : List CentralPort) : Prop :=
  ∀ e ∈ entries, e.port ≠ 0 ∧ (∀ old, start[e.port]? = some old → old = e.binding) ∧
    ∀ e' ∈ entries, e.port = e'.port → e.binding = e'.binding

/-- The state with all entries bound in turn. -/
def bindEntries (entries : List CentralPort) (start : DesiredPorts) : DesiredPorts :=
  entries.foldl (fun d e ↦ d.insert e.port e.binding) start

private theorem getElem?_bind (start : DesiredPorts) (e : CentralPort) (port : Port) :
    (start.insert e.port e.binding)[port]? =
      if e.port = port then some e.binding else start[port]? := by
  rw [Std.ExtTreeMap.getElem?_insert]
  simp only [Std.compare_eq_iff_eq]

/-- Entries agree when the first does and the others agree with it bound. -/
theorem entriesAgree_cons {e : CentralPort} {rest : List CentralPort} :
    EntriesAgree start (e :: rest) ↔
      e.port ≠ 0 ∧ (∀ old, start[e.port]? = some old → old = e.binding) ∧
        EntriesAgree (start.insert e.port e.binding) rest := by
  constructor
  · intro h
    obtain ⟨hport, hold, hsame⟩ := h e List.mem_cons_self
    refine ⟨hport, hold, ?_⟩
    intro e' he'
    obtain ⟨hport', hold', hsame'⟩ := h e' (List.mem_cons_of_mem e he')
    refine ⟨hport', ?_, fun f hf ↦ hsame' f (List.mem_cons_of_mem e hf)⟩
    intro old hlook
    rw [getElem?_bind] at hlook
    by_cases hp : e.port = e'.port
    · rw [if_pos hp] at hlook
      exact (Option.some.inj hlook).symm.trans (hsame e' (List.mem_cons_of_mem e he') hp)
    · rw [if_neg hp] at hlook
      exact hold' old hlook
  · rintro ⟨hport, hold, hrest⟩
    have hfirst : ∀ e' ∈ rest, e.port = e'.port → e.binding = e'.binding := by
      intro e' he' hp
      apply (hrest e' he').2.1
      rw [getElem?_bind, if_pos hp]
    intro e' hmem
    rcases List.mem_cons.mp hmem with rfl | he'
    · refine ⟨hport, hold, ?_⟩
      intro f hf hp
      rcases List.mem_cons.mp hf with rfl | hf
      · rfl
      · exact hfirst f hf hp
    · obtain ⟨hport', hold', hsame'⟩ := hrest e' he'
      refine ⟨hport', ?_, ?_⟩
      · intro old hlook
        by_cases hp : e.port = e'.port
        · rw [← hp] at hlook
          exact (hold old hlook).trans (hfirst e' he' hp)
        · apply hold'
          rw [getElem?_bind, if_neg hp, hlook]
      · intro f hf hp
        rcases List.mem_cons.mp hf with rfl | hf
        · exact (hfirst e' he' hp.symm).symm
        · exact hsame' f hf hp

/-- The loop goes through exactly where the entries agree, and binds all of them. -/
theorem insertEntries_eq_ok :
    insertEntries entries start = .ok desired ↔
      EntriesAgree start entries ∧ desired = bindEntries entries start := by
  induction entries generalizing start with
  | nil =>
    have hnil : EntriesAgree start [] := nofun
    simp [insertEntries, bindEntries, hnil, eq_comm]
  | cons e rest ih =>
    have hbind : bindEntries (e :: rest) start =
        bindEntries rest (start.insert e.port e.binding) := rfl
    rw [entriesAgree_cons, hbind, insertEntries]
    by_cases hport : e.port = 0
    · simp [hport, bail_ne_ok]
    · rw [if_neg hport]
      cases hlook : start[e.port]? with
      | none => simp [hport, ih]
      | some old =>
        by_cases hold : old = e.binding
        · simp [hport, hold, ih]
        · simp [hold, bail_ne_ok]

/-- What is bound in the end: what was bound before, and the entries. -/
theorem getElem?_bindEntries (h : EntriesAgree start entries) (port : Port) (b : PortBinding) :
    (bindEntries entries start)[port]? = some b ↔
      start[port]? = some b ∨ ∃ e ∈ entries, e.port = port ∧ e.binding = b := by
  induction entries generalizing start with
  | nil => simp [bindEntries]
  | cons e rest ih =>
    obtain ⟨-, hold, hrest⟩ := entriesAgree_cons.mp h
    have hbind : bindEntries (e :: rest) start =
        bindEntries rest (start.insert e.port e.binding) := rfl
    rw [hbind, ih hrest, getElem?_bind]
    simp only [List.mem_cons, exists_eq_or_imp]
    by_cases hp : e.port = port
    · subst hp
      simp only [if_true, Option.some.injEq, true_and]
      constructor
      · rintro (hb | hb)
        · exact .inr (.inl hb)
        · exact .inr (.inr hb)
      · rintro (hb | hb | hb)
        · exact .inl (hold b hb).symm
        · exact .inl hb
        · exact .inr hb
    · simp only [hp, if_false, false_and, false_or]

/-- A document of version 1 is read as the bindings of its entries, where they agree. -/
theorem loadFromStr_eq_ok {host : Host} {raw : Text} {state : CentralState}
    (hraw : host.decodeCentral raw = some state) (hversion : state.version = 1) :
    loadFromStr host raw = .ok desired ↔
      EntriesAgree ∅ state.ports ∧ desired = bindEntries state.ports ∅ := by
  have hfits (d : DesiredPorts) : ¬d.size > openPortsMaxEntries := by
    have hmax : 65536 ≤ openPortsMaxEntries := by decide
    have hle := Policy.size_le_ports d
    omega
  unfold loadFromStr
  simp only [hraw, hversion, ne_eq, not_true_eq_false, if_false, bind_eq_ok, hfits,
    Except.ok.injEq, exists_eq_right]
  exact insertEntries_eq_ok

/-- The document of a state has an entry for each of its bindings. -/
theorem mem_centralState {e : CentralPort} :
    e ∈ (centralState desired).ports ↔ ∃ b, desired[e.port]? = some b ∧
      e = ⟨b.tenant, b.site, e.port, b.cert, b.policy, b.slot = redirTls⟩ := by
  unfold centralState
  rw [List.mem_map]
  constructor
  · rintro ⟨⟨port, b⟩, hmem, rfl⟩
    exact ⟨b, Std.ExtTreeMap.mem_toList_iff_getElem?_eq_some.mp hmem, rfl⟩
  · rintro ⟨b, hb, he⟩
    exact ⟨(e.port, b), Std.ExtTreeMap.mem_toList_iff_getElem?_eq_some.mpr hb, he.symm⟩

/-- An entry of a state with two slots has the binding of its port. -/
theorem binding_of_mem_centralState {e : CentralPort} {b : PortBinding}
    (hslot : b.slot = redirPrimary ∨ b.slot = redirTls) (hb : desired[e.port]? = some b)
    (he : e ∈ (centralState desired).ports) : e.binding = b := by
  obtain ⟨b', hb', he⟩ := mem_centralState.mp he
  obtain rfl := Option.some.inj (hb.symm.trans hb')
  have hround : (if decide (b.slot = redirTls) then redirTls else redirPrimary) = b.slot := by
    rcases hslot with h | h <;> rw [h] <;> rfl
  rw [he, CentralPort.binding]
  dsimp only
  rw [hround]

/-- The text of a state is read as that state. -/
theorem loadFromStr_encode {host : Host}
    (hd : ∀ (port : Port) (b : PortBinding), desired[port]? = some b →
      port ≠ 0 ∧ (b.slot = redirPrimary ∨ b.slot = redirTls))
    (hjson : host.decodeCentral (host.encodeCentral (centralState desired)) =
      some (centralState desired)) :
    loadFromStr host (host.encodeCentral (centralState desired)) = .ok desired := by
  rw [loadFromStr_eq_ok hjson rfl]
  have hagree : EntriesAgree ∅ (centralState desired).ports := by
    intro e he
    obtain ⟨b, hb, -⟩ := mem_centralState.mp he
    obtain ⟨hport, hslot⟩ := hd e.port b hb
    refine ⟨hport, by simp, ?_⟩
    intro e' he' hp
    have hsame := binding_of_mem_centralState hslot (hp ▸ hb) he'
    rw [binding_of_mem_centralState hslot hb he, hsame]
  refine ⟨hagree, ?_⟩
  apply Std.ExtTreeMap.ext_getElem?
  intro port
  apply Option.ext
  intro b
  rw [getElem?_bindEntries hagree]
  have hempty : ((∅ : DesiredPorts)[port]? = some b) = False := by simp
  rw [hempty, false_or]
  constructor
  · intro hb
    have he : ⟨b.tenant, b.site, port, b.cert, b.policy, b.slot = redirTls⟩ ∈
        (centralState desired).ports := mem_centralState.mpr ⟨b, hb, rfl⟩
    exact ⟨_, he, rfl, binding_of_mem_centralState (hd port b hb).2 hb he⟩
  · rintro ⟨e, he, rfl, hbinding⟩
    obtain ⟨b', hb', -⟩ := mem_centralState.mp he
    rw [← hbinding, binding_of_mem_centralState (hd e.port b' hb').2 hb' he]
    exact hb'

private theorem files_of_writeFile {role : Role} {path : Path} {text : Text} {c : Choice}
    {w : World} (h : (exec (.writeFile role path text) c w).2 = .ok ()) :
    (exec (.writeFile role path text) c w).1.files role path = some text := by
  cases c with
  | works n => simp [exec, World.setFile]
  | fails n =>
    cases n with
    | zero => cases h
    | succ n => cases h

/-- A write of a document that succeeds leaves its text in the file. -/
theorem files_of_writeCentral {host : Host} {path : Path} {env : machine.Env} {w : World}
    (h : (machine.run (writeCentral host path desired).run env w).2 = .ok ()) :
    (machine.run (writeCentral host path desired).run env w).1.files .central path =
      some (host.encodeCentral (centralState desired)) := by
  obtain ⟨-, t, env', -, -, hwrite⟩ := Machine.run_bind_ok (Prod.ext rfl h)
  let o := Op.writeFile .central path (host.encodeCentral (centralState desired))
  have hstep : ((exec o (env' 0 o) t).1,
      orFail s!"write central desired state {shown path}" (exec o (env' 0 o) t).2) =
      ((machine.run (writeCentral host path desired).run env w).1, .ok ()) := hwrite
  obtain ⟨hworld, hanswer⟩ := Prod.mk.inj hstep
  rw [← hworld]
  exact files_of_writeFile ((orFail_eq_ok _ _ _).mp hanswer)

/-- With a JSON writer whose text of a document reads back, what `write` leaves of a state is read
as that state. A document of version 1 is read exactly where its entries name no port 0 and agree on
the binding of each port, as the map of these bindings. -/
theorem central_roundTrip_determinate (host : Host) :
    (∀ desired : DesiredPorts,
      (∀ (port : Port) (b : PortBinding), desired[port]? = some b →
        port ≠ 0 ∧ (b.slot = redirPrimary ∨ b.slot = redirTls)) →
      host.decodeCentral (host.encodeCentral (centralState desired)) =
        some (centralState desired) →
      ∀ (path : Path) (env : machine.Env) (w : World),
        (machine.run (writeCentral host path desired).run env w).2 = .ok () →
        ∃ raw, (machine.run (writeCentral host path desired).run env w).1.files .central path =
          some raw ∧ loadFromStr host raw = .ok desired) ∧
      ∀ (raw : Text) (state : CentralState), host.decodeCentral raw = some state →
        state.version = 1 →
        ((∃ desired, loadFromStr host raw = .ok desired) ↔
          (∀ e ∈ state.ports, e.port ≠ 0) ∧
            ∀ e ∈ state.ports, ∀ e' ∈ state.ports, e.port = e'.port → e.binding = e'.binding) ∧
          ∀ desired, loadFromStr host raw = .ok desired →
            ∀ (port : Port) (b : PortBinding), desired[port]? = some b ↔
              ∃ e ∈ state.ports, e.port = port ∧ e.binding = b := by
  constructor
  · intro desired hd hjson path env w h
    exact ⟨_, files_of_writeCentral h, loadFromStr_encode hd hjson⟩
  · intro raw state hraw hversion
    have hunbound (e : CentralPort) (old : PortBinding) :
        (∅ : DesiredPorts)[e.port]? = some old → old = e.binding := by simp
    refine ⟨?_, ?_⟩
    · constructor
      · rintro ⟨desired, h⟩
        obtain ⟨hagree, -⟩ := (loadFromStr_eq_ok hraw hversion).mp h
        exact ⟨fun e he ↦ (hagree e he).1, fun e he ↦ (hagree e he).2.2⟩
      · rintro ⟨hports, hsame⟩
        have hagree : EntriesAgree ∅ state.ports :=
          fun e he ↦ ⟨hports e he, hunbound e, hsame e he⟩
        exact ⟨_, (loadFromStr_eq_ok hraw hversion).mpr ⟨hagree, rfl⟩⟩
    · intro desired h port b
      obtain ⟨hagree, rfl⟩ := (loadFromStr_eq_ok hraw hversion).mp h
      rw [getElem?_bindEntries hagree]
      simp

private def onePortState : DesiredPorts :=
  (∅ : DesiredPorts).insert 18081 ⟨redirTls, "acme".toList, "www".toList, none, none⟩

private def onePortText : Text :=
  ("\x7b\n  \"version\": 1,\n  \"ports\": [\n    \x7b\n      \"tenant\": \"acme\",\n" ++
    "      \"site\": \"www\",\n      \"port\": 18081,\n      \"cert\": null,\n" ++
    "      \"policy\": null,\n      \"tls\": true\n    \x7d\n  ]\n\x7d").toList

private def onePortWriter : Host :=
  { Host.plain with
    encodeCentral := fun state ↦ if state = centralState onePortState then onePortText else []
    decodeCentral := fun raw ↦
      if raw = onePortText then some (centralState onePortState) else none }

/-- A state with a TLS port is written and read back. -/
theorem central_roundTrip_onePort :
    ∃ raw, (machine.run (writeCentral onePortWriter "central/out.json".toList onePortState).run
        works (World.plain (fun _ _ ↦ none))).1.files .central "central/out.json".toList =
          some raw ∧
      loadFromStr onePortWriter raw = .ok onePortState := by
  have hstate : ∀ (port : Port) (b : PortBinding), onePortState[port]? = some b →
      port ≠ 0 ∧ (b.slot = redirPrimary ∨ b.slot = redirTls) := by
    intro port b hb
    rw [onePortState, Std.ExtTreeMap.getElem?_insert] at hb
    split at hb
    · next hport =>
      rw [← Std.LawfulEqCmp.eq_of_compare hport, ← Option.some.inj hb]
      exact ⟨by decide, .inr rfl⟩
    · simp at hb
  refine (central_roundTrip_determinate onePortWriter).1 onePortState hstate ?_ _ works _ ?_
  · simp [onePortWriter]
  · rfl

end SkLookup
