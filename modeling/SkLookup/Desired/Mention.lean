import SkLookup.Desired.RoundTrip

/-!
# The ports a file lists

A port is listed by a desired file when some line names it first, whatever the rest of the
line says and whether or not the file is accepted as a whole. Reading a file yields listed
ports only, and writing a state lists its ports only. A written file that is accepted holds all
ports of its state, with their bindings where the file can express them.
-/

namespace SkLookup

open Codec

/-- A line names the port in its first word. -/
def NamesPort (line : Text) (port : Port) : Prop :=
  ∃ spec rest ports, words (stripComment line) = spec :: rest ∧
    parsePortListFlexible spec = .ok ports ∧ port ∈ ports

/-- A text lists the port. -/
def Mentions (text : Text) (port : Port) : Prop := ∃ line ∈ lines text, NamesPort line port

/-- The ports of a parsed line are named by it. -/
private theorem namesPort_of_parseLine {lineNo : Nat} {line : Text} {ports : List Port}
    {binding : PortBinding} (h : parseLine lineNo (stripComment line) = .ok (ports, binding))
    {port : Port} (hp : port ∈ ports) : NamesPort line port := by
  unfold parseLine at h
  split at h
  · next spec tenant site rest hw =>
    obtain ⟨tokens, -, h⟩ := bind_eq_ok.mp h
    obtain ⟨ps, hps, h⟩ := bind_eq_ok.mp h
    obtain ⟨rfl, -⟩ := Prod.mk.inj (Except.ok.inj h)
    exact ⟨spec, _, ps, hw, (withContext_eq_ok _ _ _).mp hps, hp⟩
  · exact absurd h (bail_ne_ok _ _)

private theorem mem_of_bindPorts {lineNo : Nat} {binding : PortBinding} {policy : Policy}
    {ports : List Port} {desired desired' : DesiredPorts}
    (h : bindPorts lineNo binding policy ports desired = .ok desired') {port : Port}
    (hp : port ∈ desired') : port ∈ ports ∨ port ∈ desired := by
  induction ports generalizing desired with
  | nil => exact .inr (Except.ok.inj h ▸ hp)
  | cons q ports ih =>
    have hinsert (h : bindPorts lineNo binding policy ports (desired.insert q binding) =
        .ok desired') : port ∈ q :: ports ∨ port ∈ desired := by
      rcases ih h with hp | hp
      · exact .inl (List.mem_cons_of_mem _ hp)
      · rcases Std.ExtTreeMap.mem_insert.mp hp with hc | hp
        · exact .inl (Std.LawfulEqCmp.eq_of_compare hc ▸ List.mem_cons_self)
        · exact .inr hp
    obtain ⟨-, h⟩ := check_eq_ok.mp h
    split at h
    · split at h
      · exact absurd h (bail_ne_ok _ _)
      · exact hinsert h
    · exact hinsert h

private theorem namesPort_of_loadLines {policy : Policy} {lineNo : Nat} {ls : List Text}
    {desired desired' : DesiredPorts} (h : loadLines policy lineNo ls desired = .ok desired')
    {port : Port} (hp : port ∈ desired') : (∃ line ∈ ls, NamesPort line port) ∨ port ∈ desired := by
  induction ls generalizing lineNo desired with
  | nil => exact .inr (Except.ok.inj h ▸ hp)
  | cons line ls ih =>
    have hrest {next : DesiredPorts} (h : loadLines policy (lineNo + 1) ls next = .ok desired') :
        (∃ line' ∈ line :: ls, NamesPort line' port) ∨ port ∈ next := by
      rcases ih h with ⟨line', hl, hn⟩ | hp
      · exact .inl ⟨line', List.mem_cons_of_mem _ hl, hn⟩
      · exact .inr hp
    rw [loadLines] at h
    dsimp only at h
    split at h
    · exact hrest h
    · obtain ⟨⟨ports, binding⟩, hl, h⟩ := bind_eq_ok.mp h
      obtain ⟨next, hb, h⟩ := bind_eq_ok.mp h
      rcases hrest h with hm | hp
      · exact .inl hm
      · rcases mem_of_bindPorts hb hp with hp | hp
        · exact .inl ⟨line, List.mem_cons_self, namesPort_of_parseLine hl hp⟩
        · exact .inr hp

/-- Every port read from a text is listed by it. -/
theorem mentions_of_load {text : Text} {policy : Policy} {desired : DesiredPorts}
    (h : loadFromReaderWithPolicy text policy = .ok desired) {port : Port}
    (hp : port ∈ desired) : Mentions text port := by
  rcases namesPort_of_loadLines (load_eq_ok.mp h).1 hp with hm | hp
  · exact hm
  · simp at hp

/-- A written line begins with its port, also where a comment character cuts it. -/
private theorem words_bindingLine (p : Port) (b : PortBinding) :
    ∃ rest, words (stripComment (unwords (bindingWords p b))) = decimal p.toNat :: rest := by
  have hdigit {c : Char} (hc : c ∈ decimal p.toNat) : c.isDigit = true := isDigit_of_mem_decimal hc
  have hspace : ∀ c ∈ decimal p.toNat, isWhitespace c = false :=
    fun c hc ↦ isWhitespace_of_isDigit (hdigit hc)
  have hline : ∃ t, unwords (bindingWords p b) = decimal p.toNat ++ ' ' :: t := ⟨_, rfl⟩
  obtain ⟨t, ht⟩ := hline
  have hhash : '#' ∉ decimal p.toNat ++ [' '] := by
    intro hc
    rcases List.mem_append.mp hc with hc | hc
    · exact absurd (hdigit hc) (by decide)
    · exact absurd (List.mem_singleton.mp hc) (by decide)
  have hcut : before '#' (unwords (bindingWords p b)) = decimal p.toNat ++ ' ' :: before '#' t := by
    have := before_append hhash t
    rwa [List.append_assoc, List.append_assoc, List.singleton_append, List.singleton_append,
      ← ht] at this
  rw [stripComment, hcut]
  rcases trim_append_space (decimal_ne_nil _) hspace (before '#' t) with hs | ⟨u, hs⟩
  · exact ⟨[], by rw [hs, words_single (decimal_ne_nil _) hspace]⟩
  · exact ⟨words u, by rw [hs, words_append_space (decimal_ne_nil _) hspace]⟩

/-- The first word of a written line stands for its port alone. -/
private theorem eq_singleton_of_parse {p : Port} {ports : List Port}
    (h : parsePortListFlexible (decimal p.toNat) = .ok ports) : ports = [p] := by
  by_cases hz : p = 0
  · have hzero : (parsePortListFlexible (decimal (0 : Port).toNat)).isOk = false := by decide
    rw [← hz, h] at hzero
    cases hzero
  · rw [parsePortListFlexible_decimal hz] at h
    exact (Except.ok.inj h).symm

/-- A written line names its own port at most. -/
private theorem eq_of_namesPort_bindingLine {p port : Port} {b : PortBinding}
    (h : NamesPort (unwords (bindingWords p b)) port) : port = p := by
  obtain ⟨spec, rest, ports, hw, hp, hm⟩ := h
  obtain ⟨rest', hw'⟩ := words_bindingLine p b
  have hspec : spec = decimal p.toNat := (List.cons.inj (hw.symm.trans hw')).1
  rw [hspec] at hp
  rw [eq_singleton_of_parse hp] at hm
  exact List.mem_singleton.mp hm

private theorem not_namesPort_headerLines {line : Text} (h : line ∈ headerLines) (port : Port) :
    ¬NamesPort line port := by
  have hempty : ∀ l ∈ headerLines, words (stripComment l) = [] := by decide
  rintro ⟨spec, rest, ports, hw, -⟩
  rw [hempty line h] at hw
  cases hw

/-- The text of a state with words for identities lists ports of the state only. -/
theorem mem_of_mentions_desiredText {desired : DesiredPorts}
    (hn : ∀ (port : Port) (b : PortBinding), desired[port]? = some b → Policy.WellNamed b)
    {port : Port} (h : Mentions (desiredText desired) port) : port ∈ desired := by
  obtain ⟨line, hl, hp⟩ := h
  rw [lines_desiredText hn] at hl
  rcases List.mem_append.mp hl with hl | hl
  · exact absurd hp (not_namesPort_headerLines hl port)
  · obtain ⟨e, he, rfl⟩ := List.mem_map.mp hl
    rw [eq_of_namesPort_bindingLine hp]
    exact Std.ExtTreeMap.mem_iff_isSome_getElem?.mpr
      (by rw [Std.ExtTreeMap.mem_toList_iff_getElem?_eq_some.mp he]; rfl)

/-! ### What reading back keeps -/

/-- Binding the ports of a line keeps the bindings there are. -/
private theorem getElem?_bindPorts {lineNo : Nat} {binding : PortBinding} {policy : Policy}
    {ports : List Port} {desired desired' : DesiredPorts}
    (h : bindPorts lineNo binding policy ports desired = .ok desired') :
    (∀ (p : Port) (b : PortBinding), desired[p]? = some b → desired'[p]? = some b) ∧
      ∀ p ∈ ports, desired'[p]? = some binding := by
  induction ports generalizing desired with
  | nil =>
    obtain rfl := Except.ok.inj h
    exact ⟨fun _ _ hb ↦ hb, nofun⟩
  | cons q ports ih =>
    have hinsert (hq : ∀ old, desired[q]? = some old → old = binding)
        (h : bindPorts lineNo binding policy ports (desired.insert q binding) = .ok desired') :
        (∀ (p : Port) (b : PortBinding), desired[p]? = some b → desired'[p]? = some b) ∧
          ∀ p ∈ q :: ports, desired'[p]? = some binding := by
      obtain ⟨hkeep, hbound⟩ := ih h
      have hself : desired'[q]? = some binding :=
        hkeep q binding (by rw [Std.ExtTreeMap.getElem?_insert_self])
      refine ⟨fun p b hb ↦ ?_, fun p hp ↦ ?_⟩
      · by_cases hpq : p = q
        · rw [hpq, hself, ← hq b (hpq ▸ hb)]
        · apply hkeep
          rw [Std.ExtTreeMap.getElem?_insert, if_neg]
          · exact hb
          · exact fun hc ↦ hpq (Std.LawfulEqCmp.eq_of_compare hc).symm
      · rcases List.mem_cons.mp hp with rfl | hp
        · exact hself
        · exact hbound p hp
    obtain ⟨-, h⟩ := check_eq_ok.mp h
    split at h
    · next old hold =>
      split at h
      · exact absurd h (bail_ne_ok _ _)
      · next heq =>
        refine hinsert (fun old' hold' ↦ ?_) h
        rw [← Option.some.inj (hold.symm.trans hold')]
        exact Decidable.of_not_not heq
    · next hnone => exact hinsert (fun old hold ↦ by rw [hnone] at hold; cases hold) h

/-- Every line of an accepted text that is not blank is parsed, and its ports keep its binding. -/
private theorem getElem?_loadLines {policy : Policy} {lineNo : Nat} {ls : List Text}
    {desired desired' : DesiredPorts} (h : loadLines policy lineNo ls desired = .ok desired') :
    (∀ (p : Port) (b : PortBinding), desired[p]? = some b → desired'[p]? = some b) ∧
      ∀ line ∈ ls, stripComment line ≠ [] → ∃ n ports b,
        parseLine n (stripComment line) = .ok (ports, b) ∧ ∀ p ∈ ports, desired'[p]? = some b := by
  induction ls generalizing lineNo desired with
  | nil =>
    obtain rfl := Except.ok.inj h
    exact ⟨fun _ _ hb ↦ hb, nofun⟩
  | cons line ls ih =>
    rw [loadLines] at h
    dsimp only at h
    split at h
    · next hblank =>
      obtain ⟨hkeep, hlines⟩ := ih h
      refine ⟨hkeep, fun line' hl hne ↦ ?_⟩
      rcases List.mem_cons.mp hl with rfl | hl
      · exact absurd hblank hne
      · exact hlines line' hl hne
    · obtain ⟨⟨ports, binding⟩, hp, h⟩ := bind_eq_ok.mp h
      obtain ⟨next, hb, h⟩ := bind_eq_ok.mp h
      obtain ⟨hkeep, hlines⟩ := ih h
      obtain ⟨hold, hnew⟩ := getElem?_bindPorts hb
      refine ⟨fun p b hpb ↦ hkeep p b (hold p b hpb), fun line' hl hne ↦ ?_⟩
      rcases List.mem_cons.mp hl with rfl | hl
      · exact ⟨lineNo, ports, binding, hp, fun p hin ↦ hkeep p binding (hnew p hin)⟩
      · exact hlines line' hl hne

/-- An accepted text of a state binds all ports of the state, and as the state does where a line
can express that. -/
theorem getElem?_of_load_desiredText {desired desired' : DesiredPorts} {policy : Policy}
    (hn : ∀ (port : Port) (b : PortBinding), desired[port]? = some b → Policy.WellNamed b)
    (h : loadFromReaderWithPolicy (desiredText desired) policy = .ok desired') {port : Port}
    {b : PortBinding} (hb : desired[port]? = some b) :
    ∃ b', desired'[port]? = some b' ∧ (Expressible port b → b' = b) := by
  have hload := (load_eq_ok.mp h).1
  rw [lines_desiredText hn] at hload
  have hline : unwords (bindingWords port b) ∈
      headerLines ++ desired.toList.map (fun e ↦ unwords (bindingWords e.1 e.2)) :=
    List.mem_append_right _ (List.mem_map.mpr
      ⟨(port, b), Std.ExtTreeMap.mem_toList_iff_getElem?_eq_some.mpr hb, rfl⟩)
  obtain ⟨rest, hwords⟩ := words_bindingLine port b
  have hne : stripComment (unwords (bindingWords port b)) ≠ [] := by
    intro hnil
    rw [hnil] at hwords
    cases hwords
  obtain ⟨n, ports, b', hparse, hbound⟩ := (getElem?_loadLines hload).2 _ hline hne
  have hport : ports = [port] := by
    have hp := hparse
    unfold parseLine at hp
    split at hp
    · next spec tenant site tokens hw =>
      obtain ⟨tokens', -, hp⟩ := bind_eq_ok.mp hp
      obtain ⟨ps, hps, hp⟩ := bind_eq_ok.mp hp
      have hspec : spec = decimal port.toNat := (List.cons.inj (hw.symm.trans hwords)).1
      rw [hspec] at hps
      rw [← (Prod.mk.inj (Except.ok.inj hp)).1]
      exact eq_singleton_of_parse ((withContext_eq_ok _ _ _).mp hps)
    · exact absurd hp (bail_ne_ok _ _)
  refine ⟨b', hbound port (hport ▸ List.mem_singleton_self port), fun he ↦ ?_⟩
  have hwell := hn port b hb
  rw [stripComment_bindingLine hwell he.hashFree, parseLine_bindingLine n hwell he] at hparse
  exact (Prod.mk.inj (Except.ok.inj hparse)).2.symm

/-- Whoever accepts the text of the state reads the state. -/
def ReadsBack (desired : DesiredPorts) : Prop :=
  ∀ policy d, loadFromReaderWithPolicy (desiredText desired) policy = .ok d → d = desired

/-- A state that a file can express reads back. -/
theorem readsBack_of_writable {desired : DesiredPorts}
    (hn : ∀ (port : Port) (b : PortBinding), desired[port]? = some b → Policy.WellNamed b)
    (hw : Writable desired) : ReadsBack desired := by
  intro policy d hload
  apply Std.ExtTreeMap.ext_getElem?
  intro port
  cases hb : desired[port]? with
  | some b =>
    obtain ⟨b', hb', heq⟩ := getElem?_of_load_desiredText hn hload hb
    rw [hb', heq (hw port b hb)]
  | none =>
    have hnot : port ∉ d := by
      intro hp
      have hmem := mem_of_mentions_desiredText hn (mentions_of_load hload hp)
      rw [Std.ExtTreeMap.mem_iff_isSome_getElem?, hb] at hmem
      cases hmem
    exact Std.ExtTreeMap.getElem?_eq_none hnot

end SkLookup
