import SkLookup.Desired.Format

/-!
# Reading back a written desired file

The writer puts identities into the file as they are; the reader cuts every line at its
first `#`. A state that passes `Policy.validate` is read back exactly when no identity
contains that character and port 0 is not bound.
-/

namespace SkLookup

open Codec

section Line

variable {port : Port} {b : PortBinding}

private theorem bindingWords_wellNamed (hn : Policy.WellNamed b) :
    ∀ w ∈ bindingWords port b, w ≠ [] ∧ ∀ c ∈ w, isWhitespace c = false := by
  have hpre {p : Text} (hp : p ≠ [] ∧ ∀ c ∈ p, isWhitespace c = false) {v : Text}
      (hv : b.Identity v) : p ++ v ≠ [] ∧ ∀ c ∈ p ++ v, isWhitespace c = false := by
    refine ⟨by simp [hp.1], fun c hc ↦ ?_⟩
    rcases List.mem_append.mp hc with hc | hc
    · exact hp.2 c hc
    · exact (hn v hv).2 c hc
  intro w hw
  simp only [bindingWords, List.mem_append, List.mem_cons, List.not_mem_nil, or_false,
    Option.mem_toList, Option.map_eq_some_iff] at hw
  rcases hw with (((rfl | rfl | rfl) | hw) | ⟨v, hv, rfl⟩) | ⟨v, hv, rfl⟩
  · exact ⟨decimal_ne_nil _, fun c hc ↦ isWhitespace_of_isDigit (isDigit_of_mem_decimal hc)⟩
  · exact hn _ (.inl rfl)
  · exact hn _ (.inr (.inl rfl))
  · split at hw
    · rw [List.mem_singleton.mp hw]
      decide
    · cases hw
  · exact hpre (by decide) (.inr (.inr (.inl hv)))
  · exact hpre (by decide) (.inr (.inr (.inr hv)))

private theorem hash_not_mem_bindingWords (hf : b.HashFree) :
    ∀ w ∈ bindingWords port b, '#' ∉ w := by
  intro w hw hc
  simp only [bindingWords, List.mem_append, List.mem_cons, List.not_mem_nil, or_false,
    Option.mem_toList, Option.map_eq_some_iff] at hw
  rcases hw with (((rfl | rfl | rfl) | hw) | ⟨v, hv, rfl⟩) | ⟨v, hv, rfl⟩
  · exact absurd (isDigit_of_mem_decimal hc) (by decide)
  · exact hf _ (.inl rfl) hc
  · exact hf _ (.inr (.inl rfl)) hc
  · split at hw
    · rw [List.mem_singleton.mp hw] at hc
      exact absurd hc (by decide)
    · cases hw
  · rcases List.mem_append.mp hc with hc | hc
    · exact absurd hc (by decide)
    · exact hf v (.inr (.inr (.inl hv))) hc
  · rcases List.mem_append.mp hc with hc | hc
    · exact absurd hc (by decide)
    · exact hf v (.inr (.inr (.inr hv))) hc

private theorem isWhitespace_head?_unwords {ws : List Text}
    (hw : ∀ w ∈ ws, w ≠ [] ∧ ∀ c ∈ w, isWhitespace c = false) {c : Char}
    (hc : (unwords ws).head? = some c) : isWhitespace c = false := by
  match ws with
  | [] => cases hc
  | [w] => exact (hw w List.mem_cons_self).2 c (List.mem_of_head? hc)
  | [] :: v :: ws => exact absurd rfl (hw [] List.mem_cons_self).1
  | (d :: w) :: v :: ws =>
    rw [← Option.some.inj hc]
    exact (hw (d :: w) List.mem_cons_self).2 d List.mem_cons_self

private theorem isWhitespace_getLast?_unwords {ws : List Text}
    (hw : ∀ w ∈ ws, w ≠ [] ∧ ∀ c ∈ w, isWhitespace c = false) {c : Char}
    (hc : (unwords ws).getLast? = some c) : isWhitespace c = false := by
  rw [getLast?_unwords (fun w hm ↦ (hw w hm).1)] at hc
  obtain ⟨w, hl, hc⟩ := Option.bind_eq_some_iff.mp hc
  exact (hw w (List.mem_of_getLast? hl)).2 c (List.mem_of_getLast? hc)

/-- Words with single spaces between them have no comment and no outer white space to lose. -/
theorem stripComment_unwords {ws : List Text}
    (hw : ∀ w ∈ ws, w ≠ [] ∧ ∀ c ∈ w, isWhitespace c = false) (hh : ∀ w ∈ ws, '#' ∉ w) :
    stripComment (unwords ws) = unwords ws := by
  have hnone : '#' ∉ unwords ws := by
    intro hc
    rcases mem_unwords hc with hc | ⟨w, hm, hc⟩
    · exact absurd hc (by decide)
    · exact hh w hm hc
  rw [stripComment, before_eq_self hnone]
  exact trim_eq_self (fun c hc ↦ isWhitespace_head?_unwords hw hc)
    (fun c hc ↦ isWhitespace_getLast?_unwords hw hc)

/-- A written line has no comment and no outer white space to lose. -/
theorem stripComment_bindingLine (hn : Policy.WellNamed b) (hf : b.HashFree) :
    stripComment (unwords (bindingWords port b)) = unwords (bindingWords port b) :=
  stripComment_unwords (bindingWords_wellNamed hn) (hash_not_mem_bindingWords hf)

private theorem parseTokens_policy (lineNo : Nat) (slot : Slot) (cert policy : Option Text) :
    parseTokens lineNo (policy.map ("policy=".toList ++ ·)).toList ⟨slot, cert, none⟩ =
      .ok ⟨slot, cert, policy⟩ := by
  cases policy with
  | none => rfl
  | some id => simp [parseTokens, parseToken, bind, Except.bind]

private theorem parseTokens_cert (lineNo : Nat) (slot : Slot) (cert policy : Option Text) :
    parseTokens lineNo ((cert.map ("cert=".toList ++ ·)).toList ++
      (policy.map ("policy=".toList ++ ·)).toList) ⟨slot, none, none⟩ =
      .ok ⟨slot, cert, policy⟩ := by
  cases cert with
  | none => exact parseTokens_policy lineNo slot none policy
  | some id =>
    have h : parseToken lineNo ("cert=".toList ++ id) ⟨slot, none, none⟩ =
        .ok ⟨slot, some id, none⟩ := by
      simp [parseToken]
    change (parseToken lineNo ("cert=".toList ++ id) ⟨slot, none, none⟩ >>= _) = _
    rw [h]
    exact parseTokens_policy lineNo slot (some id) policy

/-- The optional words of a written line parse to the fields they were written from. -/
private theorem parseTokens_written (lineNo : Nat)
    (hs : b.slot = redirPrimary ∨ b.slot = redirTls) :
    parseTokens lineNo ((if b.slot = redirTls then ["tls".toList] else []) ++
      (b.cert.map ("cert=".toList ++ ·)).toList ++
      (b.policy.map ("policy=".toList ++ ·)).toList) ⟨redirPrimary, none, none⟩ =
      .ok ⟨b.slot, b.cert, b.policy⟩ := by
  rw [List.append_assoc]
  rcases hs with hs | hs
  · rw [if_neg (by rw [hs]; decide), hs]
    exact parseTokens_cert lineNo redirPrimary b.cert b.policy
  · rw [if_pos hs, hs]
    exact parseTokens_cert lineNo redirTls b.cert b.policy

/-- A written line parses to its port and binding. -/
theorem parseLine_bindingLine (lineNo : Nat) (hn : Policy.WellNamed b)
    (he : Expressible port b) :
    parseLine lineNo (unwords (bindingWords port b)) = .ok ([port], b) := by
  have hw := @bindingWords_wellNamed port b hn
  rw [parseLine, words_unwords (fun w hm ↦ (hw w hm).1) (fun w hm ↦ (hw w hm).2)]
  simp only [bindingWords, List.cons_append, List.nil_append]
  rw [parseTokens_written lineNo he.slot_le, parsePortListFlexible_decimal he.port_ne_zero]
  rfl

end Line

/-- Reading the written lines of fresh ports inserts them one after the other. -/
private theorem loadLines_bindingLines {policy : Policy} {entries : List (Port × PortBinding)}
    {lineNo : Nat} {desired : DesiredPorts}
    (hv : ∀ e ∈ entries, Policy.validateBinding e.1 e.2 policy = .ok ())
    (he : ∀ e ∈ entries, Expressible e.1 e.2)
    (hd : entries.Pairwise (fun a b ↦ a.1 ≠ b.1)) (hf : ∀ e ∈ entries, e.1 ∉ desired) :
    loadLines policy lineNo (entries.map (fun e ↦ unwords (bindingWords e.1 e.2))) desired =
      .ok (desired.insertMany entries) := by
  induction entries generalizing lineNo desired with
  | nil => rfl
  | cons e entries ih =>
    obtain ⟨port, b⟩ := e
    have hvb := hv (port, b) List.mem_cons_self
    have heb := he (port, b) List.mem_cons_self
    have hn : Policy.WellNamed b := (Policy.validateBinding_eq_ok.mp hvb).1
    have hfresh : desired[port]? = none :=
      Std.ExtTreeMap.getElem?_eq_none (hf (port, b) List.mem_cons_self)
    have hne : unwords (bindingWords port b) ≠ [] := by
      intro h
      have := congrArg words h
      rw [words_unwords (fun w hm ↦ (bindingWords_wellNamed hn w hm).1)
        (fun w hm ↦ (bindingWords_wellNamed hn w hm).2)] at this
      simp [bindingWords, words] at this
    have hbind : bindPorts lineNo b policy [port] desired = .ok (desired.insert port b) := by
      simp [bindPorts, hvb, hfresh, withContext, Except.mapError, bind, Except.bind]
    rw [List.map_cons, loadLines]
    dsimp only
    rw [stripComment_bindingLine hn heb.hashFree, if_neg hne, parseLine_bindingLine lineNo hn heb]
    change (bindPorts lineNo b policy [port] desired >>= _) = _
    rw [hbind, Std.ExtTreeMap.insertMany_cons]
    rw [List.pairwise_cons] at hd
    refine ih (fun e hm ↦ hv e (List.mem_cons_of_mem _ hm))
      (fun e hm ↦ he e (List.mem_cons_of_mem _ hm)) hd.2 ?_
    intro e hm hin
    rcases Std.ExtTreeMap.mem_insert.mp hin with hc | hin
    · exact hd.1 e hm (Std.LawfulEqCmp.eq_of_compare hc)
    · exact hf e (List.mem_cons_of_mem _ hm) hin

private theorem insertMany_toList (desired : DesiredPorts) :
    (∅ : DesiredPorts).insertMany desired.toList = desired := by
  rw [← Std.ExtTreeMap.ofList_eq_insertMany_empty]
  apply Std.ExtTreeMap.ext_getElem?
  intro port
  by_cases hm : port ∈ desired
  · have hb : desired[port]? = some desired[port] := Std.ExtTreeMap.getElem?_eq_some_getElem hm
    rw [hb]
    exact Std.ExtTreeMap.getElem?_ofList_of_mem Std.ReflCmp.compare_self
      Std.ExtTreeMap.distinct_keys_toList
      (Std.ExtTreeMap.mem_toList_iff_getElem?_eq_some.mpr hb)
  · rw [Std.ExtTreeMap.getElem?_eq_none hm]
    apply Std.ExtTreeMap.getElem?_ofList_of_contains_eq_false
    rw [Std.ExtTreeMap.map_fst_toList_eq_keys, List.contains_eq_mem, decide_eq_false_iff_not]
    exact fun h ↦ hm (Std.ExtTreeMap.mem_keys.mp h)

private theorem loadLines_headerLines (policy : Policy) (ls : List Text) (desired : DesiredPorts) :
    loadLines policy 1 (headerLines ++ ls) desired = loadLines policy 3 ls desired := rfl

private theorem newline_not_mem_headerLines : ∀ l ∈ headerLines, '\n' ∉ l := by decide

private theorem getLast?_headerLines : ∀ l ∈ headerLines, l.getLast? ≠ some '\r' := by decide

/-- The written text, line by line. -/
theorem desiredText_eq_unlines (desired : DesiredPorts) :
    desiredText desired =
      unlines (headerLines ++ desired.toList.map (fun e ↦ unwords (bindingWords e.1 e.2))) := by
  rw [desiredText, writePieces, unlines, List.map_append, List.map_map]
  rfl

/-- The lines that are read back when all identities are words. -/
theorem lines_desiredText {desired : DesiredPorts}
    (hn : ∀ (port : Port) (b : PortBinding), desired[port]? = some b → Policy.WellNamed b) :
    lines (desiredText desired) =
      headerLines ++ desired.toList.map (fun e ↦ unwords (bindingWords e.1 e.2)) := by
  replace hn (e) (he : e ∈ desired.toList) : Policy.WellNamed e.2 :=
    hn e.1 e.2 (Std.ExtTreeMap.mem_toList_iff_getElem?_eq_some.mp he)
  rw [desiredText_eq_unlines]
  apply lines_unlines
  · intro l hl hc
    rcases List.mem_append.mp hl with hl | hl
    · exact newline_not_mem_headerLines l hl hc
    · obtain ⟨e, he, rfl⟩ := List.mem_map.mp hl
      rcases mem_unwords hc with hc | ⟨w, hw, hc⟩
      · exact absurd hc (by decide)
      · exact absurd ((bindingWords_wellNamed (hn e he) w hw).2 _ hc) (by decide)
  · intro l hl hc
    rcases List.mem_append.mp hl with hl | hl
    · exact getLast?_headerLines l hl hc
    · obtain ⟨e, he, rfl⟩ := List.mem_map.mp hl
      exact absurd (isWhitespace_getLast?_unwords (bindingWords_wellNamed (hn e he)) hc)
        (by decide)

/-- A valid state that a file can express is read back from its text. -/
theorem load_desiredText {desired : DesiredPorts} {policy : Policy}
    (hv : Policy.validate desired policy = .ok ()) (hw : Writable desired) :
    loadFromReaderWithPolicy (desiredText desired) policy = .ok desired := by
  rw [load_eq_ok]
  refine ⟨?_, hv⟩
  rw [lines_desiredText (fun _ _ ↦ Policy.wellNamed_of_validate hv), loadLines_headerLines,
    loadLines_bindingLines, insertMany_toList]
  · intro e he
    exact Policy.validateBinding_of_validate hv
      (Std.ExtTreeMap.mem_toList_iff_getElem?_eq_some.mp he)
  · intro e he
    exact hw e.1 e.2 (Std.ExtTreeMap.mem_toList_iff_getElem?_eq_some.mp he)
  · refine Std.ExtTreeMap.distinct_keys_toList.imp ?_
    intro a b hab he
    exact hab (he ▸ Std.ReflCmp.compare_self)
  · simp

/-- A state that passes the policy is read back from its text exactly when no identity
contains `#` and port 0 is not bound. -/
theorem load_desiredText_eq_ok_iff (policy : Policy) (desired : DesiredPorts)
    (hs : ∀ (port : Port) (b : PortBinding), desired[port]? = some b →
      b.slot = redirPrimary ∨ b.slot = redirTls)
    (hv : Policy.validate desired policy = .ok ()) :
    loadFromReaderWithPolicy (desiredText desired) policy = .ok desired ↔
      (∀ (port : Port) (b : PortBinding), desired[port]? = some b → b.HashFree) ∧
        0 ∉ desired := by
  constructor
  · intro h
    have hw := writable_of_load h
    refine ⟨fun port b hb ↦ (hw port b hb).hashFree, fun h₀ ↦ ?_⟩
    exact (hw 0 _ (Std.ExtTreeMap.getElem?_eq_some_getElem h₀)).port_ne_zero rfl
  · rintro ⟨hf, h₀⟩
    apply load_desiredText hv
    intro port b hb
    refine ⟨?_, hs port b hb, hf port b hb⟩
    rintro rfl
    exact h₀ (Std.ExtTreeMap.mem_iff_isSome_getElem?.mpr (by simp [hb]))

/-- One port bound to a tenant and a site. -/
def singleton (port : Port) (tenant site : Text) : DesiredPorts :=
  (∅ : DesiredPorts).insert port ⟨redirPrimary, tenant, site, none, none⟩

/-- The bindings of a one-port state. -/
theorem getElem?_singleton {port q : Port} {tenant site : Text} {b : PortBinding}
    (h : (singleton port tenant site)[q]? = some b) :
    q = port ∧ b = ⟨redirPrimary, tenant, site, none, none⟩ := by
  rw [singleton, Std.ExtTreeMap.getElem?_insert] at h
  split at h
  · next hc => exact ⟨(Std.LawfulEqCmp.eq_of_compare hc).symm, (Option.some.inj h).symm⟩
  · simp at h

/-- The condition of `load_desiredText_eq_ok_iff` at an ordinary state. -/
theorem load_desiredText_eq_ok_iff_acme :
    loadFromReaderWithPolicy (desiredText (singleton 18081 "acme".toList "www".toList))
        Policy.default = .ok (singleton 18081 "acme".toList "www".toList) ↔
      (∀ (port : Port) (b : PortBinding),
        (singleton 18081 "acme".toList "www".toList)[port]? = some b → b.HashFree) ∧
        0 ∉ singleton 18081 "acme".toList "www".toList :=
  load_desiredText_eq_ok_iff Policy.default _
    (fun _ _ hb ↦ .inl (by rw [(getElem?_singleton hb).2])) (by decide)

/-- A tenant name with a comment character passes the policy and makes the file unreadable. -/
theorem load_desiredText_hash_tenant :
    ¬ ∀ (policy : Policy) (desired : DesiredPorts),
      (∀ (port : Port) (b : PortBinding), desired[port]? = some b →
        b.slot = redirPrimary ∨ b.slot = redirTls) →
      Policy.validate desired policy = .ok () →
      loadFromReaderWithPolicy (desiredText desired) policy = .ok desired := by
  intro h
  have hl := h Policy.default (singleton 18081 "a#b".toList "www".toList)
    (fun _ _ hb ↦ .inl (by rw [(getElem?_singleton hb).2])) (by decide)
  have hn : (loadFromReaderWithPolicy (desiredText (singleton 18081 "a#b".toList "www".toList))
      Policy.default).isOk = false := by decide
  rw [hl] at hn
  cases hn

end SkLookup
