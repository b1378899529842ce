import SkLookup.Recovery.Seen

/-!
# The parts of the recovery script

What each function of `src/scripts/recover.sh` asks before it acts, and what it has made sure of
when it ends well, whatever it is told and whatever fails.
-/

namespace SkLookup.Recovery

open Codec Effect Script

/-! ### What carries over -/

section Carried

variable {s : Settings} {hint : Hint} {x y : Seen}

/-- What is found of the units and of the file carries over. -/
theorem Acting.of_same (h : Acting s hint x) (hu : y.units = x.units)
    (hp : x.passed = true → y.passed = true) : Acting s hint y where
  acts := h.acts
  dry := h.dry
  units hl unit := hu ▸ h.units hl unit
  passed hn := hp (h.passed hn)

/-- What is kept where nothing is asked about the units or the map, and nothing is done to them. -/
structure Kept (x y : Seen) : Prop where
  units : y.units = x.units
  passed : x.passed = true → y.passed = true
  onward : Onward x y

theorem Acting.kept (h : Acting s hint x) (hk : Kept x y) : Acting s hint y :=
  h.of_same hk.units hk.passed

end Carried

/-! ### Questions and what they tell -/

section Questions

variable {s : Settings} {hint : Hint} {x : Seen} {e : Bool} {Q : Ending → Seen → Prop}

/-- How a part ends where nothing is asked of an exit with an error. -/
abbrev Well (P R : Seen → Prop) : Ending → Seen → Prop := Ends P R fun _ ↦ True

theorem of_holds {c : Check} (hQ : ∀ ok, Q (.ofStatus ok) (x.noteCheck ok c)) :
    (hearsay s).wp (Allowed s hint) (holds c e) Q x :=
  ⟨trivial, fun c' ↦ hQ (c' (.check c))⟩

private theorem of_ask {c : Check} {k : Bool → Part}
    (hQ : ∀ ok, (hearsay s).wp (Allowed s hint) (k ok e) Q (x.noteCheck ok c)) :
    (hearsay s).wp (Allowed s hint) (Script.ask (S := sig) (.check c) k e) Q x :=
  ⟨trivial, fun c' ↦ hQ (c' (.check c))⟩

private theorem of_read {r : Reading} {k : r.Res → Part}
    (hQ : ∀ a, (hearsay s).wp (Allowed s hint) (k a e) Q (x.noteReading s r a)) :
    (hearsay s).wp (Allowed s hint) (read r k e) Q x :=
  ⟨trivial, fun c' ↦ hQ (c' (.reading r))⟩

private theorem of_perform {d : Deed} (ha : Allowed s hint x (.deed d))
    (hQ : ∀ ok, Q (.ofStatus ok) (x.noteDeed ok d)) :
    (hearsay s).wp (Allowed s hint) (perform d e) Q x :=
  ⟨ha, fun c' ↦ hQ (c' (.deed d))⟩

theorem of_loaderUp (hQ : ∀ pid, Q (.ofStatus (pid ≠ [])) (x.noteLoader pid)) :
    (hearsay s).wp (Allowed s hint) (loaderUp e) Q x :=
  of_read fun pid ↦ hQ pid

theorem of_listenUp (hQ : ∀ ok, Q (.ofStatus ok) (x.noteListening ok)) :
    (hearsay s).wp (Allowed s hint) (listenUp s e) Q x := by
  refine of_read fun inodes : Text ↦ ?_
  have hnote : x.noteReading s (.listenInodes s.target) inodes =
      x.noteListening (decide (inodes ≠ [])) := if_pos rfl
  rw [hnote]
  exact hQ (decide (inodes ≠ []))

theorem of_pinsOk
    (hQ : ∀ ok y, Kept x y → (ok = true → (∀ pin, y.pins pin = true) ∧ y.Knows .pins) →
      Q (.ofStatus ok) y) : (hearsay s).wp (Allowed s hint) (pinsOk e) Q x := by
  have hkept (y : Seen) (ok : Bool) (pin : Pin) (hy : Kept x y) :
      Kept x (y.noteCheck ok (.pinExists pin)) := by
    refine ⟨hy.units, hy.passed, hy.onward.trans fun f hf ↦ ?_⟩
    cases f with
    | pins => exact Bool.or_eq_true_iff.mpr (.inl hf)
    | _ => exact hf
  refine of_ask fun ok₁ ↦ ?_
  have h₁ := hkept x ok₁ .openPorts ⟨rfl, id, onward_refl x⟩
  cases ok₁ with
  | false => exact hQ false _ h₁ nofun
  | true =>
    refine of_ask fun ok₂ ↦ ?_
    have h₂ := hkept _ ok₂ .redirSocket h₁
    cases ok₂ with
    | false => exact hQ false _ h₂ nofun
    | true =>
      refine of_holds fun ok₃ ↦ hQ ok₃ _ (hkept _ ok₃ .skLookup h₂) ?_
      rintro rfl
      refine ⟨fun pin ↦ ?_, Bool.or_true _⟩
      cases pin <;> rfl

theorem of_validatePortsFile
    (hQ : ∀ ok there valid passed, (ok = true → valid = true ∧ passed = true) →
      (ok = false → there = false ∨ valid = false) → (x.passed = true → passed = true) →
      Q (.ofStatus ok) { x with portsThere := there, valid := valid, passed := passed }) :
    (hearsay s).wp (Allowed s hint) (validatePortsFile e) Q x := by
  refine wp_call.mpr <| wp_seq.mpr <| wp_branch.mpr <| wp_branch.mpr <| of_holds fun there ↦ ?_
  cases there with
  | false => exact hQ false false x.valid x.passed nofun (fun _ ↦ .inl rfl) id
  | true =>
    refine wp_seq.mpr <| wp_branch.mpr <| wp_branch.mpr <| of_read fun text : Option Text ↦ ?_
    rw [wp_test]
    have hkept (h : x.passed = true) : (x.passed || text.any validText) = true := by
      rw [h, Bool.true_or]
    cases htext : text.any validText with
    | false => exact hQ false true (text.any validText) _ nofun (fun _ ↦ .inr htext) hkept
    | true =>
      refine hQ true true (text.any validText) _ (fun _ ↦ ⟨htext, ?_⟩) nofun hkept
      rw [htext, Bool.or_true]

private theorem of_mapsMatchFile
    (hQ : ∀ ok there matched, (ok = true → matched = some true) →
      (ok = false → there = false ∨ matched = some false) →
      Q (.ofStatus ok) { x with portsThere := there, matched := matched }) :
    (hearsay s).wp (Allowed s hint) (mapsMatchFile e) Q x := by
  refine wp_call.mpr <| wp_branch.mpr <| of_holds fun there ↦ ?_
  cases there with
  | false => exact hQ false false x.matched nofun (fun _ ↦ .inl rfl)
  | true =>
    refine of_holds fun ok ↦ ?_
    rw [Ending.ofBody_ofStatus]
    exact hQ ok true (some ok) (congrArg some) (fun h ↦ .inr (congrArg some h))

/-- One unit after the other is asked about: the script finds a limit, or none is at its limit. -/
private theorem of_units {units : List ServiceUnit}
    (hx : ∀ unit, unit ∉ units → x.units unit = some false)
    (hlimited : ∀ results found, Q (.returned true) { x with results := results, units := found })
    (hfree : ∀ results found, (∀ unit, found unit = some false) →
      Q .success { x with results := results, units := found }) :
    (hearsay s).wp (Allowed s hint) (forEach units (fun unit ↦
      when (holds (.unitKnown unit))
        (read (.unitResult unit) fun result : Text ↦ read (.unitFailed unit) fun failed : Text ↦
          when (test (limited result failed)) (leave true))) e) Q x := by
  induction units generalizing x with
  | nil => exact hfree x.results x.units (fun unit ↦ hx unit List.not_mem_nil)
  | cons unit units ih =>
    have hnext (found : ServiceUnit → Option Bool)
        (hfound : found = Function.update x.units unit (some false)) :
        ∀ u, u ∉ units → found u = some false := by
      intro u hu
      rw [hfound]
      by_cases h : u = unit
      · rw [h, Function.update_self]
      · rw [Function.update_of_ne h]
        exact hx u (List.not_mem_cons_of_ne_of_not_mem h hu)
    refine wp_forEach_cons _ _ _ |>.mpr <| wp_branch.mpr <| of_holds fun known ↦ ?_
    cases known with
    | false => exact ih (hnext _ rfl) hlimited hfree
    | true =>
      refine of_read fun result : Text ↦ of_read fun failed : Text ↦ wp_branch.mpr ?_
      rw [wp_test]
      cases h : limited result failed with
      | true => exact hlimited _ _
      | false =>
        have hnone : limited (Function.update x.results unit result unit) failed = false := by
          rw [Function.update_self, h]
        exact ih (hnext _ (congrArg (fun b ↦ Function.update x.units unit (some b)) hnone))
          (fun _ _ ↦ hlimited _ _) (fun _ _ ↦ hfree _ _)

theorem of_startLimitHit
    (hQ : ∀ ok results found, (ok = false → ∀ unit, found unit = some false) →
      Q (.ofStatus ok) { x with results := results, units := found }) :
    (hearsay s).wp (Allowed s hint) (startLimitHit e) Q x := by
  refine wp_call.mpr <| wp_seq.mpr <| wp_branch.mpr <| of_holds fun there ↦ ?_
  cases there with
  | false => exact hQ false x.results _ (fun _ _ ↦ rfl)
  | true =>
    refine wp_seq.mpr <| of_units (fun unit hu ↦ ?_) (fun _ _ ↦ hQ true _ _ nofun)
      (fun _ _ hfree ↦ hQ false _ _ (fun _ ↦ hfree))
    cases unit with
    | loader => exact absurd List.mem_cons_self hu
    | openresty => exact absurd (List.mem_cons_of_mem _ List.mem_cons_self) hu

end Questions

/-! ### Parts that ask, and keep what was asked -/

section Mild

variable {s : Settings} {hint : Hint} {x : Seen} {e : Bool}

/-- What a case keeps in the state directory, and what it reads for that. -/
def Mild (hint : Hint) : Op → Prop
  | .check .stormFileThere => True
  | .reading .date | .reading .masterPid | .reading (.workerPids _) => True
  | .reading (.listenInodes _) => True
  | .deed .makeStateDir | .deed (.writeSnapshot _ _) => True
  | .deed (.pruneStorm _) | .deed .moveStorm | .deed (.appendStorm _) => hint.notesRescans = true
  | _ => False

private theorem kept_note {o : Op} (ho : Mild hint o) (r : o.Res) : Kept x (x.note s o r) := by
  cases o with
  | check c => cases c <;> first | exact ho.elim | exact ⟨rfl, id, onward_refl x⟩
  | reading q =>
    cases q with
    | masterPid =>
      refine ⟨rfl, id, fun f hf ↦ ?_⟩
      cases f with
      | master => exact Bool.or_eq_true_iff.mpr (.inl hf)
      | _ => exact hf
    | listenInodes target =>
      change Kept x (if target = s.target then _ else x)
      split
      · exact ⟨rfl, id, onward_noteListening x _⟩
      · exact ⟨rfl, id, onward_refl x⟩
    | date => exact ⟨rfl, id, onward_refl x⟩
    | workerPids master => exact ⟨rfl, id, onward_refl x⟩
    | _ => exact ho.elim
  | deed d => cases d <;> first | exact ho.elim | exact ⟨rfl, id, onward_refl x⟩
  | spawnLoader tls => exact ho.elim

private theorem allowed_of_mild {o : Op} (ho : Mild hint o) (h : Acting s hint x) :
    Allowed s hint x o := by
  cases o with
  | check c => trivial
  | reading q => trivial
  | deed d => cases d <;> first | exact ho.elim | exact ⟨h, trivial⟩ | exact ⟨h, ho⟩
  | spawnLoader tls => exact ho.elim

/-- A function with such commands ends, and what was found carries over. -/
private theorem ends_of_mild {c : Part} (hc : Calls (S := sig) (Mild hint) c)
    (h : Acting s hint x) :
    (hearsay s).wp (Allowed s hint) (c e)
      (Well (fun t ↦ Acting s hint t ∧ Kept x t) (Acting s hint)) x := by
  have hkeep := wp_calls (M := hearsay s) (Φ := Allowed s hint) (s := x) (e := e) hc
    (I := fun t ↦ Acting s hint t ∧ Kept x t) ?_ (fun o y ho hy ↦ allowed_of_mild ho hy.1)
    ⟨h, rfl, id, onward_refl x⟩
  · exact Machine.wp_post hkeep
      (fun _ _ hy ↦ hy.mono (fun _ ↦ id) (fun _ ↦ And.left) (fun _ _ ↦ trivial))
  · rintro o c y ho ⟨hy, hxy⟩
    have hyz : Kept y (y.note s o (c o)) := kept_note ho _
    exact ⟨hy.of_same hyz.units hyz.passed, hyz.units.trans hxy.units, hyz.passed ∘ hxy.passed,
      hxy.onward.trans hyz.onward⟩

/-- Questions. -/
def Asking : Op → Prop
  | .check _ | .reading _ => True
  | _ => False

variable {R : Op → Prop}

private theorem only_holds {c : Check} (hc : R (.check c)) : Only (S := sig) R (holds c) :=
  only_command _ hc

private theorem only_listenSnapshot {k : Text → Part} (hR : ∀ t, R (.reading (.listenInodes t)))
    (hk : ∀ t, Only (S := sig) R (k t)) : Only (S := sig) R (listenSnapshot s k) := by
  refine only_ask (hR _) fun primary ↦ ?_
  split
  · exact hk _
  · exact only_ask (hR _) (fun _ ↦ hk _)

private theorem asking_slotStatus (slot : Nat) {k : SlotStatus → Part}
    (hk : ∀ x, Only (S := sig) Asking (k x)) : Only (S := sig) Asking (slotStatus slot k) := by
  apply only_ask trivial
  intro tool
  split
  · exact hk _
  · apply only_ask trivial
    intro there
    split
    · exact hk _
    · exact only_ask trivial (fun output ↦ by cases output <;> exact hk _)

theorem calls_detectWorker : Calls (S := sig) Asking (detectWorker s) := by
  apply calls_call
  refine only_ask trivial fun master ↦ ?_
  split
  · exact only_ending _
  · refine only_ask trivial fun workers ↦ ?_
    apply only_listenSnapshot (fun _ ↦ trivial)
    intro listens
    refine only_ask trivial fun oldMaster ↦ ?_
    refine only_ask trivial fun oldWorkers ↦ ?_
    refine only_ask trivial fun oldListens ↦ ?_
    apply asking_slotStatus
    intro slot0
    split
    · exact only_ending _
    · exact asking_slotStatus 1 (fun _ ↦ only_ending _)

private theorem calls_noteWorkerRescan (hnotes : hint.notesRescans = true) :
    Calls (S := sig) (Mild hint) (noteWorkerRescan s) := by
  apply calls_call
  apply only_seq (only_command _ trivial)
  refine only_ask trivial fun now ↦ ?_
  apply only_seq
  · apply only_branch (only_holds trivial) ?_ (only_ending _)
    apply only_seq
    · exact only_branch (only_command _ hnotes) (only_ending _) (only_test _)
    · exact only_command _ hnotes
  · exact only_command _ hnotes

theorem calls_snapshotWorkerState :
    Calls (S := sig) (Mild hint) (snapshotWorkerState s) := by
  apply calls_call
  refine only_ask trivial fun master ↦ ?_
  apply only_seq (only_branch (only_test _) (only_ending _) (only_ending _))
  refine only_ask trivial fun workers ↦ ?_
  apply only_listenSnapshot (fun _ ↦ trivial)
  intro listens
  apply only_seq (only_command _ trivial)
  apply only_seq (only_command _ trivial)
  exact only_seq (only_command _ trivial) (only_command _ trivial)

private theorem calls_validatePortsFile : Calls (S := sig) Asking validatePortsFile := by
  apply calls_call
  apply only_seq
  · exact only_branch (only_branch (only_holds trivial) (only_ending _) (only_ending _))
      (only_ending _) (only_ending _)
  · apply only_seq ?_ (only_ending _)
    apply only_branch ?_ (only_ending _) (only_ending _)
    exact only_branch (only_ask trivial (fun _ ↦ only_test _)) (only_ending _) (only_ending _)

private theorem asking_confirmSteered (count : Option Int) (ports : List (Text × Text)) (n : Nat) :
    Only (S := sig) Asking (confirmSteered count ports n) := by
  have hend (n : Nat) : Only (S := sig) Asking (either (test (0 < n)) (test true)) :=
    only_branch (only_test _) (only_ending _) (only_test _)
  induction ports generalizing n with
  | nil => exact hend n
  | cons e rest ih =>
    obtain ⟨port, slot⟩ := e
    unfold confirmSteered
    split
    · exact ih n
    · split
      · exact hend n
      · apply only_seq ?_ (ih (n + 1))
        exact only_branch (only_holds trivial) (only_ending _) (only_ending _)

theorem calls_tinyConfirm (count : Option Int) :
    Calls (S := sig) Asking (tinyConfirm s count) := by
  apply calls_call
  apply only_seq
  · apply only_branch ?_ (only_ending _) (only_ending _)
    exact only_branch (only_ask trivial (fun _ ↦ only_test _)) (only_ending _) (only_ending _)
  · apply only_seq
    · exact only_branch (only_holds trivial) (only_test _) (only_ending _)
    · apply only_seq
      · apply only_branch ?_ (only_ending _) (only_ending _)
        apply only_branch
        · exact only_branch (only_holds trivial) (only_ending _) (only_ending _)
        · exact only_ending _
        · exact only_branch calls_validatePortsFile.only (only_ending _) (only_ending _)
      · exact only_ask trivial (fun ports ↦ asking_confirmSteered count ports 0)

end Mild

/-! ### Parts that act -/

/-- A run that may act comes to its part of a case, and does so within its bounds. Where the part
ends well, what was made sure of stays so, and `P` is so. -/
abbrev Stage (s : Settings) (hint : Hint) (c : Part) (e : Bool) (P : Seen → Prop) : Prop :=
  ∀ x, Acting s hint x → (hearsay s).wp (Allowed s hint) (c e)
    (Well (fun t ↦ Acting s hint t ∧ Onward x t ∧ P t) (Acting s hint)) x

section Deeds

variable {s : Settings} {hint : Hint} {x : Seen} {e : Bool} {Q : Ending → Seen → Prop}

theorem stage_mono {c : Part} {P P' : Seen → Prop} (hc : Stage s hint c e P)
    (hP : ∀ t, P t → P' t) : Stage s hint c e P' := fun x h ↦
  Machine.wp_post (hc x h)
    (fun _ _ hy ↦ hy.mono (fun t ht ↦ ⟨ht.1, ht.2.1, hP t ht.2.2⟩) (fun _ ↦ id) (fun _ ↦ id))

/-- A part that starts further on may be told from where the run came. -/
theorem stage_from {c : Part} {P : Seen → Prop} {y : Seen} (hc : Stage s hint c e P)
    (hy : Acting s hint y) (hxy : Onward x y) :
    (hearsay s).wp (Allowed s hint) (c e)
      (Well (fun t ↦ Acting s hint t ∧ Onward x t ∧ P t) (Acting s hint)) y :=
  Machine.wp_post (hc y hy) (fun _ _ hz ↦ hz.mono (fun _ ht ↦ ⟨ht.1, hxy.trans ht.2.1, ht.2.2⟩)
    (fun _ ↦ id) (fun _ ↦ id))

/-- What the first part made sure of is so behind the second. -/
theorem stage_seq {c d : Part} {P P' R : Seen → Prop} (hc : Stage s hint c true P)
    (hd : Stage s hint d true P') (hR : ∀ t u, Onward t u → P t → P' u → R u) :
    Stage s hint (seq c d) true R := fun x h ↦
  wp_seq_of_ends (hc x h)
    (fun t ht ↦ Machine.wp_post (hd t ht.1) fun _ _ hy ↦ hy.mono
      (fun u hu ↦ ⟨hu.1, ht.2.1.trans hu.2.1, hR t u hu.2.1 ht.2.2 hu.2.2⟩) (fun _ ↦ id)
      (fun _ ↦ id))
    (fun _ _ _ ↦ trivial)

theorem of_ensureBpffs (h : Acting s hint x) (hstarts : hint.startsLoader = true)
    (hQ : ∀ ok, Q (.ofStatus ok) { x with mounted := ok }) :
    (hearsay s).wp (Allowed s hint) (ensureBpffs e) Q x := by
  refine wp_call.mpr <| wp_seq.mpr <| wp_branch.mpr <| of_holds fun mounted ↦ ?_
  cases mounted with
  | true => exact hQ true
  | false =>
    have hnow : Acting s hint (x.noteCheck false .mountpoint) := h.of_same rfl id
    refine of_perform (d := .mountBpffs) ⟨hnow, hstarts, rfl⟩ fun ok ↦ ?_
    rw [Ending.ofBody_ofStatus]
    exact hQ ok

private theorem of_ensureLoaderBin (h : Acting s hint x)
    (hQ : ∀ ok, Q (.ofStatus ok) { x with executable := ok })
    (hexit : Q (.exited 1) { x with executable := false }) :
    (hearsay s).wp (Allowed s hint) (ensureLoaderBin s e) Q x := by
  have hcheck (y : Seen) (hy : ∀ ok, { y with executable := ok } = { x with executable := ok }) :
      (hearsay s).wp (Allowed s hint) (either (holds .loaderExecutable) (leave false) e)
        (fun z t ↦ Q z.ofBody t) y := by
    refine wp_branch.mpr <| of_holds fun ok ↦ ?_
    change (hearsay s).wp _ _ _ { y with executable := ok }
    rw [hy]
    cases ok with
    | true => exact hQ true
    | false => exact hQ false
  refine wp_call.mpr <| wp_seq.mpr <| wp_branch.mpr <| of_ask fun there ↦ ?_
  rw [wp_test]
  cases hbuild : !there && s.ownBinary with
  | false => exact hcheck _ (fun _ ↦ rfl)
  | true =>
    rw [Bool.and_eq_true, Bool.not_eq_true'] at hbuild
    obtain ⟨rfl, hown⟩ := hbuild
    have hnow : Acting s hint (x.noteCheck false .loaderExecutable) := h.of_same rfl id
    refine of_perform (d := .buildLoader) ⟨hnow, hown, rfl⟩ fun ok ↦ ?_
    cases ok with
    | true => exact hcheck _ (fun _ ↦ rfl)
    | false =>
      cases e with
      | true => exact hexit
      | false => exact hcheck _ (fun _ ↦ rfl)

theorem stage_startOpenrestyOnly (hstarts : hint.startsOpenresty = true) :
    Stage s hint (startOpenrestyOnly s) e fun t ↦ t.Knows .fronted := by
  intro x h
  refine wp_call.mpr <| wp_seq.mpr <| wp_branch.mpr <| of_listenUp fun ok ↦ ?_
  have hnow : Acting s hint (x.noteListening ok) := h.of_same rfl id
  cases ok with
  | true => exact ⟨hnow, onward_noteListening x true, Bool.or_true _⟩
  | false =>
    refine of_perform (d := .startOpenresty) ⟨hnow, hstarts, rfl⟩ fun ok ↦ ?_
    cases ok with
    | true =>
      refine ⟨hnow.of_same rfl id, (onward_noteListening x false).trans fun f hf ↦ ?_,
        Bool.or_true _⟩
      cases f with
      | fronted => exact Bool.or_true _
      | _ => exact hf
    | false => exact hnow.of_same rfl id

theorem stage_rescan (hrescans : hint.rescans = true) :
    Stage s hint (rescan s) e fun t ↦ t.Knows .pins ∧ t.Knows .rescanned := by
  intro x h
  have hrest (y : Seen) (hy : Acting s hint y) (hxy : Onward x y) :
      (hearsay s).wp (Allowed s hint) (block [either pinsOk (leave false),
        perform (.rescanListen (s.tlsTarget ≠ []))] e) (fun z t ↦
          Well (fun t ↦ Acting s hint t ∧ Onward x t ∧ t.Knows .pins ∧ t.Knows .rescanned)
            (Acting s hint) z.ofBody t) y := by
    refine wp_seq.mpr <| wp_branch.mpr <| of_pinsOk fun ok z hyz hpins ↦ ?_
    have hnow : Acting s hint z := hy.kept hyz
    cases ok with
    | false => exact hnow
    | true =>
      refine of_perform (d := .rescanListen _) ⟨hnow, hrescans, (hpins rfl).1⟩ fun ok ↦ ?_
      cases ok with
      | true =>
        refine ⟨hnow.of_same rfl id, (hxy.trans hyz.onward).trans fun f hf ↦ ?_, (hpins rfl).2, rfl⟩
        cases f with
        | rescanned => rfl
        | _ => exact hf
      | false => exact hnow.of_same rfl id
  refine wp_call.mpr <| wp_seq.mpr <| of_ensureLoaderBin h (fun ok ↦ ?_) trivial
  have hexecutable : Onward x { x with executable := ok } := by
    intro f hf
    cases f <;> exact hf
  exact wp_next_ofStatus (hrest _ (h.of_same rfl id) hexecutable) trivial

theorem stage_reconcileIfNeeded (hreconciles : hint.reconciles = true) :
    Stage s hint (reconcileIfNeeded s) e fun t ↦ t.Knows .matched := by
  intro x h
  have hconfirm (y : Seen) (hy : Acting s hint y) (hxy : OnwardBut .matched x y) :
      (hearsay s).wp (Allowed s hint) (block [either mapsMatchFile (leave false), test true] e)
        (fun z t ↦ Well (fun t ↦ Acting s hint t ∧ Onward x t ∧ t.Knows .matched) (Acting s hint)
          z.ofBody t) y := by
    refine wp_seq.mpr <| wp_branch.mpr <| of_mapsMatchFile fun ok there matched hmatched _ ↦ ?_
    cases ok with
    | true =>
      have honward := (hxy.noteMap there matched).onward (hmatched rfl)
      exact ⟨hy.of_same rfl id, honward, hmatched rfl⟩
    | false => exact hy.of_same rfl id
  have hrest (y : Seen) (hy : Acting s hint y) (hvalid : y.valid = true)
      (hxy : OnwardBut .matched x y) :
      (hearsay s).wp (Allowed s hint) (block [when mapsMatchFile (leave true), perform .reconcile,
        either mapsMatchFile (leave false), test true] e)
        (fun z t ↦ Well (fun t ↦ Acting s hint t ∧ Onward x t ∧ t.Knows .matched) (Acting s hint)
          z.ofBody t) y := by
    refine wp_seq.mpr <| wp_branch.mpr <| of_mapsMatchFile
      fun ok there matched hmatched hdiffers ↦ ?_
    have hnow : Acting s hint { y with portsThere := there, matched := matched } :=
      hy.of_same rfl id
    cases ok with
    | true => exact ⟨hnow, (hxy.noteMap there matched).onward (hmatched rfl), hmatched rfl⟩
    | false =>
      refine wp_seq.mpr <| of_perform (d := .reconcile)
        ⟨hnow, hreconciles, hvalid, hdiffers rfl⟩ fun ok ↦ ?_
      exact wp_next_ofStatus (hconfirm _ (hnow.of_same rfl id) (hxy.noteMap there none)) trivial
  refine wp_call.mpr <| wp_seq.mpr <| wp_branch.mpr <| of_validatePortsFile
    fun ok there valid passed hvalid _ hpassed ↦ ?_
  have hnow : Acting s hint { x with portsThere := there, valid := valid, passed := passed } :=
    h.of_same rfl hpassed
  cases ok with
  | false => exact hnow
  | true =>
    refine wp_seq.mpr <| of_ensureLoaderBin hnow (fun ok ↦ ?_) trivial
    refine wp_next_ofStatus (hrest _ (hnow.of_same rfl id) (hvalid rfl).1 fun f _ hf ↦ ?_) trivial
    cases f <;> exact hf

private theorem ends_clearSockmap (h : Acting s .workerStorm x) :
    (hearsay s).wp (Allowed s .workerStorm) (clearSockmap e)
      (Well (Acting s .workerStorm) (Acting s .workerStorm)) x := by
  refine wp_call.mpr <| wp_seq.mpr <| wp_branch.mpr <| of_pinsOk fun ok y hxy hpins ↦ ?_
  have hnow : Acting s .workerStorm y := h.kept hxy
  cases ok with
  | false => exact hnow
  | true =>
    refine wp_seq.mpr <| wp_branch.mpr <| of_holds fun tool ↦ ?_
    cases tool with
    | false => exact hnow
    | true =>
      refine wp_seq.mpr <| wp_branch.mpr <|
        of_perform (d := .deleteSlot 0) ⟨hnow, rfl, (hpins rfl).1⟩ fun ok ↦ ?_
      cases ok <;>
      · refine wp_seq.mpr <| wp_branch.mpr <|
          of_perform (d := .deleteSlot 1) ⟨hnow, rfl, (hpins rfl).1⟩ fun ok ↦ ?_
        cases ok <;> exact hnow

/-- The wait for a loader that was started ends with a loader that is ready, or with a failure. -/
private theorem of_awaitReady {pid : Text} {passes : List Nat} (h : Acting s hint x)
    (hready : ∀ ok, Acting s hint { x with ready := ok } → ok = true →
      Q (.returned true) { x with ready := ok })
    (hfailed : ∀ t, Acting s hint t → Q (.returned false) t)
    (hend : ∀ t, Acting s hint t → Q .success t) :
    (hearsay s).wp (Allowed s hint) (forEach passes (fun _ ↦ block [
      when (neg (holds (.processThere pid))) (block [
        when (holds .logSaysOwned) (leave false),
        leave false]),
      when (holds .logSaysReady) (leave true)]) e) Q x := by
  induction passes generalizing x with
  | nil => exact hend x h
  | cons i passes ih =>
    refine wp_forEach_cons _ _ _ |>.mpr <| wp_seq.mpr <| wp_branch.mpr <| wp_branch.mpr <|
      of_holds fun there ↦ ?_
    cases there with
    | false =>
      refine wp_seq.mpr <| wp_branch.mpr <| of_holds fun owned ↦ ?_
      cases owned <;> exact hfailed x h
    | true =>
      refine wp_branch.mpr <| of_holds fun ready ↦ ?_
      have hnow : Acting s hint { x with ready := ready } := h.of_same rfl id
      cases ready with
      | true => exact hready true hnow rfl
      | false => exact ih hnow hready

theorem stage_startLoaderOnly (hstarts : hint.startsLoader = true) :
    Stage s hint (startLoaderOnly s) true fun t ↦ t.Knows .up := by
  intro x h
  refine wp_call.mpr <| wp_seq.mpr <| wp_branch.mpr <| of_loaderUp fun pid ↦ ?_
  have hnow : Acting s hint (x.noteLoader pid) := h.of_same rfl id
  cases pid with
  | cons c pid => exact ⟨hnow, onward_noteLoader x _, .inl (Bool.or_true _)⟩
  | nil =>
    refine wp_seq.mpr <| of_ensureLoaderBin hnow (fun ok ↦ ?_) trivial
    cases ok with
    | false => trivial
    | true =>
      refine wp_seq.mpr <| of_ensureBpffs (hnow.of_same rfl id) hstarts (fun ok ↦ ?_)
      cases ok with
      | false => trivial
      | true =>
        have hall : Acting s hint
            { x.noteLoader [] with executable := true, mounted := true } := h.of_same rfl id
        refine wp_seq.mpr <| of_perform (d := .makeStateDir) ⟨hall, trivial⟩ fun ok ↦ ?_
        refine wp_next_ofStatus ⟨⟨hall, hstarts, rfl, rfl, rfl⟩, fun c ↦ ?_⟩ trivial
        have hspawned : Acting s hint { x.noteLoader [] with
            loader := none, found := false, ready := false, executable := true, mounted := true } :=
          h.of_same rfl id
        refine wp_seq.mpr <| of_perform (d := .writePid _) ⟨hspawned, trivial⟩ fun ok ↦ ?_
        refine wp_next_ofStatus ?_ trivial
        refine wp_seq.mpr <| of_awaitReady hspawned (fun ok ht hready ↦ ⟨ht, ?_, .inr hready⟩)
          (fun t ht ↦ ht) (fun t ht ↦ ht)
        intro f hf
        cases f with
        | up => exact .inr hready
        | mounted => rfl
        | missed => exact Bool.or_true _
        | _ => exact hf

/-- The wait for the control socket ends with a socket, or with the finding that there is none. -/
private theorem of_awaitCtlSock {passes : List Nat} (h : passes ≠ [] ∨ x.ctlSocket = false)
    (hthere : Q (.returned true) { x with ctlSocket := true })
    (hend : Q .success { x with ctlSocket := false }) :
    (hearsay s).wp (Allowed s hint)
      (forEach passes (fun _ ↦ both (holds .ctlSockIsSocket) (leave true)) e) Q x := by
  induction passes generalizing x with
  | nil =>
    have hx : { x with ctlSocket := false } = x := by
      rw [← h.resolve_left (fun hne ↦ hne rfl)]
    exact hx ▸ hend
  | cons i passes ih =>
    refine wp_forEach_cons _ _ _ |>.mpr <| wp_branch.mpr <| of_holds fun there ↦ ?_
    cases there with
    | true => exact hthere
    | false => exact ih (.inr rfl) hthere hend

/-- A running loader is waited for, is told to bind its socket, and is waited for again: what
follows does not come to the start of another one. -/
private theorem of_rebind {y : Seen} (hrebinds : hint.rebinds = true) (hy : Acting s hint y)
    (hxy : OnwardBut .bound x y) (hup : y.Knows .up)
    (hdone : ∀ t, Acting s hint t → Onward x t → t.Knows .up → t.Knows .bound →
      Q (.returned true) t)
    (hfailed : ∀ t, Acting s hint t → Q (.returned false) t) (hexit : ∀ t, Q (.exited 1) t) :
    (hearsay s).wp (Allowed s hint) (block [
      awaitCtlSock,
      read .loaderPid (fun pid : Text ↦ perform (.hangUp pid)),
      awaitCtlSock,
      leave false] true) Q y := by
  have hpasses : List.range 20 ≠ [] := by decide
  have hthere (z : Seen) (hz : Acting s hint z) (hxz : OnwardBut .bound x z)
      (hup : z.Knows .up) : Q (.returned true) { z with ctlSocket := true } :=
    hdone _ (hz.of_same rfl id) ((hxz.noteSocket true).onward rfl) hup rfl
  refine wp_seq.mpr <| of_awaitCtlSock (.inl hpasses) (hthere y hy hxy hup) ?_
  have hnone (pid : Text) : Acting s hint (Seen.noteLoader { y with ctlSocket := false } pid) :=
    hy.of_same rfl id
  refine wp_seq.mpr <| of_read fun pid : Text ↦
    of_perform (d := .hangUp pid) ⟨hnone pid, hrebinds, rfl, rfl⟩ fun ok ↦ ?_
  refine wp_next_ofStatus ?_ (hexit _)
  have honward : Onward { y with ctlSocket := false }
      (Seen.noteLoader { y with ctlSocket := false } pid) := onward_noteLoader _ pid
  have hlater := hthere _ (hnone pid)
    (fun f hne hf ↦ honward f (hxy.noteSocket false f hne hf)) (honward .up hup)
  refine wp_seq.mpr <| of_awaitCtlSock (.inl hpasses) hlater ?_
  exact hfailed _ ((hnone pid).of_same rfl id)

theorem stage_recoverCtl (hstarts : hint.startsLoader = true)
    (hrebinds : hint.rebinds = true) :
    Stage s hint (recoverCtl s) true fun t ↦ t.Knows .up ∧ (t.Knows .bound ∨ t.Knows .missed) := by
  intro x h
  refine wp_call.mpr <| wp_seq.mpr <| wp_branch.mpr <| of_loaderUp fun pid ↦ ?_
  have hnow : Acting s hint (x.noteLoader pid) := h.of_same rfl id
  cases pid with
  | nil =>
    have hmissed : (x.noteLoader []).Knows .missed := Bool.or_true _
    have hstarted (t : Seen) (ht : Acting s hint t ∧ Onward (x.noteLoader []) t ∧ t.Knows .up) :
        Acting s hint t ∧ Onward x t ∧ t.Knows .up ∧ (t.Knows .bound ∨ t.Knows .missed) :=
      ⟨ht.1, (onward_noteLoader x []).trans ht.2.1, ht.2.2, .inr (ht.2.1 .missed hmissed)⟩
    have hstart := Machine.wp_post (stage_startLoaderOnly hstarts _ hnow) fun y t hy ↦
      Ends.ofBody (hy.mono hstarted (fun _ ↦ id) (fun _ ↦ id))
    exact hstart
  | cons c pid =>
    have hup : (x.noteLoader (c :: pid)).Knows .up := .inl (Bool.or_true _)
    have hrest (y : Seen) (hy : Acting s hint y) (hxy : OnwardBut .bound x y) (hup : y.Knows .up) :=
      @of_rebind s hint x
        (fun z t ↦ (hearsay s).wp (Allowed s hint) (next (block [startLoaderOnly s]) true z)
          (fun z t ↦ Well (fun t ↦ Acting s hint t ∧ Onward x t ∧ t.Knows .up ∧
            (t.Knows .bound ∨ t.Knows .missed)) (Acting s hint) z.ofBody t) t)
        y hrebinds hy hxy hup
        (fun t ht hxt hup hbound ↦ ⟨ht, hxt, hup, .inl hbound⟩) (fun t ht ↦ ht) (fun t ↦ trivial)
    have hfound : OnwardBut .bound x (x.noteLoader (c :: pid)) :=
      fun f _ hf ↦ onward_noteLoader x _ f hf
    refine wp_seq.mpr <| wp_branch.mpr <| of_ask fun there ↦ ?_
    cases there with
    | false =>
      refine hrest _ (hnow.of_same rfl id) (fun f hne hf ↦ ?_) hup
      have hf := hfound f hne hf
      cases f <;> exact hf
    | true =>
      refine wp_branch.mpr <| of_holds fun socket ↦ ?_
      have hthere : Acting s hint
          { x.noteLoader (c :: pid) with ctlThere := true, ctlSocket := socket } :=
        h.of_same rfl id
      have honward : OnwardBut .bound x
          { x.noteLoader (c :: pid) with ctlThere := true, ctlSocket := socket } := by
        intro f hne hf
        have hf := hfound f hne hf
        cases f <;> first | exact absurd rfl hne | exact hf
      cases socket with
      | true => exact hrest _ hthere honward hup
      | false =>
        refine of_perform (d := .unlinkCtlSock)
          ⟨hthere, hrebinds, rfl, rfl, c :: pid, rfl, List.cons_ne_nil _ _⟩ fun ok ↦ ?_
        exact wp_next_ofStatus (hrest _ hthere honward hup) trivial

/-- The probes that are left after so many. -/
private def left (count : Option Int) (n : Nat) (ports : List (Text × Text)) :
    List (Text × Bool) :=
  steered (count.map (· - n)) ports

section Left

variable {count : Option Int} {n : Nat} {port slot : Text} {rest : List (Text × Text)}

private theorem left_zero (ports : List (Text × Text)) :
    left count 0 ports = steered count ports := by
  cases count <;> simp [left]

private theorem left_nil : left count n [] = [] := by
  unfold left steered
  split <;> simp

private theorem left_skip (h : isDigits port = false) :
    left count n ((port, slot) :: rest) = left count n rest := by
  have hfilter : ((port, slot) :: rest).filter (isDigits ·.1) = rest.filter (isDigits ·.1) :=
    List.filter_cons_of_neg (by simp [h])
  unfold left steered
  rw [hfilter]

private theorem left_full (h : count.any (· ≤ (n : Int)) = true) (ports : List (Text × Text)) :
    left count n ports = [] := by
  cases count with
  | none => cases h
  | some k =>
    have hk : (k - n).toNat = 0 := by
      have hle : k ≤ n := by simpa using h
      omega
    simp [left, steered, hk]

private theorem left_cons (h : isDigits port = true) (hcount : count.any (· ≤ (n : Int)) = false) :
    left count n ((port, slot) :: rest) =
      (port, decide (slot = "1".toList)) :: left count (n + 1) rest := by
  have hfilter : ((port, slot) :: rest).filter (isDigits ·.1) =
      (port, slot) :: rest.filter (isDigits ·.1) := List.filter_cons_of_pos h
  cases count with
  | none => simp [left, steered, hfilter]
  | some k =>
    have hk : (k - n).toNat = (k - (n + 1 : Nat)).toNat + 1 := by
      have hlt : n < k := by simpa using hcount
      omega
    simp only [left, steered, Option.map_some, hfilter, List.map_cons, hk, List.take_succ_cons]

end Left

/-- The probes go on to the bound, or one is not answered. -/
private theorem of_confirmSteered {count : Option Int} {ports : List (Text × Text)} {n : Nat}
    (hdone : ∀ probed, probed = x.probed ++ left count n ports →
      Q .success { x with probed := probed })
    (hfailed : ∀ t, Q (.returned false) t) :
    (hearsay s).wp (Allowed s hint) (confirmSteered count ports n e) Q x := by
  have hend (hleft : left count n ports = []) (m : Nat) :
      (hearsay s).wp (Allowed s hint) (either (test (0 < m)) (test true) e) Q x := by
    refine wp_branch.mpr ?_
    rw [wp_test]
    cases decide (0 < m) <;> exact hdone x.probed (by rw [hleft, List.append_nil])
  induction ports generalizing x n with
  | nil => exact hend left_nil n
  | cons entry rest ih =>
    obtain ⟨port, slot⟩ := entry
    unfold confirmSteered
    cases hdigits : isDigits port with
    | false =>
      rw [left_skip hdigits] at hdone hend
      exact ih hdone hend
    | true =>
      cases hcount : count.any (· ≤ (n : Int)) with
      | true => exact hend (left_full hcount _) n
      | false =>
        refine wp_seq.mpr <| wp_branch.mpr <| of_holds fun ok ↦ ?_
        cases ok with
        | false => exact hfailed _
        | true =>
          rw [left_cons hdigits hcount] at hdone
          have hnext (probed : List (Text × Bool))
              (hprobed : probed = x.probed ++ [(port, decide (slot = "1".toList))] ++
                left count (n + 1) rest) : Q .success { x with probed := probed } :=
            hdone probed (by rw [hprobed, List.append_assoc, List.singleton_append])
          have hfull (h : left count (n + 1) rest = []) (m : Nat) :
              (hearsay s).wp (Allowed s hint) (either (test (0 < m)) (test true) e) Q
                { x with probed := x.probed ++ [(port, decide (slot = "1".toList))] } := by
            refine wp_branch.mpr ?_
            rw [wp_test]
            cases decide (0 < m) <;> exact hnext _ (by rw [h, List.append_nil])
          exact ih hnext hfull

theorem ends_tinyConfirm (count : Option Int) :
    (hearsay s).wp (Allowed s hint) (tinyConfirm s count true)
      (Well (fun t ↦ Onward x t ∧ t.Served count) fun _ ↦ True) x := by
  have hsteered (y : Seen) (hxy : Onward x y) (hinner : y.inner = true) :
      (hearsay s).wp (Allowed s hint)
        (read .desiredState (fun ports : List (Text × Text) ↦ confirmSteered count ports 0) true)
        (fun z t ↦ Well (fun t ↦ Onward x t ∧ t.Served count) (fun _ ↦ True) z.ofBody t) y := by
    refine of_read fun ports : List (Text × Text) ↦ of_confirmSteered (fun probed hprobed ↦ ?_)
      (fun _ ↦ trivial)
    rw [left_zero] at hprobed
    exact ⟨hxy.trans fun f hf ↦ by cases f <;> exact hf, .inr ⟨hinner, .inr (.inr hprobed)⟩⟩
  refine wp_call.mpr <| wp_seq.mpr <| wp_branch.mpr <| wp_branch.mpr <| of_listenUp fun ok ↦ ?_
  have honward {y : Seen} (hy : ∀ f, (x.noteListening ok).Knows f → y.Knows f) : Onward x y :=
    (onward_noteListening x ok).trans hy
  cases ok with
  | false => exact ⟨onward_noteListening x false, .inl rfl⟩
  | true =>
    refine wp_seq.mpr <| wp_branch.mpr <| of_holds fun inner ↦ ?_
    cases inner with
    | false => trivial
    | true =>
      refine wp_seq.mpr <| wp_branch.mpr <| wp_branch.mpr <| wp_branch.mpr <|
        of_holds fun there ↦ ?_
      cases there with
      | false => exact ⟨honward fun f hf ↦ by cases f <;> exact hf, .inr ⟨rfl, .inl rfl⟩⟩
      | true =>
        refine wp_branch.mpr <| of_validatePortsFile fun ok there valid passed _ hbad _ ↦ ?_
        cases ok with
        | false =>
          refine ⟨honward fun f hf ↦ by cases f <;> exact hf, .inr ⟨rfl, ?_⟩⟩
          exact (hbad rfl).imp_right .inl
        | true =>
          exact hsteered _ (honward fun f hf ↦ by cases f <;> exact hf) rfl

/-- The workers are rescanned only where OpenResty runs and listens, and the pins are there. -/
private theorem of_workerGround {c : Part} {rest : List Part} (h : Acting s hint x)
    (hc : ∀ t, Acting s hint t → Onward x t → t.Knows .master → t.Knows .fronted →
      (hearsay s).wp (Allowed s hint) (block (c :: rest) true) Q t)
    (hQ : ∀ t, Acting s hint t → Q (.returned false) t) :
    (hearsay s).wp (Allowed s hint) (block (workerGround s ++ c :: rest) true) Q x := by
  refine wp_seq.mpr <| wp_branch.mpr <| of_read fun master : Text ↦ ?_
  rw [wp_test]
  have hmild : Mild hint (.reading .masterPid) := trivial
  have hmaster : Kept x (x.note s (.reading .masterPid) master) := kept_note hmild master
  cases hfound : decide (master ≠ []) with
  | false => exact hQ _ (h.kept hmaster)
  | true =>
    have hknown : (x.noteReading s .masterPid master).Knows .master := by
      change (x.master || decide (master ≠ [])) = true
      rw [hfound, Bool.or_true]
    refine wp_seq.mpr <| wp_branch.mpr <| of_pinsOk fun ok y hxy _ ↦ ?_
    have hnow : Acting s hint y := (h.kept hmaster).kept hxy
    cases ok with
    | false => exact hQ _ hnow
    | true =>
      refine wp_seq.mpr <| wp_branch.mpr <| of_listenUp fun ok ↦ ?_
      have honward := onward_noteListening y ok
      cases ok with
      | false => exact hQ _ (hnow.of_same rfl id)
      | true =>
        exact hc _ (hnow.of_same rfl id) (hmaster.onward.trans (hxy.onward.trans honward))
          (honward _ (hxy.onward _ hknown)) (Bool.or_true _)

/-- What a rescan of the workers makes sure of. -/
def Rescanned (t : Seen) : Prop :=
  t.Knows .master ∧ t.Knows .fronted ∧ t.Knows .pins ∧ t.Knows .rescanned

theorem Rescanned.onward {t u : Seen} (h : Rescanned t) (htu : Onward t u) : Rescanned u :=
  ⟨htu _ h.1, htu _ h.2.1, htu _ h.2.2.1, htu _ h.2.2.2⟩

theorem stage_recoverWorker (hrescans : hint.rescans = true)
    (hnotes : hint.notesRescans = true) : Stage s hint (recoverWorker s) true Rescanned := by
  intro x h
  refine wp_call.mpr <| of_workerGround h (fun t ht hxt hmaster hfronted ↦ ?_) (fun _ ht ↦ ht)
  refine wp_seq_of_ends (stage_rescan hrescans t ht) (fun u hu ↦ ?_) (fun _ _ _ ↦ trivial)
  obtain ⟨hu, htu, hpins, hrescanned⟩ := hu
  have hdone : Rescanned u := ⟨htu _ hmaster, htu _ hfronted, hpins, hrescanned⟩
  refine wp_seq_of_ends (ends_of_mild (calls_noteWorkerRescan hnotes) hu) (fun v hv ↦ ?_)
    (fun _ _ _ ↦ trivial)
  refine Machine.wp_post (ends_of_mild calls_snapshotWorkerState hv.1) fun _ _ hw ↦ Ends.ofBody ?_
  refine hw.mono (fun w hw ↦ ?_) (fun _ ↦ id) (fun _ ↦ id)
  have huw := hv.2.onward.trans hw.2.onward
  exact ⟨hw.1, hxt.trans (htu.trans huw), hdone.onward huw⟩

theorem stage_recoverSockmap (hrescans : hint.rescans = true) :
    Stage s hint (recoverSockmap s) true Rescanned := by
  intro x h
  refine wp_call.mpr <| of_workerGround h (fun t ht hxt hmaster hfronted ↦ ?_) (fun _ ht ↦ ht)
  refine wp_seq_of_ends (stage_rescan hrescans t ht) (fun u hu ↦ ?_) (fun _ _ _ ↦ trivial)
  obtain ⟨hu, htu, hpins, hrescanned⟩ := hu
  have hdone : Rescanned u := ⟨htu _ hmaster, htu _ hfronted, hpins, hrescanned⟩
  refine Machine.wp_post (ends_of_mild calls_snapshotWorkerState hu) fun _ _ hw ↦ Ends.ofBody ?_
  refine hw.mono (fun w hw ↦ ?_) (fun _ ↦ id) (fun _ ↦ id)
  exact ⟨hw.1, hxt.trans (htu.trans hw.2.onward), hdone.onward hw.2.onward⟩

private theorem of_stormExhausted (hQ : ∀ ok, Q (.ofStatus ok) x) :
    (hearsay s).wp (Allowed s hint) (stormExhausted s e) Q x := by
  refine of_read fun now ↦ of_ask fun there ↦ ?_
  cases there with
  | false => exact hQ _
  | true => exact of_read (fun _ ↦ hQ _)

private theorem ends_stormTries (hrescans : hint.rescans = true)
    (hnotes : hint.notesRescans = true) (n : Nat) (h : Acting s hint x) :
    (hearsay s).wp (Allowed s hint) (stormTries s n true)
      (Well (Acting s hint) (Acting s hint)) x := by
  induction n generalizing x with
  | zero =>
    refine wp_branch.mpr <| wp_branch.mpr <| of_stormExhausted fun ok ↦ ?_
    cases ok <;> exact h
  | succ n ih =>
    refine wp_branch.mpr <| wp_branch.mpr <| of_stormExhausted fun ok ↦ ?_
    cases ok with
    | true => exact h
    | false =>
      refine (Machine.wp_bind _ _ _).mpr <| wp_seq.mpr <|
        wp_branch_of_ends (stage_rescan hrescans x h) (fun t ht ↦ ?_) (fun t ht ↦ ht)
          (fun _ _ _ ↦ trivial)
      have hnext (y : Ending) (u : Seen) (hy : Well (fun u ↦ Acting s hint u ∧ Kept t u)
          (Acting s hint) y u) : (hearsay s).wp (Allowed s hint) (again (stormTries s n) true y)
            (Well (Acting s hint) (Acting s hint)) u := by
        match y, hy with
        | .success, hy => exact ih hy.1
        | .failure, _ => trivial
        | .exited (n + 1), _ => trivial
      have hnote := Machine.wp_post
        (ends_of_mild (calls_noteWorkerRescan (s := s) hnotes) ht.1 (e := true)) hnext
      exact hnote

/-- A worker storm ends in failure. -/
theorem fails_recoverStorm (h : Acting s .workerStorm x) :
    (hearsay s).wp (Allowed s .workerStorm) (recoverStorm s true)
      (Well (fun _ ↦ False) (Acting s .workerStorm)) x := by
  have hend (y : Seen) (hy : Acting s .workerStorm y) :
      (hearsay s).wp (Allowed s .workerStorm) (block [both pinsOk clearSockmap, leave false] true)
        (fun z t ↦ Well (fun _ ↦ False) (Acting s .workerStorm) z.ofBody t) y := by
    refine wp_seq.mpr <| wp_branch.mpr <| of_pinsOk fun ok z hyz _ ↦ ?_
    have hnow : Acting s .workerStorm z := hy.kept hyz
    cases ok with
    | false => exact hnow
    | true =>
      have hleave (t : Seen) (ht : Acting s .workerStorm t) :
          (hearsay s).wp (Allowed s .workerStorm) (leave false true) (fun z t ↦
            Well (fun _ ↦ False) (Acting s .workerStorm) z.ofBody t) t := ht
      have hclear := wp_next_of_ends (ends_clearSockmap hnow) hleave (fun _ _ _ ↦ trivial)
      exact hclear
  refine wp_call.mpr <| wp_seq.mpr <| wp_branch.mpr <| wp_branch.mpr <| of_pinsOk
    fun ok y hxy _ ↦ ?_
  have hpins : Acting s .workerStorm y := h.kept hxy
  cases ok with
  | false => exact hend _ hpins
  | true =>
    refine wp_branch.mpr <| of_read fun master : Text ↦ ?_
    rw [wp_test]
    have hmaster : Acting s .workerStorm (y.noteReading s .masterPid master) :=
      hpins.of_same rfl id
    cases decide (master ≠ []) with
    | false => exact hend _ hmaster
    | true =>
      refine wp_branch.mpr <| of_listenUp fun ok ↦ ?_
      have hlistens : Acting s .workerStorm
          ((y.noteReading s .masterPid master).noteListening ok) := hmaster.of_same rfl id
      cases ok with
      | false => exact hend _ hlistens
      | true =>
        refine wp_branch.mpr <| of_stormExhausted fun ok ↦ ?_
        cases ok with
        | true => exact hend _ hlistens
        | false =>
          have htries := wp_next_of_ends (ends_stormTries rfl rfl s.stormLimit hlistens)
            (fun t ht ↦ hend t ht) (fun _ _ _ ↦ trivial)
          exact htries

end Deeds

end SkLookup.Recovery
