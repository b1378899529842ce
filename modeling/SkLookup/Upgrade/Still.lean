import SkLookup.Effect.Guarantee
import SkLookup.Upgrade.Attach

/-!
# Parts that move no pin

Reading and writing the journal and every check before and after an upgrade leave the links, the
program and map pins and the entries of the maps as they are.
-/

namespace SkLookup.Upgrade

open Codec Effect

/-- The pins, and the entries behind them, are the same. -/
structure Still (s t : Plane) : Prop where
  links : t.links = s.links
  progs : t.progs = s.progs
  maps : t.maps = s.maps
  entries : t.entries = s.entries

/-- Commands that leave the pins alone; a program is loaded with reused maps only. -/
def Quiet : Op → Prop
  | .pinProg _ _ | .removeProg _ | .renameProg _ _ => False
  | .updateLink _ _ | .pinLink _ _ | .detachLink _ | .unpinLink _ | .removeLink _ => False
  | .pinMap _ _ | .removeMap _ => False
  | .loadObject openPorts redirSocket => openPorts.isSome ∧ redirSocket.isSome
  | _ => True

/-- A text behind a handle moves no pin. -/
private theorem still_rewrite (s : Plane) (handle : Nat) (f : JournalText → JournalText) :
    Still s (s.rewrite handle f) := by
  unfold Plane.rewrite Plane.rewriteJournal
  split
  · split <;> exact ⟨rfl, rfl, rfl, rfl⟩
  · exact ⟨rfl, rfl, rfl, rfl⟩

/-- What a quiet command does. -/
theorem still_exec {o : Op} (h : Quiet o) (c : Choice) (s : Plane) : Still s (exec o c s).1 := by
  cases o with
  | createTemp =>
    cases c with
    | fails n => exact ⟨rfl, rfl, rfl, rfl⟩
    | works n =>
      rw [exec]
      split <;> exact ⟨rfl, rfl, rfl, rfl⟩
  | writeTemp handle journal =>
    cases c with
    | works n => exact still_rewrite s _ _
    | fails n =>
      cases n with
      | zero => exact ⟨rfl, rfl, rfl, rfl⟩
      | succ n => exact still_rewrite s _ _
  | renameTemp =>
    cases c with
    | fails n => exact ⟨rfl, rfl, rfl, rfl⟩
    | works n =>
      rw [exec]
      split <;> exact ⟨rfl, rfl, rfl, rfl⟩
  | loadObject openPorts redirSocket =>
    cases c with
    | fails n => exact ⟨rfl, rfl, rfl, rfl⟩
    | works n =>
      obtain ⟨ho, hr⟩ := h
      refine ⟨rfl, rfl, rfl, ?_⟩
      obtain ⟨o, rfl⟩ := Option.isSome_iff_exists.mp ho
      obtain ⟨r, rfl⟩ := Option.isSome_iff_exists.mp hr
      rfl
  | pinProg | removeProg | renameProg | updateLink | pinLink | detachLink | unpinLink |
    removeLink | pinMap | removeMap => exact h.elim
  | _ => cases c <;> exact ⟨rfl, rfl, rfl, rfl⟩

/-- The guarantee of a part that moves no pin. -/
def still : Guarantee machine where
  rel := Still
  allow _ o := Quiet o
  refl _ := ⟨rfl, rfl, rfl, rfl⟩
  trans h h' := ⟨h'.links.trans h.links, h'.progs.trans h.progs, h'.maps.trans h.maps,
    h'.entries.trans h.entries⟩
  step h c := still_exec h c _

/-- Quiet commands that write no journal. -/
def Reading : Op → Prop
  | .createTemp | .writeTemp _ _ | .renameTemp => False
  | o => Quiet o

/-- A command that reads is quiet. -/
theorem quiet_of_reading {o : Op} (h : Reading o) : Quiet o := by
  cases o <;> first | exact h.elim | exact h

/-- The guarantee of a part that reads: the journal is the same as well. -/
def reading : Guarantee machine where
  rel s t := Still s t ∧ t.journal = s.journal
  allow _ := Reading
  refl s := ⟨still.refl s, rfl⟩
  trans h h' := ⟨still.trans h.1 h'.1, h'.2.trans h.2⟩
  step {s o} h c := by
    have hquiet := quiet_of_reading h
    refine ⟨still_exec hquiet c s, ?_⟩
    cases o with
    | createTemp | writeTemp | renameTemp => exact h.elim
    | pinProg | removeProg | renameProg | updateLink | pinLink | detachLink | unpinLink |
      removeLink | pinMap | removeMap => exact hquiet.elim
    | _ => cases c <;> rfl

/-- A part that reads moves no pin. -/
theorem reading_le : reading.Le still where
  rel h := h.1
  allow := quiet_of_reading

/-- The phase of the journal, if it is a whole one. -/
def Plane.phase (s : Plane) : Option Phase :=
  match s.journal with
  | some ⟨_, .whole journal⟩ => some journal.phase
  | _ => none

/-! ### Quiet parts -/

section Quiet

variable {R : Op → Prop} (site : Site)

/-- Reading the journal only reads. -/
theorem only_readJournal : Code.Only Reading (readJournal site) := by
  apply Code.only_bind (Code.only_ask trivial)
  intro answer
  split
  · exact Code.only_pure _
  · exact Code.only_throw _
  · exact Code.only_pure _
  · exact Code.only_throw _

/-- Writing the journal is quiet. -/
theorem quiet_writeJournal (journal : Journal) : Code.Only Quiet (writeJournal site journal) := by
  apply Code.only_bind _ (fun _ ↦ Code.only_attempt _ trivial)
  apply Code.only_bind (Code.only_attempt _ trivial)
  intro _
  apply Code.only_bind (Code.only_attempt _ trivial)
  intro handle
  exact Code.only_bind (Code.only_attempt _ trivial) (fun _ ↦ Code.only_attempt _ trivial)

/-- A record of a phase is quiet. -/
theorem quiet_mark (journal : Journal) (phase : Phase) (detail : String) :
    Code.Only Quiet (mark site journal phase detail) :=
  Code.only_bind (quiet_writeJournal site _) (fun _ ↦ Code.only_pure _)

/-- The health check only reads. -/
theorem only_healthCheck (window : Nat) : Code.Only Reading (healthCheck site window) := by
  apply Code.only_ite (Code.only_throw _)
  apply Code.only_ite (Code.only_throw _)
  apply Code.only_bind (Code.only_ask trivial)
  intro linked
  apply Code.only_ite (Code.only_throw _)
  apply Code.only_bind (Code.only_attempt _ trivial)
  intro openPorts
  apply Code.only_bind (Code.only_ofExcept _)
  intro _
  apply Code.only_bind (Code.only_attempt _ trivial)
  intro redirSocket
  apply Code.only_bind (Code.only_ofExcept _)
  intro _
  exact Code.only_bind (Code.only_attempt _ trivial) (fun _ ↦ Code.only_ask trivial)

/-- The checks for what is pinned only read. -/
theorem only_requireLivePins : Code.Only Reading (requireLivePins site) := by
  apply Code.only_bind
  · apply Code.only_bind (Code.only_ask trivial)
    intro (openPorts : Bool)
    exact Code.only_ite (Code.only_ask trivial) (Code.only_pure _)
  · intro maps
    apply Code.only_ite (Code.only_throw _)
    apply Code.only_bind (Code.only_ask trivial)
    intro linked
    apply Code.only_ite (Code.only_throw _)
    apply Code.only_bind (Code.only_ask trivial)
    intro live
    exact Code.only_ite (Code.only_throw _) (Code.only_pure _)

private theorem only_reuseMaps (maps : List MapAbi) (seen : Reused) :
    Code.Only Reading (reuseMaps site maps seen) := by
  induction maps generalizing seen with
  | nil => exact Code.only_pure _
  | cons abi rest ih =>
    rw [reuseMaps]
    split
    · exact Code.only_throw _
    · apply Code.only_bind (Code.only_ofExcept _)
      intro _
      apply Code.only_bind
      · exact Code.only_bind (Code.only_attempt _ trivial) (fun _ ↦ Code.only_pure _)
      · intro live
        apply Code.only_bind (Code.only_ofExcept _)
        intro _
        exact Code.only_bind (Code.only_attempt _ trivial) (fun m ↦ ih _)

/-- A candidate is loaded with the pinned maps, which only reads. -/
theorem only_loadCandidate (candidate : Path) :
    Code.Only Reading (loadCandidate site candidate) := by
  apply Code.only_bind (Code.only_ask trivial)
  intro present
  apply Code.only_ite (Code.only_throw _)
  apply Code.only_bind (Code.only_attempt _ trivial)
  intro object
  apply Code.only_bind (only_reuseMaps site _ _)
  intro seen
  apply Code.only_bind (Code.only_ofExcept _)
  intro openPorts
  apply Code.only_bind (Code.only_ofExcept _)
  intro redirSocket
  apply Code.only_bind (Code.only_attempt _ ⟨rfl, rfl⟩)
  intro program
  apply Code.only_bind (Code.only_ofExcept _)
  intro _
  exact Code.only_bind (Code.only_ofExcept _) (fun _ ↦ Code.only_pure _)

/-- The preflight is quiet. -/
theorem quiet_preflight (candidate : Path) (window : Nat) :
    Code.Only Quiet (preflight site candidate window) := by
  apply Code.only_bind (Code.only_outcome
    (Code.only_mono (fun _ ↦ quiet_of_reading) (only_loadCandidate site candidate)))
  intro loaded
  split
  · exact Code.only_bind (Code.only_outcome (quiet_writeJournal site _))
      (fun _ ↦ Code.only_throw _)
  · exact Code.only_ite (Code.only_pure _) (Code.only_throw _)

end Quiet

/-! ### What they find -/

section Specs

variable {site : Site} {s : Plane}

-- What the command that reads the journal answers.
private theorem read_answer (c : Choice) : (exec .readJournal c s).1 = s ∧
    ((exec .readJournal c s).2 = (.error .notFound : Except IoError JournalText) →
      s.journal = none) ∧
    ∀ text, (exec .readJournal c s).2 = (.ok text : Except IoError JournalText) →
      ∃ h, s.journal = some ⟨h, text⟩ := by
  cases c with
  | fails n =>
    refine ⟨rfl, fun h ↦ ?_, fun text h ↦ ?_⟩
    · cases Except.error.inj h
    · cases h
  | works n =>
    change s = s ∧ (found (s.journal.map JournalFile.text) = .error .notFound → s.journal = none) ∧
      ∀ text, found (s.journal.map JournalFile.text) = .ok text → ∃ h, s.journal = some ⟨h, text⟩
    cases s.journal with
    | none => simp [found]
    | some file =>
      refine ⟨rfl, by simp [found], fun text htext ↦ ⟨file.handle, ?_⟩⟩
      obtain rfl : file.text = text := by simpa using htext
      rfl

/-- Reading the journal changes nothing and tells what it holds. -/
theorem reading_readJournal : reading.Holds (readJournal site)
    (fun r t ↦ t = s ∧ (r = .ok none → s.journal = none) ∧
      ∀ journal, r = .ok (some journal) → ∃ h, s.journal = some ⟨h, .whole journal⟩) s := by
  refine Guarantee.holds_bind
    (R := fun r t ↦ t = s ∧ (r = .ok (.error .notFound) → s.journal = none) ∧
      ∀ text, r = .ok (.ok text) → ∃ h, s.journal = some ⟨h, text⟩)
    (Guarantee.holds_ask trivial (fun c ↦ ?_)) ?_ (by simp +contextual)
  · obtain ⟨hsame, habsent, hwhole⟩ := read_answer c
    exact ⟨hsame, fun h ↦ habsent (Except.ok.inj h), fun text h ↦ hwhole text (Except.ok.inj h)⟩
  · rintro answer t - ⟨rfl, habsent, hwhole⟩
    match answer with
    | .ok (.whole journal) =>
      refine Guarantee.holds_pure ⟨rfl, nofun, fun j hj ↦ ?_⟩
      obtain rfl := Option.some.inj (Except.ok.inj hj)
      exact hwhole _ rfl
    | .ok .empty => exact Guarantee.holds_throw ⟨rfl, nofun, nofun⟩
    | .ok .torn => exact Guarantee.holds_throw ⟨rfl, nofun, nofun⟩
    | .error .notFound => exact Guarantee.holds_pure ⟨rfl, fun _ ↦ habsent rfl, nofun⟩
    | .error .other => exact Guarantee.holds_throw ⟨rfl, nofun, nofun⟩

/-- An opened program is the pinned one. -/
theorem reading_openPinnedProgFd (pin : ProgPin) : reading.Holds (openPinnedProgFd site pin)
    (fun r t ↦ t = s ∧ ∀ q, r = .ok q → s.progs pin = some q) s := by
  refine Guarantee.holds_attempt trivial (fun c ↦ ⟨by cases c <;> rfl, fun q hq ↦ ?_⟩)
  have hq := (orFail_eq_ok _ _ _).mp hq
  cases c with
  | works n => exact found_eq_ok.mp hq
  | fails n => cases hq

/-- An opened map is the pinned one. -/
theorem reading_openMap (pin : MapPin) (f : Except IoError MapObject → Result MapObject)
    (hf : ∀ r m, f r = .ok m → r = .ok m) : reading.Holds (attempt (.openMap pin) f)
    (fun r t ↦ t = s ∧ ∀ m, r = .ok m → s.maps pin = some m) s := by
  refine Guarantee.holds_attempt trivial (fun c ↦ ⟨by cases c <;> rfl, fun m hm ↦ ?_⟩)
  have hm := hf _ m hm
  cases c with
  | works n => exact found_eq_ok.mp hm
  | fails n => cases hm

/-- A passed health check changed nothing. -/
theorem reading_healthCheck (window : Nat) :
    reading.Holds (healthCheck site window) (fun _ t ↦ t = s) s := by
  refine Guarantee.holds_ite (fun _ ↦ Guarantee.holds_throw rfl) (fun _ ↦ ?_)
  refine Guarantee.holds_ite (fun _ ↦ Guarantee.holds_throw rfl) (fun _ ↦ ?_)
  refine Guarantee.holds_bind (R := fun _ t ↦ t = s) (Guarantee.holds_ask trivial (fun _ ↦ rfl)) ?_
    (by simp)
  rintro linked t - rfl
  refine Guarantee.holds_ite (fun _ ↦ Guarantee.holds_throw rfl) (fun _ ↦ ?_)
  refine Guarantee.holds_bind (reading_openMap .openPorts plain (fun _ _ ↦ (plain_eq_ok _ _).mp)) ?_
    (by simp)
  rintro openPorts t - ⟨rfl, -⟩
  refine Guarantee.holds_check (fun _ _ ↦ ?_) (fun _ _ ↦ rfl)
  refine Guarantee.holds_bind (reading_openMap .redirSocket plain (fun _ _ ↦ (plain_eq_ok _ _).mp))
    ?_ (by simp)
  rintro redirSocket t - ⟨rfl, -⟩
  refine Guarantee.holds_check (fun _ _ ↦ ?_) (fun _ _ ↦ rfl)
  refine Guarantee.holds_bind (reading_openPinnedProgFd .live) ?_ (by simp)
  rintro q t - ⟨rfl, -⟩
  exact Guarantee.holds_ask trivial (fun _ ↦ rfl)

/-- What has to be pinned is pinned. -/
theorem reading_requireLivePins : reading.Holds (requireLivePins site)
    (fun r t ↦ t = s ∧ (r = .ok () → (∀ pin, s.maps pin ≠ none) ∧ s.links .primary ≠ none ∧
      s.progs .live ≠ none)) s := by
  refine Guarantee.holds_bind
    (R := fun r t ↦ t = s ∧ (r = .ok true → ∀ pin, Plane.maps s pin ≠ none)) ?_ ?_ (by simp)
  · refine Guarantee.holds_bind (R := fun r t ↦ t = s ∧ r = .ok (Plane.maps s .openPorts).isSome)
      (Guarantee.holds_ask trivial (fun _ ↦ ⟨rfl, rfl⟩)) ?_ (by simp)
    rintro openPorts t - ⟨rfl, ho⟩
    obtain rfl := Except.ok.inj ho
    refine Guarantee.holds_ite (fun hopen ↦ Guarantee.holds_ask trivial ?_)
      (fun _ ↦ Guarantee.holds_pure ⟨rfl, nofun⟩)
    refine fun _ ↦ ⟨rfl, fun hr pin ↦ ?_⟩
    cases pin with
    | openPorts => exact Option.isSome_iff_ne_none.mp hopen
    | redirSocket => exact Option.isSome_iff_ne_none.mp (Except.ok.inj hr)
  · rintro maps t - ⟨rfl, hmaps⟩
    refine Guarantee.holds_ite (fun _ ↦ Guarantee.holds_throw ⟨rfl, nofun⟩) (fun hm ↦ ?_)
    refine Guarantee.holds_bind (R := fun r u ↦ u = t ∧ r = .ok (Plane.links t .primary).isSome)
      (Guarantee.holds_ask trivial (fun _ ↦ ⟨rfl, rfl⟩)) ?_ (by simp)
    rintro linked u - ⟨rfl, hl⟩
    obtain rfl := Except.ok.inj hl
    refine Guarantee.holds_ite (fun _ ↦ Guarantee.holds_throw ⟨rfl, nofun⟩) (fun hlink ↦ ?_)
    refine Guarantee.holds_bind (R := fun r v ↦ v = u ∧ r = .ok (Plane.progs u .live).isSome)
      (Guarantee.holds_ask trivial (fun _ ↦ ⟨rfl, rfl⟩)) ?_ (by simp)
    rintro live v - ⟨rfl, hp⟩
    obtain rfl := Except.ok.inj hp
    refine Guarantee.holds_ite (fun _ ↦ Guarantee.holds_throw ⟨rfl, nofun⟩) (fun hlive ↦ ?_)
    refine Guarantee.holds_pure ⟨rfl, fun _ ↦ ⟨hmaps (by simpa using hm), ?_, ?_⟩⟩
    · simpa using hlink
    · simpa using hlive

private theorem reading_reuseMaps (maps : List MapAbi) (seen : Reused) :
    reading.Holds (reuseMaps site maps seen) (fun _ t ↦ t = s) s := by
  induction maps generalizing seen with
  | nil => exact Guarantee.holds_pure rfl
  | cons abi rest ih =>
    rw [reuseMaps]
    split
    · exact Guarantee.holds_throw rfl
    · next pin _ =>
      refine Guarantee.holds_check (fun _ _ ↦ ?_) (fun _ _ ↦ rfl)
      have hopen (f : Except IoError MapObject → Result MapObject) :
          reading.Holds (attempt (.openMap pin) f) (fun _ t ↦ t = s) s :=
        Guarantee.holds_attempt trivial (fun c ↦ by cases c <;> rfl)
      apply Guarantee.holds_bind (R := fun _ t ↦ t = s) _ _ (fun _ _ _ h ↦ h)
      · exact Guarantee.holds_bind (hopen _) (fun _ _ _ h ↦ Guarantee.holds_pure h)
          (fun _ _ _ h ↦ h)
      · rintro live t - rfl
        refine Guarantee.holds_check (fun _ _ ↦ ?_) (fun _ _ ↦ rfl)
        apply Guarantee.holds_bind (hopen _) _ (fun _ _ _ h ↦ h)
        rintro m t - rfl
        exact ih _

/-- A candidate is a new program. -/
theorem reading_loadCandidate (candidate : Path) : reading.Holds (loadCandidate site candidate)
    (fun r _ ↦ ∀ c, r = .ok c → c.program.id = s.nextProgram) s := by
  apply Guarantee.holds_bind (R := fun _ t ↦ t = s) (Guarantee.holds_ask trivial (fun _ ↦ rfl)) _
    (by simp)
  rintro present t - rfl
  refine Guarantee.holds_ite (fun _ ↦ Guarantee.holds_throw nofun) (fun _ ↦ ?_)
  apply Guarantee.holds_bind (R := fun _ t' ↦ t' = t)
    (Guarantee.holds_attempt trivial (fun c ↦ by cases c <;> rfl)) _ (by simp)
  rintro object t' - rfl
  apply Guarantee.holds_bind (reading_reuseMaps _ _) _ (by simp)
  rintro seen t - rfl
  refine Guarantee.holds_check (fun openPorts _ ↦ ?_) (fun _ _ ↦ nofun)
  refine Guarantee.holds_check (fun redirSocket _ ↦ ?_) (fun _ _ ↦ nofun)
  apply Guarantee.holds_bind
    (R := fun r _ ↦ ∀ q : Program, r = .ok q → q.id = Plane.nextProgram t)
    (Guarantee.holds_attempt ?_ ?_) _ (by simp)
  · exact ⟨rfl, rfl⟩
  · intro c q hq
    have hq := (orFail_eq_ok _ _ _).mp hq
    cases c with
    | works n =>
      obtain rfl := Except.ok.inj hq
      rfl
    | fails n => cases hq
  · rintro q u - hq
    refine Guarantee.holds_check (fun _ _ ↦ ?_) (fun _ _ ↦ nofun)
    refine Guarantee.holds_check (fun _ _ ↦ ?_) (fun _ _ ↦ nofun)
    refine Guarantee.holds_pure (fun c hc ↦ ?_)
    obtain rfl := Except.ok.inj hc
    exact hq q rfl

/-- What passes the preflight is a new program. -/
theorem still_preflight (candidate : Path) (window : Nat) :
    still.Holds (preflight site candidate window)
      (fun r _ ↦ ∀ q, r = .ok q → q.id = s.nextProgram) s := by
  apply Guarantee.holds_bind
    (R := fun r _ ↦ ∀ c, r = .ok (.ok c) → c.program.id = Plane.nextProgram s)
    (Guarantee.holds_outcome (((reading_loadCandidate candidate).mono reading_le).post ?_)) _
    (by simp)
  · intro r t _ h c hc
    exact h c (Except.ok.inj hc)
  · intro loaded t hst hc
    split
    · refine Guarantee.holds_bind (R := fun _ _ ↦ True) ?_ (fun _ _ _ _ ↦ ?_) (by simp)
      · exact Guarantee.confines_of_only (Code.only_outcome (quiet_writeJournal site _))
          (fun _ _ h ↦ h) t
      · exact Guarantee.holds_throw nofun
    · next c =>
      refine Guarantee.holds_ite (fun _ ↦ ?_) (fun _ ↦ Guarantee.holds_throw nofun)
      refine Guarantee.holds_pure (fun q hq ↦ ?_)
      obtain rfl := Except.ok.inj hq
      exact hc c rfl

end Specs

end SkLookup.Upgrade
