import SkLookup.Effect.Watched
import SkLookup.Loader.Rescan
import SkLookup.Runs.Agreement
import SkLookup.Runs.OnePolicy

/-!
# The listener behind an open port

Which slots of `redir_socket` a loader has registered, and which slots the open ports have. The
slots are registered by the start, for the state that it finds; later operations open ports with
any of the two.
-/

namespace SkLookup

open Codec Effect

/-- The observer notes every slot of `redir_socket` that is registered. -/
def registrations : (o : Op) → World → o.Res → Option Bytes
  | .redirUpdate key _, _, r =>
    match (r : Except IoError Unit) with
    | .ok _ => some key
    | .error _ => none
  | _, _, _ => none

/-- The machine with the registrations so far. -/
abbrev registering : Machine sig := machine.watched registrations

/-- What happens to a loader after its start. -/
inductive Later where
  /-- An edit, by the loader or next to it. -/
  | edit (x : Edit)
  /-- `rescan_held`. -/
  | rescan (target : Text) (tlsTarget : Option Text) (held : List Nat) (primary tls : ListenHealth)

namespace Later

/-- What runs. -/
def task (host : Host) : Later → Task Unit
  | .edit x => x.task host
  | .rescan target tlsTarget held primary tls => do
    let _ ← rescanHeld host target tlsTarget held primary tls
    pure ()

/-- Additions from the command line or the socket, which name one of the two slots, removals,
reconciles and rescans. -/
def Serves : Later → Prop
  | .edit (.add a) => ∃ tls, a.binding.slot = ctlSlot tls
  | .edit (.openPinned _ _ _) => False
  | .edit (.applyCentral _) => False
  | _ => True

/-- No port is put with the TLS slot. -/
def PutsNoTls (w : World) : Later → Prop
  | .edit (.add a) => a.binding.slot = redirPrimary
  | .edit (.reconcile args) => ∀ flags desired port, reconcileFlags args = .ok flags →
    desiredAt w flags.portsFile flags.policyFile = .ok desired → slotOf desired port ≠ some redirTls
  | .edit (.reload portsFile policyFile) => ∀ desired port,
    desiredAt w portsFile policyFile = .ok desired → slotOf desired port ≠ some redirTls
  | _ => True

end Later

/-- The state that a loader starts with has a TLS port. -/
def StartsWithTls (w : World) (args : LongRunningArgs) : Prop :=
  ∃ desired port, startDesired w args = .ok desired ∧ slotOf desired port = some redirTls

/-- The key of a slot in `redir_socket`. -/
abbrev slotKey (e : Endian) (slot : Slot) : Bytes := wordBytes e slot.toUInt32

section Start

variable {host : Host} {args : LongRunningArgs} {w : World}

/-- A registration that succeeds is noted. -/
private theorem notes_registerListenFd (fd : Nat) (slot : Slot) (s : registering.State) :
    (Guarantee.noting machine registrations).Holds (registerListenFd host fd slot.toUInt32)
      (fun r t ↦ r = .ok () → slotKey host.endian slot ∈ t.2) s := by
  apply Guarantee.holds_ite
  · exact fun _ ↦ Guarantee.holds_throw nofun
  · intro _
    apply Guarantee.holds_attempt trivial
    intro c hok
    cases c with
    | works found => exact List.mem_append_right _ (List.mem_singleton.mpr rfl)
    | fails after => cases hok

private theorem noted {p : Task Unit} {s : registering.State} :
    (Guarantee.noting machine registrations).Confines p s :=
  Guarantee.confines_of_allow (fun _ _ ↦ trivial) p s

/-- The TLS fallback registers the TLS slot when there are ports for it. -/
private theorem notes_runTlsFallback (tls : List Port) (s : registering.State) :
    (Guarantee.noting machine registrations).Holds (runTlsFallback host args tls)
      (fun r t ↦ r = .ok () → tls ≠ [] → slotKey host.endian redirTls ∈ t.2) s := by
  apply Guarantee.holds_ite
  · exact fun hempty ↦ Guarantee.holds_pure (fun _ hne ↦ absurd hempty hne)
  · intro _
    apply Guarantee.holds_bind (Guarantee.confines_of_allow (fun _ _ ↦ trivial) _ _)
    · intro fd t _ _
      apply Guarantee.holds_bind (notes_registerListenFd fd redirTls t)
      · intro _ u _ hkey
        apply noted.post
        exact fun _ v hv _ _ _ ↦ hv _ (hkey rfl)
      · exact fun _ _ _ _ ↦ nofun
    · exact fun _ _ _ _ ↦ nofun

/-- The start of a loader in `openresty` mode registers the primary slot, and the TLS slot when
its state has TLS ports. -/
private theorem notes_runMode (hmode : args.mode = .openResty) (desired : DesiredPorts)
    (s : registering.State) :
    (Guarantee.noting machine registrations).Holds (runMode host args desired)
      (fun r t ↦ r = .ok () → slotKey host.endian redirPrimary ∈ t.2 ∧
        (portsWithSlot desired redirTls ≠ [] → slotKey host.endian redirTls ∈ t.2)) s := by
  apply Guarantee.holds_ite
  · intro _
    apply Guarantee.holds_bind (Guarantee.confines_of_allow (fun _ _ ↦ trivial) _ _)
    · intro fd t _ _
      apply Guarantee.holds_bind (notes_registerListenFd fd redirPrimary t)
      · intro _ u _ hprimary
        apply Guarantee.holds_bind noted
        · intro _ v hv _
          apply (notes_runTlsFallback _ v).post
          intro r x hx htls hr
          exact ⟨hx _ (hv _ (hprimary rfl)), htls hr⟩
        · exact fun _ _ _ _ ↦ nofun
      · exact fun _ _ _ _ ↦ nofun
    · exact fun _ _ _ _ ↦ nofun
  · exact fun hno ↦ absurd hmode hno

/-- What a successful start has registered. -/
private theorem notes_startLoader (hmode : args.mode = .openResty) (l : List Bytes) :
    (Guarantee.noting machine registrations).Holds (startLoader host args)
      (fun r t ↦ r = .ok () → slotKey host.endian redirPrimary ∈ t.2 ∧
        (StartsWithTls w args → slotKey host.endian redirTls ∈ t.2)) (w, l) := by
  have hlock : Keeps host.endian .none (attempt .loaderLock
      (orFail "another loader owns the lock; refusing to load/attach/pin"))
      (fun _ w' ↦ w' = w) w := Guarantee.holds_attempt trivial (fun _ ↦ rfl)
  apply Guarantee.holds_bind (hlock.watched l)
  · rintro - ⟨t, l⟩ - ⟨-, rfl⟩
    have hload : Keeps host.endian .none (loadPolicy args.policyPath) _ t :=
      keeps_loadPolicy args.policyPath
    apply Guarantee.holds_bind (hload.watched l)
    · rintro policy ⟨t, l⟩ - ⟨-, rfl, hpolicy⟩
      apply Guarantee.holds_bind ((keeps_desiredOrSeed (hpolicy policy rfl)).watched l)
      · rintro desired ⟨u, l'⟩ - ⟨-, hstart⟩
        have hdesired := hstart desired rfl
        apply Guarantee.holds_bind noted
        · intro _ u₁ _ _
          apply Guarantee.holds_bind (Guarantee.confines_of_allow (fun _ _ ↦ trivial) _ _)
          · intro _ u₂ _ _
            apply Guarantee.holds_bind (notes_runMode hmode desired u₂)
            · intro _ u₃ _ hmodes
              apply Guarantee.Holds.post (Guarantee.confines_of_allow (fun _ _ ↦ trivial) _ _)
              intro r v hv _ hr
              obtain ⟨hprimary, htls⟩ := hmodes rfl
              refine ⟨hv _ hprimary, fun ⟨d, port, hd, hslot⟩ ↦ hv _ (htls ?_)⟩
              obtain rfl := Except.ok.inj (hdesired.symm.trans hd)
              exact List.ne_nil_of_mem (mem_portsWithSlot.mpr hslot)
            · exact fun _ _ _ _ ↦ nofun
          · exact fun _ _ _ _ ↦ nofun
        · exact fun _ _ _ _ ↦ nofun
      · exact fun _ _ _ _ ↦ nofun
    · exact fun _ _ _ _ ↦ nofun
  · exact fun _ _ _ _ ↦ nofun

end Start

/-- Every open port has a slot that is registered, and the primary slot is. -/
structure Backed (e : Endian) (tlsStarted : Prop) (w : World) (l : List Bytes) : Prop where
  primary : slotKey e redirPrimary ∈ l
  tls : tlsStarted → slotKey e redirTls ∈ l
  slot : ∀ port slot, w.slot e port = some slot → slotKey e slot ∈ l

section Step

variable {host : Host} {tlsStarted : Prop} {w w' : World} {l l' : List Bytes}

/-- The slots of the file are registered, unless it names the TLS slot for the first time. -/
private theorem Backed.loads (h : Backed host.endian tlsStarted w l)
    (hl : ∀ x ∈ l, x ∈ l') {path policyPath : Path} {desired : DesiredPorts}
    (hload : desiredAt w path policyPath = .ok desired)
    (hwhen : tlsStarted ∨ ∀ port, slotOf desired port ≠ some redirTls)
    (hslot : ∀ port, w'.slot host.endian port = slotOf desired port) :
    Backed host.endian tlsStarted w' l' := by
  refine ⟨hl _ h.primary, fun hs ↦ hl _ (h.tls hs), fun port slot hp ↦ hl _ ?_⟩
  rw [hslot] at hp
  obtain ⟨b, hb, rfl⟩ := Option.map_eq_some_iff.mp hp
  obtain ⟨-, -, -, hwritable⟩ := of_desiredAt hload
  rcases twoSlots_of_writable hwritable port b hb with hprimary | htls
  · rw [hprimary]
    exact h.primary
  · rw [htls]
    rcases hwhen with hs | hno
    · exact h.tls hs
    · exact absurd (hp.trans (congrArg some htls)) (hno port)

private theorem Backed.add (h : Backed host.endian tlsStarted w l) (hl : ∀ x ∈ l, x ∈ l')
    {a : Addition} (hserves : ∃ tls, a.binding.slot = ctlSlot tls)
    (hwhen : tlsStarted ∨ a.binding.slot = redirPrimary)
    (hr : machine.Steps (applyAdd host a).run w (.ret (.ok ())) w') :
    Backed host.endian tlsStarted w' l' := by
  obtain ⟨-, hpost⟩ := (keeps_applyAdd a).ended hr
  obtain ⟨-, -, -, hslot⟩ := hpost rfl
  refine ⟨hl _ h.primary, fun hs ↦ hl _ (h.tls hs), fun port slot hp ↦ hl _ ?_⟩
  rw [hslot] at hp
  split at hp
  · obtain rfl := Option.some.inj hp
    rcases hwhen with hs | hprimary
    · obtain ⟨tls, htls⟩ := hserves
      rw [htls]
      cases tls with
      | true => exact h.tls hs
      | false => exact h.primary
    · rw [hprimary]
      exact h.primary
  · exact h.slot port slot hp

private theorem Backed.remove (h : Backed host.endian tlsStarted w l) (hl : ∀ x ∈ l, x ∈ l')
    {r : Removal} (hr : machine.Steps (applyRemove host r).run w (.ret (.ok ())) w') :
    Backed host.endian tlsStarted w' l' := by
  obtain ⟨-, hpost⟩ := (keeps_applyRemove r).ended hr
  obtain ⟨-, hslot⟩ := hpost rfl
  refine ⟨hl _ h.primary, fun hs ↦ hl _ (h.tls hs), fun port slot hp ↦ hl _ ?_⟩
  rw [hslot] at hp
  split at hp
  · cases hp
  · exact h.slot port slot hp

/-- A step that leaves the map keeps it backed. -/
private theorem Backed.same (h : Backed host.endian tlsStarted w l) (hl : ∀ x ∈ l, x ∈ l')
    (hslot : ∀ port, w'.slot host.endian port = w.slot host.endian port) :
    Backed host.endian tlsStarted w' l' := by
  refine ⟨hl _ h.primary, fun hs ↦ hl _ (h.tls hs), fun port slot hp ↦ hl _ ?_⟩
  rw [hslot] at hp
  exact h.slot port slot hp

private theorem Backed.reconcile (h : Backed host.endian tlsStarted w l) (hl : ∀ x ∈ l, x ∈ l')
    {args : List Text}
    (hwhen : tlsStarted ∨ (Later.edit (.reconcile args)).PutsNoTls w)
    (hr : machine.Steps (ctlReconcile host args).run w (.ret (.ok ())) w') :
    Backed host.endian tlsStarted w' l' := by
  obtain ⟨flags, hflags, ⟨-, rfl⟩ | ⟨-, hbody⟩⟩ := of_withFlags hr
  · exact h.same hl (fun _ ↦ rfl)
  · obtain ⟨-, hpost⟩ := (keeps_reconcileWith flags).ended hbody
    obtain ⟨desired, hrec, hslot⟩ := hpost rfl
    apply h.loads hl hrec.loads _ hslot
    exact hwhen.imp_right (fun hno port ↦ hno flags desired port hflags hrec.loads)

private theorem Backed.reload (h : Backed host.endian tlsStarted w l) (hl : ∀ x ∈ l, x ∈ l')
    {portsFile policyFile : Path}
    (hwhen : tlsStarted ∨ (Later.edit (.reload portsFile policyFile)).PutsNoTls w)
    (hr : machine.Steps (sighupReconcile host portsFile policyFile).run w (.ret (.ok ())) w') :
    Backed host.endian tlsStarted w' l' := by
  obtain ⟨-, hpost⟩ := (keeps_sighupReconcile portsFile policyFile).ended hr
  obtain ⟨desired, hload, hslot⟩ := hpost rfl
  apply h.loads hl hload _ hslot
  exact hwhen.imp_right (fun hno port ↦ hno desired port hload)

private theorem stays_rescan (target : Text) (tlsTarget : Option Text) (held : List Nat)
    (primary tls : ListenHealth) :
    Stays host.endian .none ((Later.rescan target tlsTarget held primary tls).task host) w :=
  (stays_rescanHeld _ _ _ _ _).then (fun _ _ _ ↦ Guarantee.confines_pure ())

/-- Every operation keeps the open ports backed. -/
theorem Backed.later (h : Backed host.endian tlsStarted w l) {later : Later}
    (hserves : later.Serves) (hwhen : tlsStarted ∨ later.PutsNoTls w)
    (hr : registering.Steps (later.task host).run (w, l) (.ret (.ok ())) (w', l')) :
    Backed host.endian tlsStarted w' l' := by
  have hl : ∀ x ∈ l, x ∈ l' := (@noted (later.task host) (w, l)).reached hr
  have hrun : machine.Steps (later.task host).run w (.ret (.ok ())) w' := hr.unwatched
  cases later with
  | rescan target tlsTarget held primary tls =>
    exact h.same hl ((stays_rescan target tlsTarget held primary tls).reached hrun).slot_eq
  | edit x =>
    cases x with
    | add a => exact h.add hl hserves hwhen hrun
    | remove r => exact h.remove hl hrun
    | openPinned args http tls => exact hserves.elim
    | reconcile args => exact h.reconcile hl hwhen hrun
    | applyCentral args => exact hserves.elim
    | reload portsFile policyFile => exact h.reload hl hwhen hrun

end Step

/-- A loader in `openresty` mode has registered the slot of every open port, after every sequence
of additions, reconciles and rescans that succeed, when it started with a TLS port or nothing
puts a port with the TLS slot. -/
theorem slots_registered (host : Host) (args : LongRunningArgs) (w₀ w₁ w : World)
    (l₁ l : List Bytes) (hmode : args.mode = .openResty)
    (hstart : registering.Steps (startLoader host args).run (w₀, []) (.ret (.ok ())) (w₁, l₁))
    (h : registering.Achieves (fun x : Host × Later ↦ x.2.task x.1)
      (fun t x ↦ x.1.endian = host.endian ∧ x.2.Serves ∧
        (StartsWithTls w₀ args ∨ x.2.PutsNoTls t.1)) (w₁, l₁) (w, l)) :
    ∀ port slot, w.slot host.endian port = some slot → slotKey host.endian slot ∈ l := by
  obtain ⟨hprimary, htls⟩ := ((notes_startLoader hmode []).ended hstart).2 rfl
  obtain ⟨desired, hdesired, hslot⟩ := ((keeps_startLoader args).ended hstart.unwatched).2 rfl
  obtain ⟨-, -, htwo, -⟩ := of_startDesired hdesired
  have hbacked : Backed host.endian (StartsWithTls w₀ args) w₁ l₁ := by
    refine ⟨hprimary, htls, fun port slot hp ↦ ?_⟩
    have hp' : slotOf desired port = some slot := (hslot port).symm.trans hp
    obtain ⟨b, hb, rfl⟩ := Option.map_eq_some_iff.mp hp'
    rcases htwo port b hb with hzero | hone
    · rw [hzero]
      exact hprimary
    · rw [hone]
      exact htls ⟨desired, port, hdesired, hone ▸ hp'⟩
  have hrun : Backed host.endian (StartsWithTls w₀ args) w l := by
    refine h.invariant
      (I := fun s : World × List Bytes ↦ Backed host.endian (StartsWithTls w₀ args) s.1 s.2)
      hbacked ?_
    rintro ⟨t, lt⟩ ⟨host', later⟩ ⟨u, lu⟩ ht ⟨he, hserves, hwhen⟩ ⟨_, hr⟩
    dsimp only at he ht hr hwhen
    rw [← he] at ht ⊢
    exact ht.later hserves hwhen hr
  exact hrun.slot

/-- A loader's start on a machine whose file has the given lines. -/
private def startedOn (lines : String) : registering.State :=
  (registering.run (startLoader .plain targetArgs).run (fun _ _ ↦ .works 0)
    (lineWorld lines, [])).1

/-- An addition of a TLS port. -/
private def tlsAddition : Addition :=
  { onePortAddition 18082 true with
    binding := ⟨redirTls, "acme".toList, "www".toList, none, none⟩ }

/-- That addition behind the start. -/
private def addedOn (lines : String) : registering.State :=
  (registering.run (applyAdd .plain tlsAddition).run (fun _ _ ↦ .works 0) (startedOn lines)).1

private theorem steps_startedOn {lines : String}
    (hok : (registering.run (startLoader .plain targetArgs).run (fun _ _ ↦ .works 0)
      (lineWorld lines, [])).2 = .ok ()) :
    registering.Steps (startLoader .plain targetArgs).run (lineWorld lines, [])
      (.ret (.ok ())) (startedOn lines) := by
  have hsteps := registering.steps_run (startLoader .plain targetArgs).run (fun _ _ ↦ .works 0)
    (lineWorld lines, [])
  rw [hok] at hsteps
  exact hsteps

private theorem achieves_addedOn {lines : String} {starts : registering.State → Host × Later → Prop}
    (hok : (registering.run (applyAdd .plain tlsAddition).run (fun _ _ ↦ .works 0)
      (startedOn lines)).2 = .ok ())
    (hstarts : starts (startedOn lines) (.plain, .edit (.add tlsAddition))) :
    registering.Achieves (fun x : Host × Later ↦ x.2.task x.1) starts (startedOn lines)
      (addedOn lines) := by
  have hsteps := registering.steps_run (applyAdd .plain tlsAddition).run (fun _ _ ↦ .works 0)
    (startedOn lines)
  rw [hok] at hsteps
  exact .run (i := (.plain, .edit (.add tlsAddition))) .refl hstarts hsteps

/-- A plain port and a TLS port. -/
private def bothLines : String := "18081 acme www\n18444 acme www tls\n"

private theorem startsWithTls_bothLines : StartsWithTls (lineWorld bothLines) targetArgs := by
  have hslot : (startDesired (lineWorld bothLines) targetArgs).toOption.bind
      (fun desired ↦ slotOf desired 18444) = some redirTls := by decide +kernel
  obtain ⟨desired, hdesired, hslot⟩ := Option.bind_eq_some_iff.mp hslot
  cases hd : startDesired (lineWorld bothLines) targetArgs with
  | ok d =>
    rw [hd] at hdesired
    obtain rfl := Option.some.inj hdesired
    exact ⟨d, 18444, hd, hslot⟩
  | error err =>
    rw [hd] at hdesired
    cases hdesired

/-- The slot of a TLS port that is added to a loader with another one is registered. -/
theorem slots_registered_added : slotKey .little redirTls ∈ (addedOn bothLines).2 :=
  slots_registered .plain targetArgs _ _ _ _ _ rfl (steps_startedOn (by decide +kernel))
    (achieves_addedOn (by decide +kernel) ⟨rfl, ⟨true, rfl⟩, .inl startsWithTls_bothLines⟩)
    18082 redirTls (by decide +kernel)

/-- A loader that started without TLS ports never registers the slot of a TLS port added later. -/
theorem tlsAddition_not_registered :
    ¬ ∀ (host : Host) (args : LongRunningArgs) (w₀ w₁ w : World) (l₁ l : List Bytes),
      args.mode = .openResty →
      registering.Steps (startLoader host args).run (w₀, []) (.ret (.ok ())) (w₁, l₁) →
      registering.Achieves (fun x : Host × Later ↦ x.2.task x.1)
        (fun _ x ↦ x.1.endian = host.endian ∧ x.2.Serves) (w₁, l₁) (w, l) →
      ∀ port slot, w.slot host.endian port = some slot → slotKey host.endian slot ∈ l := by
  intro h
  have hstart := @steps_startedOn "18081 acme www\n" (by decide +kernel)
  have hrun : registering.Achieves (fun x : Host × Later ↦ x.2.task x.1)
      (fun _ x ↦ x.1.endian = .little ∧ x.2.Serves) (startedOn "18081 acme www\n")
      (addedOn "18081 acme www\n") :=
    achieves_addedOn (by decide +kernel) ⟨rfl, true, rfl⟩
  have hopen : (addedOn "18081 acme www\n").1.slot .little 18082 = some redirTls := by
    decide +kernel
  have hkey := h .plain targetArgs _ _ _ _ _ rfl hstart hrun 18082 redirTls hopen
  revert hkey
  decide +kernel

end SkLookup
