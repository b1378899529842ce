import SkLookup.Ctl.Reconcile

/-!
# Opening and closing ports

`apply_add` and `apply_remove` of `src/rust/loader/src/ctl.rs`, through which every command
that opens or closes listed ports goes. Lines printed for the operator are left out.
-/

namespace SkLookup

open Codec Effect

/-- The arguments of `apply_add`, `src/rust/loader/src/ctl.rs:691`. -/
structure Addition where
  pinDir : Path
  portsFile : Path
  policyFile : Path
  ports : List Port
  binding : PortBinding
  batch : Nat
  progress : Bool
  syncFile : Bool
  nginxConf : Path
  metricsFile : Path
  deriving DecidableEq, Repr

/-- The arguments of `apply_remove`, `src/rust/loader/src/ctl.rs:737`. -/
structure Removal where
  pinDir : Path
  portsFile : Path
  policyFile : Path
  ports : List Port
  batch : Nat
  progress : Bool
  syncFile : Bool
  deriving DecidableEq, Repr

/-- Writing the desired file unless the live map alone is edited. -/
def syncDesired (host : Host) (syncFile : Bool) (portsFile : Path) (desired : DesiredPorts) :
    Task Unit :=
  if syncFile then writeDesired host portsFile desired else pure ()

/-- `apply_add`, `src/rust/loader/src/ctl.rs:691`. -/
def applyAdd (host : Host) (a : Addition) : Task Unit := do
  let desired ← desiredOrEmpty a.portsFile a.policyFile
  let tree : ConfTree ← ask .confTree
  let real ← Code.ofExcept (Nginx.realPorts tree a.nginxConf)
  counting a.metricsFile (failOnOverlap real desired ∅ a.ports)
  let policy ← loadPolicy a.policyFile
  counting a.metricsFile (Policy.validate (insertAll desired a.binding a.ports) policy)
  let opened ← Code.outcome (loadPinnedOpenPorts a.pinDir)
  counting a.metricsFile opened
  let current ← readMap host
  counting a.metricsFile (failOnOverlap real (insertAll desired a.binding a.ports) current [])
  syncDesired host a.syncFile a.portsFile (insertAll desired a.binding a.ports)
  let _ ← bulkPutPorts host a.ports a.binding.slot a.batch a.progress
  pure ()

/-- The file part of `apply_remove`, `src/rust/loader/src/ctl.rs:748-754`. -/
def removeFromFile (host : Host) (r : Removal) : Task Unit :=
  if r.syncFile then do
    let desired ← loadWithPolicy r.portsFile r.policyFile
    writeDesired host r.portsFile (removeAll desired r.ports)
  else pure ()

/-- `apply_remove`, `src/rust/loader/src/ctl.rs:737`. -/
def applyRemove (host : Host) (r : Removal) : Task Unit := do
  loadPinnedOpenPorts r.pinDir
  removeFromFile host r
  let _ ← bulkDeletePorts host r.ports r.batch r.progress
  pure ()

/-- What `apply_add` does before it writes: it makes the new state and checks it;
`src/rust/loader/src/ctl.rs:704-716`. -/
def checkAddition (host : Host) (a : Addition) : Task DesiredPorts := do
  let desired ← desiredOrEmpty a.portsFile a.policyFile
  let tree : ConfTree ← ask .confTree
  let real ← Code.ofExcept (Nginx.realPorts tree a.nginxConf)
  counting a.metricsFile (failOnOverlap real desired ∅ a.ports)
  let policy ← loadPolicy a.policyFile
  counting a.metricsFile (Policy.validate (insertAll desired a.binding a.ports) policy)
  let opened ← Code.outcome (loadPinnedOpenPorts a.pinDir)
  counting a.metricsFile opened
  let current ← readMap host
  counting a.metricsFile (failOnOverlap real (insertAll desired a.binding a.ports) current [])
  pure (insertAll desired a.binding a.ports)

-- What follows a sequence follows its last part.
private theorem bind_follow {α β γ : Type} {p : Task α} {f : α → Task β} {g : β → Task γ}
    {k : α → Task γ} (h : ∀ x, f x >>= g = k x) : (p >>= f) >>= g = p >>= k :=
  (bind_assoc _ _ _).trans (bind_congr h)

/-- An addition checks, writes the file and edits the map. -/
theorem applyAdd_eq (host : Host) (a : Addition) :
    applyAdd host a = (do
      let desired ← checkAddition host a
      syncDesired host a.syncFile a.portsFile desired
      let _ ← bulkPutPorts host a.ports a.binding.slot a.batch a.progress
      pure ()) := by
  symm
  apply bind_follow; intro desired
  apply bind_follow; intro tree
  apply bind_follow; intro real
  apply bind_follow; intro _
  apply bind_follow; intro policy
  apply bind_follow; intro _
  apply bind_follow; intro opened
  apply bind_follow; intro _
  apply bind_follow; intro current
  apply bind_follow; intro _
  rfl

/-! ### What the edits need and do -/

/-- An addition passes all checks of `apply_add` and makes `desired` of the ports file. -/
structure Addable (e : Endian) (w : World) (a : Addition) (desired : DesiredPorts) : Prop where
  grows : ∃ old, desiredOrEmptyAt w a.portsFile a.policyFile = .ok old ∧
    desired = insertAll old a.binding a.ports
  valid : ValidAt w a.policyFile desired
  clear : ClearOf e w a.nginxConf desired

/-- The ports of an addition are in the state it makes. -/
theorem Addable.mem {e : Endian} {w : World} {a : Addition} {desired : DesiredPorts}
    (h : Addable e w a desired) {port : Port} (hp : port ∈ a.ports) : port ∈ desired := by
  obtain ⟨old, -, rfl⟩ := h.grows
  rw [Std.ExtTreeMap.mem_iff_isSome_getElem?, getElem?_insertAll, if_pos hp]
  rfl

/-- The ports of an addition have its slot in the state it makes. -/
theorem Addable.slotOf_eq {e : Endian} {w : World} {a : Addition} {desired : DesiredPorts}
    (h : Addable e w a desired) {port : Port} (hp : port ∈ a.ports) :
    slotOf desired port = some a.binding.slot := by
  obtain ⟨old, -, rfl⟩ := h.grows
  rw [slotOf, getElem?_insertAll, if_pos hp]
  rfl

/-- What an addition may do: once its checks passed, write its state and open its ports. -/
def adding (e : Endian) (w : World) (a : Addition) : Grant where
  store path desired := a.syncFile = true ∧ path = a.portsFile ∧ Addable e w a desired
  move port v := port ∈ a.ports ∧ v = some a.binding.slot ∧ ∃ desired, Addable e w a desired
  writes _ := False

/-- What a removal may do: take its ports out of the file and close them. -/
def removing (w : World) (r : Removal) : Grant where
  store path desired := r.syncFile = true ∧ path = r.portsFile ∧
    ∃ old, desiredAt w r.portsFile r.policyFile = .ok old ∧ desired = removeAll old r.ports
  move port v := port ∈ r.ports ∧ v = none
  writes _ := False

section Specs

variable {host : Host} {w : World} {g : Grant}

/-- A synced file holds the text of the state; a failed write leaves it alone. -/
theorem keeps_syncDesired {syncFile : Bool} {portsFile : Path} {desired : DesiredPorts}
    (hg : syncFile = true → g.store portsFile desired) :
    Keeps host.endian g (syncDesired host syncFile portsFile desired)
      (fun r w' ↦ (∀ p, w'.slot host.endian p = w.slot host.endian p) ∧
        (r = .ok () → syncFile = true →
          w'.files .ports portsFile = some (desiredText desired)) ∧
        (r ≠ .ok () ∨ syncFile = false → ∀ p, w'.files .ports p = w.files .ports p)) w := by
  refine Guarantee.holds_ite (fun hsync ↦ ?_) (fun hsync ↦ Guarantee.holds_pure ?_)
  · have hle : (Grant.storing portsFile desired).Le g :=
      ⟨fun ⟨hp, hd⟩ ↦ hp ▸ hd ▸ hg hsync, False.elim, False.elim⟩
    refine ((keeps_writeDesired portsFile desired).post ?_).mono hle.guarantee
    rintro r w' hw ⟨hok, herr⟩
    refine ⟨fun p ↦ hw.slot_eq_of_not_move (fun _ ↦ id), fun hr _ ↦ hok hr, fun hn ↦ ?_⟩
    cases r with
    | error err => exact herr err rfl
    | ok u => simp [hsync] at hn
  · exact ⟨fun _ ↦ rfl, fun _ h ↦ absurd h hsync, fun _ _ ↦ rfl⟩

/-- The checks of an addition change nothing but metrics; when they pass, the state they made is
that of the addition, and the map is there. -/
theorem keeps_checkAddition (a : Addition) :
    Keeps host.endian .none (checkAddition host a)
      (fun r w' ↦ ∀ desired, r = .ok desired →
        w' = w ∧ Addable host.endian w a desired ∧ w.pinned a.pinDir = true) w := by
  refine Guarantee.holds_bind (keeps_desiredOrEmpty _ _) ?_ (by simp)
  rintro desired w - ⟨rfl, hdesired⟩
  refine Guarantee.holds_bind keeps_confTree ?_ (by simp)
  rintro tree w - ⟨rfl, htree⟩
  obtain rfl := Except.ok.inj htree
  refine Guarantee.holds_check (fun real hreal ↦ ?_) (by simp)
  refine Guarantee.holds_bind (keeps_check _ _) ?_ (by simp)
  rintro u w - hchecked
  obtain ⟨rfl, -⟩ := hchecked _ rfl
  refine Guarantee.holds_bind (keeps_loadPolicy _) ?_ (by simp)
  rintro policy w - ⟨rfl, hpolicy⟩
  refine Guarantee.holds_bind (keeps_check _ _) ?_ (by simp)
  rintro u w - hchecked
  obtain ⟨rfl, hvalid⟩ := hchecked _ rfl
  refine Guarantee.holds_bind
    (R := fun r w' ↦ w' = w ∧ (r = .ok (.ok ()) → w.pinned a.pinDir = true))
    (Guarantee.holds_outcome ((keeps_loadPinnedOpenPorts _).post ?_)) ?_ (by simp)
  · exact fun r w' _ h ↦ ⟨h.1, fun hr ↦ h.2 (Except.ok.inj hr)⟩
  rintro opened w - ⟨rfl, hpinned⟩
  refine Guarantee.holds_bind (keeps_check _ _) ?_ (by simp)
  rintro u w - hchecked
  obtain ⟨rfl, hopened⟩ := hchecked _ rfl
  refine Guarantee.holds_bind keeps_readMap ?_ (by simp)
  rintro current w - ⟨rfl, hcurrent⟩
  refine Guarantee.holds_bind (keeps_check _ _) ?_ (by simp)
  rintro u w - hchecked
  obtain ⟨rfl, hlive⟩ := hchecked _ rfl
  refine Guarantee.holds_pure fun desired' hr ↦ ?_
  obtain rfl := Except.ok.inj hr
  refine ⟨rfl, ⟨⟨desired, hdesired desired rfl, rfl⟩, ⟨policy, hpolicy policy rfl, hvalid⟩,
    real, hreal, fun p hp ↦ ?_⟩, hpinned (by rw [hopened])⟩
  have hl := failOnOverlap_eq_ok.mp hlive p hp
  rw [← hcurrent current rfl p]
  exact ⟨hl.1, Std.ExtTreeMap.getElem?_eq_none hl.2.1⟩

/-- `apply_add` changes nothing before its checks passed; when it succeeds its ports are open
with their slot and, unless told otherwise, the file holds the state with them. -/
theorem keeps_applyAdd (a : Addition) :
    Keeps host.endian (adding host.endian w a) (applyAdd host a)
      (fun r w' ↦ r = .ok () → ∃ desired, Addable host.endian w a desired ∧
        (a.syncFile = true → w'.files .ports a.portsFile = some (desiredText desired)) ∧
        ∀ q, w'.slot host.endian q =
          if q ∈ a.ports then some a.binding.slot else w.slot host.endian q) w := by
  rw [applyAdd_eq]
  refine Guarantee.holds_bind ((keeps_checkAddition a).mono (Grant.none_le _).guarantee) ?_
    (by simp)
  rintro desired w₁ - hchecked
  obtain ⟨rfl, haddable, -⟩ := hchecked _ rfl
  refine Guarantee.holds_bind (keeps_syncDesired (fun hs ↦ ⟨hs, rfl, haddable⟩)) ?_ (by simp)
  rintro u v - ⟨hslots, hfile, -⟩
  have hle : (putting a.ports a.binding.slot).Le (adding host.endian w₁ a) :=
    ⟨False.elim, fun ⟨hp, hv⟩ ↦ ⟨hp, hv, _, haddable⟩, False.elim⟩
  refine Guarantee.holds_bind ((keeps_bulkPutPorts _ _ _ _).strengthen.mono hle.guarantee) ?_
    (by simp)
  rintro res x - ⟨hx, hput⟩
  refine Guarantee.holds_pure fun _ ↦ ⟨_, haddable, fun hs ↦ ?_, fun q ↦ ?_⟩
  · rw [(hx.ports a.portsFile).resolve_right (fun ⟨_, h, _⟩ ↦ h)]
    exact hfile rfl hs
  · rw [(hput res rfl).2 q, hslots q]

/-- Taking ports out of the file moves no port; a failure leaves the file alone. -/
theorem keeps_removeFromFile (r : Removal) :
    Keeps host.endian (removing w r) (removeFromFile host r)
      (fun res w' ↦ (∀ p, w'.slot host.endian p = w.slot host.endian p) ∧
        (res = .ok () → r.syncFile = true →
          ∃ old, desiredAt w r.portsFile r.policyFile = .ok old ∧
            w'.files .ports r.portsFile = some (desiredText (removeAll old r.ports))) ∧
        (res ≠ .ok () ∨ r.syncFile = false → ∀ p, w'.files .ports p = w.files .ports p)) w := by
  refine Guarantee.holds_ite (fun hsync ↦ ?_) (fun hsync ↦ Guarantee.holds_pure ?_)
  · refine Guarantee.holds_bind (keeps_loadWithPolicy _ _) ?_ ?_
    · rintro old w - ⟨rfl, hold⟩
      have hle : (Grant.storing r.portsFile (removeAll old r.ports)).Le (removing w r) :=
        ⟨fun ⟨hp, hd⟩ ↦ ⟨hsync, hp, old, hold old rfl, hd⟩, False.elim, False.elim⟩
      refine ((keeps_writeDesired r.portsFile _).post ?_).mono hle.guarantee
      rintro res w' hw ⟨hok, herr⟩
      refine ⟨fun p ↦ hw.slot_eq_of_not_move (fun _ ↦ id),
        fun hr _ ↦ ⟨old, hold old rfl, hok hr⟩, fun hn ↦ ?_⟩
      cases res with
      | error err => exact herr err rfl
      | ok u => simp [hsync] at hn
    · rintro err w' - ⟨rfl, -⟩
      exact ⟨fun _ ↦ rfl, nofun, fun _ _ ↦ rfl⟩
  · exact ⟨fun _ ↦ rfl, fun _ h ↦ absurd h hsync, fun _ _ ↦ rfl⟩

/-- `apply_remove` closes its ports and, unless told otherwise, takes them out of the file. -/
theorem keeps_applyRemove (r : Removal) :
    Keeps host.endian (removing w r) (applyRemove host r)
      (fun res w' ↦ res = .ok () →
        (r.syncFile = true → ∃ old, desiredAt w r.portsFile r.policyFile = .ok old ∧
          w'.files .ports r.portsFile = some (desiredText (removeAll old r.ports))) ∧
        ∀ q, w'.slot host.endian q = if q ∈ r.ports then none else w.slot host.endian q) w := by
  refine Guarantee.holds_bind (keeps_loadPinnedOpenPorts _) ?_ (by simp)
  rintro u w - ⟨rfl, -⟩
  refine Guarantee.holds_bind (keeps_removeFromFile r) ?_ (by simp)
  rintro u v - ⟨hslots, hfile, -⟩
  have hle : (closing r.ports).Le (removing w r) := ⟨False.elim, id, False.elim⟩
  refine Guarantee.holds_bind ((keeps_bulkDeletePorts _ _ _).strengthen.mono hle.guarantee) ?_
    (by simp)
  rintro res x - ⟨hx, hdel⟩
  refine Guarantee.holds_pure fun _ ↦ ⟨fun hs ↦ ?_, fun q ↦ ?_⟩
  · rw [(hx.ports r.portsFile).resolve_right (fun ⟨_, h, _⟩ ↦ h)]
    exact hfile rfl hs
  · rw [(hdel res rfl).2 q, hslots q]

end Specs

end SkLookup
