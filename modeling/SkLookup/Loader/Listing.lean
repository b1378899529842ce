import SkLookup.Host.Reading
import SkLookup.Loader.Entry
import SkLookup.Nginx.Hits
import SkLookup.Nginx.Walk

/-!
# The listing of the control socket

The `list` operation of `execute` in `src/rust/loader/src/sockctl.rs` against the table of
`ctl_list`.
-/

namespace SkLookup

open Codec Effect

/-- The part of `Request` that a listing reads; `src/rust/loader/src/sockctl.rs:34`. -/
structure ListRequest where
  kind : Option Text
  countOnly : Bool
  deriving DecidableEq, Repr

/-- The answer to a listing; `src/rust/loader/src/sockctl.rs:161`. -/
inductive Listing where
  | count (n : Nat)
  | ports (entries : List (Port × Slot))
  deriving DecidableEq, Repr

/-- `real_listen_ports`, `src/rust/loader/src/nginx_listen.rs:39`. -/
def Nginx.realListenPorts (text : Text) : PortSet :=
  Nginx.innerRealPorts.insertMany (Nginx.parseListenPorts text)

/-- The real ports as a listing reads them, from one file; `src/rust/loader/src/sockctl.rs:155`. -/
def Nginx.rootPorts (tree : ConfTree) (path : Path) : PortSet :=
  match tree.content path with
  | some text => Nginx.realListenPorts text
  | none => Nginx.innerRealPorts

/-- Desired ports that the map lacks are added; `src/rust/loader/src/sockctl.rs:157`. -/
def addMissing (entries : List (Port × Slot)) : List (Port × PortBinding) → List (Port × Slot)
  | [] => entries
  | (port, binding) :: rest =>
    if entries.any (fun e ↦ e.1 = port) then addMissing entries rest
    else addMissing (entries ++ [(port, binding.slot)]) rest

/-- The order of `sort_unstable` on pairs. -/
def pairLe (a b : Port × Slot) : Prop := a.1 < b.1 ∨ a.1 = b.1 ∧ a.2 ≤ b.2

instance : DecidableRel pairLe := fun _ _ ↦ inferInstanceAs (Decidable (_ ∨ _))

/-- The desired ports that a listing adds: none when the file cannot be loaded;
`src/rust/loader/src/sockctl.rs:156`. -/
def wantedPorts : Result DesiredPorts → DesiredPorts
  | .ok desired => desired
  | .error _ => ∅

/-- The entries of a listing of kind `virtual`; `src/rust/loader/src/sockctl.rs:154-160`. -/
def virtualEntries (map : PortSlots) (root : PortSet) (wanted : Result DesiredPorts) :
    List (Port × Slot) :=
  (addMissing map.toList (wantedPorts wanted).toList).filter (fun e ↦ !root.contains e.1)

/-- The entries of a listing before they are sorted; `src/rust/loader/src/sockctl.rs:151-160`. -/
def listEntries (req : ListRequest) (map : PortSlots) (portsFile : Path) :
    Task (List (Port × Slot)) :=
  if req.kind = some "virtual".toList then do
    let tree : ConfTree ← ask .confTree
    let wanted ← Code.outcome (loadWithPolicy portsFile (Policy.defaultPath portsFile))
    pure (virtualEntries map (Nginx.rootPorts tree defaultNginxConf) wanted)
  else pure map.toList

/-- `execute`, `src/rust/loader/src/sockctl.rs:150`, on `list` and `dump`. -/
def executeList (host : Host) (req : ListRequest) (pinDir portsFile : Path) : Task Listing := do
  loadPinnedOpenPorts pinDir
  let map ← readMap host
  let entries ← listEntries req map portsFile
  pure (if req.countOnly then .count entries.length
    else .ports (entries.insertionSort pairLe))

/-- `execute`, `src/rust/loader/src/sockctl.rs:147`, on `status` and `metrics`. -/
def executeStatus (host : Host) (pinDir portsFile : Path) : Task Status :=
  statusValueWithStamp host
    { nginxConf := defaultNginxConf, portsFile, policyFile := Policy.defaultPath portsFile, pinDir
      freezeFile := defaultFreezeFile, metricsFile := defaultMetricsFile
      applyStamp := defaultApplyStamp }

/-- `list -kind virtual` on the command line, for the files of a loader. -/
def virtualListArgs (pinDir portsFile : Path) : List Text :=
  ["-kind".toList, "virtual".toList, "-pin-dir".toList, pinDir, "-ports-file".toList, portsFile]

/-! ### Entries and rows -/

/-- A port is added when it is desired and not there yet. -/
theorem mem_addMissing {entries : List (Port × Slot)} {wanted : List (Port × PortBinding)}
    (h : (wanted.map Prod.fst).Nodup) {p : Port} {s : Slot} :
    (p, s) ∈ addMissing entries wanted ↔ (p, s) ∈ entries ∨
      (∀ t, (p, t) ∉ entries) ∧ ∃ b, (p, b) ∈ wanted ∧ b.slot = s := by
  induction wanted generalizing entries with
  | nil => simp [addMissing]
  | cons e rest ih =>
    obtain ⟨q, b⟩ := e
    rw [List.map_cons, List.nodup_cons] at h
    have hrest : ∀ c, (q, c) ∉ rest := fun c hc ↦ h.1 (List.mem_map.mpr ⟨(q, c), hc, rfl⟩)
    have hany : entries.any (fun e ↦ e.1 = q) = true ↔ ∃ t, (q, t) ∈ entries := by
      simp
    rw [addMissing]
    by_cases hq : ∃ t, (q, t) ∈ entries
    · rw [if_pos (hany.mpr hq), ih h.2]
      apply or_congr_right
      apply and_congr_right
      intro hp
      have hne : p ≠ q := by
        rintro rfl
        obtain ⟨t, ht⟩ := hq
        exact hp t ht
      simp [hne]
    · rw [if_neg (fun ha ↦ hq (hany.mp ha)), ih h.2]
      by_cases hp : p = q
      · subst hp
        have hnone : ∀ t, (p, t) ∉ entries := fun t ht ↦ hq ⟨t, ht⟩
        simp [hnone, hrest, eq_comm]
      · simp [hp]

/-- The entries of a listing of kind `virtual`: open or desired ports that the root file does not
listen to, an open port with its slot in the map. -/
theorem mem_virtualEntries {map : PortSlots} {root : PortSet} {wanted : Result DesiredPorts}
    {p : Port} {s : Slot} :
    (p, s) ∈ virtualEntries map root wanted ↔
      p ∉ root ∧ map[p]?.or (slotOf (wantedPorts wanted) p) = some s := by
  have hnodup : ((wantedPorts wanted).toList.map Prod.fst).Nodup := by
    rw [Std.ExtTreeMap.map_fst_toList_eq_keys]
    exact Std.ExtTreeMap.nodup_keys
  unfold virtualEntries
  rw [List.mem_filter, mem_addMissing hnodup, and_comm]
  simp only [Std.ExtTreeMap.mem_toList_iff_getElem?_eq_some, slotOf]
  apply and_congr
  · rw [Bool.not_eq_true', ← Bool.not_eq_true, ← Std.ExtTreeSet.mem_iff_contains]
  · cases map[p]? with
    | none => simp [Option.map_eq_some_iff]
    | some t => simp

/-- The virtual rows of the command line: open or desired ports that no file of the
configuration listens to, a desired port with its slot in the file. -/
theorem mem_virtualRows {desired : DesiredPorts} {map : PortSlots} {real : PortSet} {p : Port}
    {v : Option Slot} :
    (p, v) ∈ ((Nginx.classify desired map real).filter
        (fun row ↦ row.kind.asStr.toList = "virtual".toList)).map (fun row ↦ (row.port, row.slot)) ↔
      p ∉ real ∧ (p ∈ desired ∨ p ∈ map) ∧ v = (slotOf desired p).or map[p]? := by
  have hkind (kind : Nginx.ListenKind) :
      kind.asStr.toList = "virtual".toList ↔ kind = .virtual := by
    cases kind <;> decide
  have hvirtual (q : Port) : Nginx.kindOf (desired.contains q || map.contains q)
      (real.contains q) = some .virtual ↔ q ∉ real ∧ (q ∈ desired ∨ q ∈ map) := by
    rw [Nginx.kindOf_eq_some, Bool.or_eq_true, ← Std.ExtTreeMap.mem_iff_contains,
      ← Std.ExtTreeMap.mem_iff_contains, ← Bool.not_eq_true, ← Std.ExtTreeSet.mem_iff_contains,
      and_comm]
  simp only [hkind, List.mem_map, List.mem_filter, decide_eq_true_eq, Prod.mk.injEq,
    Nginx.mem_classify]
  constructor
  · rintro ⟨row, ⟨hrow, hk⟩, rfl, rfl⟩
    obtain ⟨kind, hkindOf, he⟩ := Option.map_eq_some_iff.mp hrow
    have hv : kind = .virtual := by
      rw [← hk, ← he]
      rfl
    rw [hv] at hkindOf he
    obtain ⟨hreal, hcandidate⟩ := (hvirtual _).mp hkindOf
    refine ⟨hreal, hcandidate, ?_⟩
    calc row.slot = (Nginx.listenRow desired map row.port .virtual).slot := by rw [he]
      _ = (slotOf desired row.port).or map[row.port]? := rfl
  · rintro ⟨hreal, hcandidate, hv⟩
    have hrow : Nginx.rowOf desired map real p = some (Nginx.listenRow desired map p .virtual) :=
      Option.map_eq_some_iff.mpr ⟨_, (hvirtual p).mpr ⟨hreal, hcandidate⟩, rfl⟩
    exact ⟨Nginx.listenRow desired map p .virtual, ⟨hrow, rfl⟩, rfl, hv.symm⟩

/-- The virtual ports of a report. -/
theorem mem_statusOf_virtual {desired : DesiredPorts} {map : PortSlots} {real : PortSet}
    {available : Bool} {around : Surroundings} {p : Port} :
    p ∈ (statusOf real desired map available around).virtual ↔
      p ∉ real ∧ (p ∈ desired ∨ p ∈ map) := by
  show p ∈ (candidates desired map).toList.filter (fun p ↦ !real.contains p) ↔ _
  rw [List.mem_filter, Std.ExtTreeSet.mem_toList, mem_candidates, Bool.not_eq_true',
    ← Bool.not_eq_true, ← Std.ExtTreeSet.mem_iff_contains, and_comm]

/-- The ports of the root file are among the real ports of its configuration. -/
theorem mem_real_of_mem_rootPorts {tree : ConfTree} {path : Path} {real : PortSet}
    (h : Nginx.realPorts tree path = .ok real) {p : Port} (hp : p ∈ Nginx.rootPorts tree path) :
    p ∈ real := by
  unfold Nginx.rootPorts at hp
  split at hp
  · next text htext =>
    have hexists : tree.pathExists path = true := by
      obtain ⟨key, hk, -⟩ := Option.bind_eq_some_iff.mp htext
      rw [ConfTree.pathExists, hk]
      rfl
    rw [Nginx.realPorts, hexists] at h
    obtain ⟨ports, hports, hok⟩ := bind_eq_ok.mp h
    obtain ⟨files, hfiles, rfl⟩ := Nginx.parseListenPortsFromConf_eq_ok.mp hports
    have hends := Nginx.ends_readExpandedFiles tree path
    rw [hfiles] at hends
    obtain ⟨t, rfl, hgood, hroot, -⟩ := hends
    obtain ⟨f, hf, rfl⟩ := List.mem_map.mp hroot
    obtain rfl := Option.some.inj (htext.symm.trans (hgood.content f hf))
    rw [← Except.ok.inj hok, Std.ExtTreeSet.mem_insertMany_list]
    refine (Std.ExtTreeSet.mem_insertMany_list.mp hp).imp_right fun hl ↦ ?_
    rw [List.contains_iff_mem] at hl ⊢
    exact mem_uniquePorts.mpr (List.mem_flatMap.mpr ⟨f, hf, hl⟩)
  · exact Nginx.mem_realPorts_of_inner h hp

/-! ### When the lists are alike -/

section Alike

variable {desired : DesiredPorts} {map : PortSlots} {real root : PortSet}
  {entries : List (Port × Slot)} {rows : List (Port × Option Slot)} {virtual : List Port}

/-- A port is open or desired when a listing can give it a slot. -/
private theorem candidate_iff (p : Port) :
    p ∈ desired ∨ p ∈ map ↔ ∃ s, map[p]?.or (slotOf desired p) = some s := by
  rw [Std.ExtTreeMap.mem_iff_isSome_getElem?, Std.ExtTreeMap.mem_iff_isSome_getElem?, slotOf]
  cases desired[p]? <;> cases map[p]? <;> simp

/-- One slot for an open and desired port, whichever list is asked first. -/
private theorem or_comm_of_alike {s t : Option Slot}
    (h : ∀ a b, s = some a → t = some b → a = b) : s.or t = t.or s := by
  cases s with
  | none => simp
  | some a =>
    cases t with
    | none => rfl
    | some b => rw [h a b rfl rfl]

/-- The entries of a listing, the rows of a table and the ports of a report show the same exactly
when every real port among the candidates is one of the root file and every virtual port has one
slot. -/
private theorem alike_iff (hroot : ∀ p ∈ root, p ∈ real)
    (hentries : ∀ p s, (p, s) ∈ entries ↔ p ∉ root ∧ map[p]?.or (slotOf desired p) = some s)
    (hrows : ∀ p v, (p, v) ∈ rows ↔
      p ∉ real ∧ (p ∈ desired ∨ p ∈ map) ∧ v = (slotOf desired p).or map[p]?)
    (hvirtual : ∀ p, p ∈ virtual ↔ p ∉ real ∧ (p ∈ desired ∨ p ∈ map)) :
    ((∀ p v, (p, v) ∈ rows ↔ ∃ s, v = some s ∧ (p, s) ∈ entries) ∧
        ∀ p, p ∈ entries.map Prod.fst ↔ p ∈ virtual) ↔
      (∀ p ∈ real, p ∈ desired ∨ p ∈ map → p ∈ root) ∧
        ∀ p s t, p ∉ real → slotOf desired p = some s → map[p]? = some t → s = t := by
  have hports (p : Port) :
      p ∈ entries.map Prod.fst ↔ p ∉ root ∧ (p ∈ desired ∨ p ∈ map) := by
    rw [candidate_iff, List.mem_map]
    constructor
    · rintro ⟨⟨q, s⟩, hm, rfl⟩
      exact ⟨((hentries q s).mp hm).1, s, ((hentries q s).mp hm).2⟩
    · rintro ⟨hp, s, hs⟩
      exact ⟨(p, s), (hentries p s).mpr ⟨hp, hs⟩, rfl⟩
  constructor
  · rintro ⟨hpairs, hsame⟩
    refine ⟨fun p hp hcandidate ↦ ?_, fun p s t hp hs ht ↦ ?_⟩
    · by_contra hnot
      exact ((hvirtual p).mp ((hsame p).mp ((hports p).mpr ⟨hnot, hcandidate⟩))).1 hp
    · have hopen : p ∈ map := Std.ExtTreeMap.mem_iff_isSome_getElem?.mpr (by rw [ht]; rfl)
      have hrow : (p, some s) ∈ rows := (hrows p _).mpr ⟨hp, .inr hopen, by rw [hs]; rfl⟩
      obtain ⟨s', he, hentry⟩ := (hpairs p _).mp hrow
      have hslot := ((hentries p s').mp hentry).2
      rw [ht, ← Option.some.inj he] at hslot
      exact (Option.some.inj hslot).symm
  · rintro ⟨hreal, hslots⟩
    have hsame (p : Port) (hcandidate : p ∈ desired ∨ p ∈ map) : p ∉ real ↔ p ∉ root :=
      not_congr ⟨fun hp ↦ hreal p hp hcandidate, hroot p⟩
    constructor
    · intro p v
      rw [hrows]
      constructor
      · rintro ⟨hp, hcandidate, rfl⟩
        obtain ⟨s, hs⟩ := (candidate_iff p).mp hcandidate
        refine ⟨s, ?_, (hentries p s).mpr ⟨(hsame p hcandidate).mp hp, hs⟩⟩
        rw [or_comm_of_alike (fun a b ↦ hslots p a b hp), hs]
      · rintro ⟨s, rfl, hentry⟩
        obtain ⟨hnot, hs⟩ := (hentries p s).mp hentry
        have hcandidate := (candidate_iff p).mpr ⟨s, hs⟩
        have hp := (hsame p hcandidate).mpr hnot
        refine ⟨hp, hcandidate, ?_⟩
        rw [or_comm_of_alike (fun a b ↦ hslots p a b hp), hs]
    · intro p
      rw [hports, hvirtual]
      exact and_congr_left fun hcandidate ↦ (hsame p hcandidate).symm

end Alike

/-! ### The two lists on one machine -/

/-- The listing of the socket, the table of the command line and the report of the socket, made on
one machine, show the same virtual ports, the first two with the same slots. -/
def ListsAgree (host : Host) (w : World) (pinDir portsFile : Path) : Prop :=
  ∃ entries flags rows status,
    Gives w (executeList host ⟨some "virtual".toList, false⟩ pinDir portsFile)
      (.ok (.ports entries)) ∧
    listFlags (virtualListArgs pinDir portsFile) = .ok flags ∧
    Gives w (listTable host flags) (.ok rows) ∧
    Gives w (executeStatus host pinDir portsFile) (.ok status) ∧
    (∀ p v, (p, v) ∈ rows.map (fun row ↦ (row.port, row.slot)) ↔
      ∃ s, v = some s ∧ (p, s) ∈ entries) ∧
    ∀ p, p ∈ entries.map Prod.fst ↔ p ∈ status.virtual

/-- What makes them agree: the configuration can be read, no open or desired port is listened to
in an included file alone, and a virtual port that is open and desired has one slot. -/
structure ListsAlike (e : Endian) (w : World) (desired : DesiredPorts) (real : PortSet) : Prop where
  readable : Nginx.realPorts w.conf defaultNginxConf = .ok real
  root : ∀ p ∈ real, p ∈ desired ∨ w.slot e p ≠ none → p ∈ Nginx.rootPorts w.conf defaultNginxConf
  slots : ∀ p s t, p ∉ real → slotOf desired p = some s → w.slot e p = some t → s = t

section Runs

variable {host : Host} {w : World} {pinDir portsFile : Path} {map : PortSlots}
  {desired : DesiredPorts} {real : PortSet}

private theorem gives_mapIfAvailable (hpin : w.pinned pinDir = true)
    (hmap : Gives w (readMap host) (.ok map)) :
    Gives w (mapIfAvailable host pinDir) (.ok (map, true)) :=
  ((gives_loadPinnedOpenPorts hpin).bind hmap).outcome.bind (Machine.Reads.pure _)

private theorem gives_wanted
    (hload : desiredOrEmptyAt w portsFile (Policy.defaultPath portsFile) = .ok desired) :
    ∃ wanted, Gives w (loadWithPolicy portsFile (Policy.defaultPath portsFile)) wanted ∧
      wantedPorts wanted = desired := by
  unfold desiredOrEmptyAt at hload
  split at hload
  · exact ⟨_, gives_loadWithPolicy hload, rfl⟩
  · next hn =>
    obtain ⟨err, herr⟩ := @gives_loadWithPolicy_absent w portsFile
      (Policy.defaultPath portsFile) (Option.not_isSome_iff_eq_none.mp hn)
    exact ⟨_, herr, Except.ok.inj hload⟩

private theorem gives_executeList (hpin : w.pinned pinDir = true)
    (hmap : Gives w (readMap host) (.ok map))
    (hload : desiredOrEmptyAt w portsFile (Policy.defaultPath portsFile) = .ok desired) :
    ∃ entries, Gives w (executeList host ⟨some "virtual".toList, false⟩ pinDir portsFile)
      (.ok (.ports entries)) ∧ ∀ p s, (p, s) ∈ entries ↔
        p ∉ Nginx.rootPorts w.conf defaultNginxConf ∧ map[p]?.or (slotOf desired p) = some s := by
  obtain ⟨wanted, hwanted, rfl⟩ := gives_wanted hload
  have hentries : Gives w (listEntries ⟨some "virtual".toList, false⟩ map portsFile)
      (.ok (virtualEntries map (Nginx.rootPorts w.conf defaultNginxConf) wanted)) := by
    rw [listEntries, if_pos rfl]
    exact gives_confTree.bind (hwanted.outcome.bind (Machine.Reads.pure _))
  refine ⟨(virtualEntries map (Nginx.rootPorts w.conf defaultNginxConf) wanted).insertionSort
    pairLe, ?_, fun p s ↦ ?_⟩
  · exact (gives_loadPinnedOpenPorts hpin).bind (hmap.bind (hentries.bind (Machine.Reads.pure _)))
  · rw [List.mem_insertionSort, mem_virtualEntries]

private theorem gives_listTable {flags : ParsedFlags} (hpin : w.pinned flags.pinDir = true)
    (hmap : Gives w (readMap host) (.ok map))
    (hload : desiredOrEmptyAt w flags.portsFile flags.policyFile = .ok desired) :
    Gives w (listTable host flags) (do
      let real ← Nginx.realPorts w.conf flags.nginxConf
      let rows := Nginx.classify desired map real
      .ok (match flags.get "kind" with
        | some kind => rows.filter (fun row ↦ row.kind.asStr.toList = kind)
        | none => rows)) := by
  refine (gives_desiredOrEmpty hload).bind ((gives_mapIfAvailable hpin hmap).bind
    (gives_confTree.bind ?_))
  cases hreal : Nginx.realPorts w.conf flags.nginxConf with
  | error err => exact Machine.Reads.bind_error (Machine.Reads.ofExcept _)
  | ok real => exact (Machine.Reads.ofExcept _).bind (Machine.Reads.pure _)

private theorem gives_statusValueWithStamp {s : StatusFiles} (hpin : w.pinned s.pinDir = true)
    (hmap : Gives w (readMap host) (.ok map))
    (hload : desiredOrEmptyAt w s.portsFile s.policyFile = .ok desired)
    (hreal : Nginx.realPorts w.conf s.nginxConf = .ok real) :
    ∃ around, Gives w (statusValueWithStamp host s)
      (.ok (statusOf real desired map true around)) := by
  obtain ⟨policy, hpolicy, -⟩ := gives_loadPolicy (w := w) s.policyFile
  have hreal' : Gives w (Code.ofExcept (Nginx.realPorts w.conf s.nginxConf)) (.ok real) := by
    rw [hreal]
    exact Machine.Reads.ofExcept _
  obtain ⟨stamp, hstamp⟩ := gives_readApplyStamp (w := w) s.applyStamp
  obtain ⟨count, hcount⟩ := gives_readMetrics (w := w) s.metricsFile
  refine ⟨⟨(w.files .freeze s.freezeFile).isSome, stamp, count,
    policy.toOption.getD .default⟩, gives_confTree.bind (hreal'.bind
    ((gives_desiredOrEmpty hload).bind ((gives_mapIfAvailable hpin hmap).bind
      (hpolicy.outcome.bind ((gives_fileExists _ _).bind (hstamp.bind (hcount.bind ?_)))))))⟩
  exact Machine.Reads.pure _

/-- The flags of the command line for the files of a loader. -/
private theorem listFlags_virtualListArgs (pinDir portsFile : Path) :
    ∃ flags, listFlags (virtualListArgs pinDir portsFile) = .ok flags ∧
      flags.pinDir = pinDir ∧ flags.portsFile = portsFile ∧
      flags.policyFile = Policy.defaultPath portsFile ∧ flags.nginxConf = defaultNginxConf ∧
      flags.get "kind" = some "virtual".toList := by
  refine ⟨_, rfl, ?_⟩
  simp [ParsedFlags.pinDir, ParsedFlags.portsFile, ParsedFlags.policyFile, ParsedFlags.nginxConf]

/-- While every command works there is one listing, one table and one report to compare. -/
private theorem listsAgree_of_gives {flags : ParsedFlags} {entries : List (Port × Slot)}
    {rows : List Nginx.ListenRow} {status : Status}
    (hentries : Gives w (executeList host ⟨some "virtual".toList, false⟩ pinDir portsFile)
      (.ok (.ports entries)))
    (hflags : listFlags (virtualListArgs pinDir portsFile) = .ok flags)
    (hrows : Gives w (listTable host flags) (.ok rows))
    (hstatus : Gives w (executeStatus host pinDir portsFile) (.ok status)) :
    ListsAgree host w pinDir portsFile ↔
      (∀ p v, (p, v) ∈ rows.map (fun row ↦ (row.port, row.slot)) ↔
        ∃ s, v = some s ∧ (p, s) ∈ entries) ∧
      ∀ p, p ∈ entries.map Prod.fst ↔ p ∈ status.virtual := by
  constructor
  · rintro ⟨entries', flags', rows', status', hentries', hflags', hrows', hstatus', h⟩
    obtain rfl := Except.ok.inj (hflags.symm.trans hflags')
    obtain rfl := Listing.ports.inj (Except.ok.inj (hentries.unique hentries'))
    obtain rfl := Except.ok.inj (hrows.unique hrows')
    obtain rfl := Except.ok.inj (hstatus.unique hstatus')
    exact h
  · exact fun h ↦ ⟨entries, flags, rows, status, hentries, hflags, hrows, hstatus, h⟩

/-- The lists agree exactly when the configuration, the file and the map let them. -/
theorem listsAgree_iff
    (hload : desiredOrEmptyAt w portsFile (Policy.defaultPath portsFile) = .ok desired)
    (hpin : w.pinned pinDir = true) :
    ListsAgree host w pinDir portsFile ↔ ∃ real, ListsAlike host.endian w desired real := by
  obtain ⟨map, hmap, hslot⟩ := gives_readMap host w
  obtain ⟨flags, hflags, hpinDir, hfile, hpolicy, hconf, hkind⟩ :=
    listFlags_virtualListArgs pinDir portsFile
  have htable : Gives w (listTable host flags) _ :=
    gives_listTable (by rw [hpinDir]; exact hpin) hmap (by rw [hfile, hpolicy]; exact hload)
  rw [hconf, hkind] at htable
  cases hreal : Nginx.realPorts w.conf defaultNginxConf with
  | error err =>
    rw [hreal] at htable
    constructor
    · rintro ⟨-, flags', rows, -, -, hflags', hrows, -⟩
      obtain rfl := Except.ok.inj (hflags.symm.trans hflags')
      cases htable.unique hrows
    · rintro ⟨real, h⟩
      cases hreal.symm.trans h.readable
  | ok real =>
    rw [hreal] at htable
    obtain ⟨entries, hentries, hmem⟩ := gives_executeList hpin hmap hload
    obtain ⟨around, hstatus⟩ := @gives_statusValueWithStamp host w map desired real
      { nginxConf := defaultNginxConf, portsFile, policyFile := Policy.defaultPath portsFile
        pinDir, freezeFile := defaultFreezeFile, metricsFile := defaultMetricsFile
        applyStamp := defaultApplyStamp } hpin hmap hload hreal
    have hopen (p : Port) : p ∈ map ↔ w.slot host.endian p ≠ none := by
      rw [Std.ExtTreeMap.mem_iff_isSome_getElem?, hslot, Option.isSome_iff_ne_none]
    refine (listsAgree_of_gives hentries hflags htable hstatus).trans
      ((alike_iff (fun p hp ↦ mem_real_of_mem_rootPorts hreal hp) hmem (fun p v ↦ mem_virtualRows)
        (fun p ↦ mem_statusOf_virtual)).trans ?_)
    constructor
    · rintro ⟨hroot, hslots⟩
      refine ⟨real, hreal, fun p hp hc ↦ hroot p hp (hc.imp_right (hopen p).mpr), ?_⟩
      exact fun p s t hp hs ht ↦ hslots p s t hp hs ((hslot p).trans ht)
    · rintro ⟨real', h⟩
      obtain rfl := Except.ok.inj (hreal.symm.trans h.readable)
      refine ⟨fun p hp hc ↦ h.root p hp (hc.imp_right (hopen p).mp), ?_⟩
      exact fun p s t hp hs ht ↦ h.slots p s t hp hs ((hslot p).symm.trans ht)

end Runs

/-- A configuration whose only listen stands in an included file. -/
def includedListen : ConfTree where
  files := [(defaultNginxConf, "include conf.d/a.conf;".toList),
    ("openresty/conf.d/a.conf".toList, "listen 9000;".toList)]
  entries _ := none
  canonical path :=
    if path = defaultNginxConf ∨ path = "openresty/conf.d/a.conf".toList then some path else none

/-- Port 9000 is open, and an included file listens to it. -/
def includedWorld : World :=
  { World.plain (fun _ _ ↦ none) with
    conf := includedListen
    openPorts := (PortMap.empty.update (toNeBytes .little 9000) [redirPrimary]).getD .empty }

theorem listsAgree_iff_included :
    desiredOrEmptyAt includedWorld "ports.conf".toList
        (Policy.defaultPath "ports.conf".toList) = .ok ∅ ∧
      includedWorld.pinned defaultPinDir = true ∧
      (ListsAgree .plain includedWorld defaultPinDir "ports.conf".toList ↔
        ∃ real, ListsAlike .little includedWorld ∅ real) :=
  ⟨rfl, rfl, @listsAgree_iff .plain includedWorld _ _ _ rfl rfl⟩

/-- The socket lists an open port as virtual although an included file listens to it. -/
theorem listsAgree_included : ¬∀ (host : Host) (w : World) (pinDir portsFile : Path)
    (desired : DesiredPorts),
    desiredOrEmptyAt w portsFile (Policy.defaultPath portsFile) = .ok desired →
    w.pinned pinDir = true → ListsAgree host w pinDir portsFile := by
  intro h
  obtain ⟨entries, flags, rows, -, hentries, hflags, hrows, -, hpairs, -⟩ :=
    h .plain includedWorld defaultPinDir "ports.conf".toList ∅ rfl rfl
  have hlisted : (machine.run (executeList .plain ⟨some "virtual".toList, false⟩ defaultPinDir
      "ports.conf".toList).run works includedWorld).2 = .ok (.ports [(9000, redirPrimary)]) := by
    decide +kernel
  have hempty : (machine.run (do
      let flags ← Code.ofExcept (listFlags (virtualListArgs defaultPinDir "ports.conf".toList))
      listTable .plain flags : Task (List Nginx.ListenRow)).run works includedWorld).2 =
        .ok [] := by
    decide +kernel
  have hparsed : Gives includedWorld
      (Code.ofExcept (listFlags (virtualListArgs defaultPinDir "ports.conf".toList)))
      (.ok flags) := hflags ▸ Machine.Reads.ofExcept _
  have hentries' := hlisted.symm.trans (congrArg Prod.snd hentries)
  have hrows' := hempty.symm.trans (congrArg Prod.snd (hparsed.bind hrows))
  obtain rfl := Listing.ports.inj (Except.ok.inj hentries')
  obtain rfl := Except.ok.inj hrows'
  have hrow := (hpairs 9000 (some redirPrimary)).mpr ⟨_, rfl, List.mem_singleton.mpr rfl⟩
  cases hrow

end SkLookup
