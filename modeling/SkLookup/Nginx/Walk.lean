import SkLookup.Effect.Explore
import SkLookup.Nginx.Listen

/-!
# The include walk

What `read_expanded_files` reads, whatever the includes of the tree do: cycles, diamonds,
several paths to one file. A file resolves its includes from the path by which the walk first
reached it, and is not read again by another path.
-/

namespace SkLookup.Nginx

open Codec Effect

variable {tree : ConfTree} {root path : Path}

/-- The specs of a text's include lines. -/
def includeSpecs (text : Text) : List Text := ((lines text).filterMap parseIncludeSpecs).flatten

/-- What a spec in the file at a path expands to. -/
def expansion (tree : ConfTree) (path : Path) (spec : Text) : Result (List Path) :=
  expandGlob tree (resolveInclude ((parent path).getD ['.']) spec)

/-- An include line of the file at `p` leads to `q`. -/
def Includes (tree : ConfTree) (p q : Path) : Prop :=
  ∃ text, tree.content p = some text ∧ ∃ spec ∈ includeSpecs text,
    ∃ incs, expansion tree p spec = .ok incs ∧ q ∈ incs

/-- The file at a path cannot be read or an include of it not be expanded. -/
def Fails (tree : ConfTree) (p : Path) : Prop :=
  tree.content p = none ∨ ∃ text, tree.content p = some text ∧ ∃ spec ∈ includeSpecs text,
    ∃ err, expansion tree p spec = .error err

/-- Paths that the walk may enter one after the other. -/
abbrev Entered (tree : ConfTree) (root : Path) (via : List Path) : Prop :=
  Explored (visitKey tree) (Includes tree) root via

/-- The paths by which a walk read its files. -/
def Walk.paths (walk : Walk) : List Path := walk.out.map Prod.fst

/-- What is true of a walk at every moment. -/
structure Walk.Good (tree : ConfTree) (root : Path) (walk : Walk) : Prop where
  visited : ∀ key, key ∈ walk.visited ↔ key ∈ walk.paths.map (visitKey tree)
  content : ∀ f ∈ walk.out, tree.content f.1 = some f.2
  entered : Entered tree root walk.paths

/-- The file at a path is readable, and all that it includes is visited. -/
def Walk.Finished (tree : ConfTree) (walk : Walk) (p : Path) : Prop :=
  ¬Fails tree p ∧ ∀ q, Includes tree p q → visitKey tree q ∈ walk.visited

/-- From one walk to a later one: what was read stays, and what is new is finished. -/
structure Walk.Progress (tree : ConfTree) (root : Path) (s t : Walk) : Prop where
  good : t.Good tree root
  grows : s.out <+: t.out
  finished : ∀ p ∈ t.paths, p ∉ s.paths → t.Finished tree p

/-- The files of the tree that a walk has not visited. -/
def Walk.unread (tree : ConfTree) (walk : Walk) : Nat :=
  (tree.files.filter (fun f ↦ f.1 ∉ walk.visited)).length

/-! ### Later walks -/

theorem Walk.Good.refl {s : Walk} (h : s.Good tree root) : s.Progress tree root s :=
  ⟨h, List.prefix_refl _, fun _ hp hn ↦ absurd hp hn⟩

private theorem mem_paths_of_grows {s t : Walk} (h : s.out <+: t.out) {p : Path}
    (hp : p ∈ s.paths) : p ∈ t.paths :=
  (h.map Prod.fst).subset hp

/-- What was visited stays visited. -/
theorem Walk.Progress.visited {s t : Walk} (h : s.Progress tree root t)
    (hs : s.Good tree root) {key : Path} (hk : key ∈ s.visited) : key ∈ t.visited := by
  rw [h.good.visited]
  exact ((h.grows.map Prod.fst).map (visitKey tree)).subset ((hs.visited key).mp hk)

/-- Progress on progress. -/
theorem Walk.Progress.trans {s t u : Walk} (h : s.Progress tree root t)
    (h' : t.Progress tree root u) : s.Progress tree root u := by
  refine ⟨h'.good, h.grows.trans h'.grows, fun p hp hn ↦ ?_⟩
  by_cases ht : p ∈ t.paths
  · obtain ⟨hf, hi⟩ := h.finished p ht hn
    exact ⟨hf, fun q hq ↦ h'.visited h.good (hi q hq)⟩
  · exact h'.finished p hp ht

/-- A later walk has no more to read. -/
theorem Walk.Progress.unread_le {s t : Walk} (h : s.Progress tree root t)
    (hs : s.Good tree root) : t.unread tree ≤ s.unread tree := by
  have hsub : t.unread tree = ((tree.files.filter (fun f ↦ f.1 ∉ s.visited)).filter
      (fun f ↦ f.1 ∉ t.visited)).length := by
    rw [unread, List.filter_filter]
    congr 2
    funext f
    by_cases hf : f.1 ∈ t.visited
    · simp [hf]
    · have hn : f.1 ∉ s.visited := fun hv ↦ hf (h.visited hs hv)
      simp [hf, hn]
  rw [hsub]
  exact List.length_filter_le _ _

/-! ### One file -/

/-- A file that can be read is one of the tree, under the key of its path. -/
theorem mem_files_of_content {text : Text} (h : tree.content path = some text) :
    (visitKey tree path, text) ∈ tree.files := by
  obtain ⟨key, hk, ht⟩ := Option.bind_eq_some_iff.mp h
  obtain ⟨pre, post, hf, -⟩ := List.lookup_eq_some_iff.mp ht
  rw [visitKey, hk, hf]
  exact List.mem_append_right _ List.mem_cons_self

/-- Entering a file: it is read and nothing of it included yet. -/
def Walk.enter (tree : ConfTree) (walk : Walk) (path : Path) (text : Text) : Walk :=
  ⟨visitKey tree path :: walk.visited, walk.out ++ [(path, text)]⟩

@[simp] theorem Walk.paths_enter (walk : Walk) (path : Path) (text : Text) :
    (walk.enter tree path text).paths = walk.paths ++ [path] := by
  simp [paths, enter]

/-- Entering a file keeps what is true of a walk. -/
theorem Walk.Good.enter {walk : Walk} {text : Text} (h : walk.Good tree root)
    (hp : Enters (Includes tree) root walk.paths path) (hk : visitKey tree path ∉ walk.visited)
    (ht : tree.content path = some text) : (walk.enter tree path text).Good tree root := by
  refine ⟨fun key ↦ ?_, fun f hf ↦ ?_, ?_⟩
  · rw [paths_enter, List.map_append, List.mem_append, ← h.visited, Walk.enter, List.mem_cons,
      or_comm, List.map_singleton, List.mem_singleton]
  · rcases List.mem_append.mp hf with hf | hf
    · exact h.content f hf
    · rw [List.mem_singleton.mp hf]
      exact ht
  · rw [paths_enter]
    exact .enter h.entered hp (fun hm ↦ hk ((h.visited _).mpr hm))

/-- Entering a file leaves one less to read. -/
theorem Walk.unread_enter {walk : Walk} {text : Text} (hk : visitKey tree path ∉ walk.visited)
    (ht : tree.content path = some text) :
    (walk.enter tree path text).unread tree < walk.unread tree := by
  have hf : (walk.enter tree path text).unread tree =
      ((tree.files.filter (fun f ↦ f.1 ∉ walk.visited)).filter
        (fun f ↦ f.1 ≠ visitKey tree path)).length := by
    rw [unread, Walk.enter, List.filter_filter]
    congr 2
    funext f
    simp [not_or]
  rw [hf, unread, List.length_filter_lt_length_iff_exists]
  refine ⟨_, List.mem_filter.mpr ⟨mem_files_of_content ht, by simpa using hk⟩, by simp⟩

/-! ### The whole walk -/

/-- Following the include spec of a file; `src/rust/loader/src/nginx_listen.rs:153-156`. -/
def follow (tree : ConfTree) (fuel : Nat) (path : Path) (walk : Walk) (spec : Text) :
    Result Walk := do
  let incs ← expansion tree path spec
  incs.foldlM (fun walk inc ↦ walkIncludes tree fuel inc walk) walk

/-- The walk at a path: visited before, unreadable, or entered and followed spec by spec. -/
theorem walkIncludes_succ (fuel : Nat) (walk : Walk) :
    walkIncludes tree (fuel + 1) path walk =
      if visitKey tree path ∈ walk.visited then .ok walk else
        match tree.content path with
        | none => bail s!"read nginx config {shown path}"
        | some text =>
          (includeSpecs text).foldlM (follow tree fuel path) (walk.enter tree path text) := by
  rw [walkIncludes]
  rfl

/-- A spec of the file at a path leads to visited files only. -/
def Walk.Followed (tree : ConfTree) (path : Path) (spec : Text) (walk : Walk) : Prop :=
  ∃ incs, expansion tree path spec = .ok incs ∧ ∀ q ∈ incs, visitKey tree q ∈ walk.visited

/-- Some file that the walk entered fails. -/
def Stuck (tree : ConfTree) (root : Path) : Prop :=
  ∃ via, Entered tree root via ∧ ∃ p ∈ via, Fails tree p

/-- With so much fuel a walk goes on from what it has visited, and gets stuck only at a file
that fails. -/
def Walks (tree : ConfTree) (root : Path) (fuel : Nat) : Prop :=
  ∀ (path : Path) (walk : Walk), walk.Good tree root →
    Enters (Includes tree) root walk.paths path → walk.unread tree < fuel →
      Ends (walkIncludes tree fuel path walk) (Stuck tree root)
        (fun t ↦ walk.Progress tree root t ∧ visitKey tree path ∈ t.visited)

/-- Following a spec of a file that was entered. -/
theorem ends_follow {fuel : Nat} (hwalks : Walks tree root fuel) {walk : Walk} {text spec : Text}
    (h : walk.Good tree root) (hp : path ∈ walk.paths) (ht : tree.content path = some text)
    (hs : spec ∈ includeSpecs text) (hfuel : walk.unread tree < fuel) :
    Ends (follow tree fuel path walk spec) (Stuck tree root)
      (fun t ↦ walk.Progress tree root t ∧ t.Followed tree path spec) := by
  cases he : expansion tree path spec with
  | error err =>
    rw [follow, he]
    exact ⟨_, h.entered, path, hp, .inr ⟨text, ht, spec, hs, err, he⟩⟩
  | ok incs =>
    have hloop : Ends (incs.foldlM (fun walk inc ↦ walkIncludes tree fuel inc walk) walk)
        (Stuck tree root) (fun t ↦ walk.Progress tree root t ∧
          ∀ q ∈ incs, visitKey tree q ∈ t.visited) := by
      refine @Ends.foldlM _ _ _ _ (Walk.Progress tree root) (fun q t ↦ visitKey tree q ∈ t.visited)
        _ (fun hst ↦ hst.good.refl) Walk.Progress.trans (fun hr hst hv ↦ hst.visited hr.good hv)
        _ _ h.refl fun q hq t ht' ↦ ?_
      refine hwalks q t ht'.good (.inr ⟨path, mem_paths_of_grows ht'.grows hp, ?_⟩)
        (Nat.lt_of_le_of_lt (ht'.unread_le h) hfuel)
      exact ⟨text, ht, spec, hs, incs, he, hq⟩
    rw [follow, he]
    exact hloop.mono fun t ⟨hprog, hq⟩ ↦ ⟨hprog, incs, he, hq⟩

/-- Following all specs of a file that the walk enters now. -/
theorem ends_follow_all {fuel : Nat} (hwalks : Walks tree root fuel) {walk : Walk} {text : Text}
    (h : walk.Good tree root) (hp : path ∈ walk.paths) (ht : tree.content path = some text)
    (hfuel : walk.unread tree < fuel) :
    Ends ((includeSpecs text).foldlM (follow tree fuel path) walk) (Stuck tree root)
      (fun t ↦ walk.Progress tree root t ∧ ∀ spec ∈ includeSpecs text,
        t.Followed tree path spec) := by
  refine Ends.foldlM (R := Walk.Progress tree root) (fun hst ↦ hst.good.refl)
    Walk.Progress.trans ?_ h.refl ?_
  · rintro spec r s t hr hst ⟨incs, he, hq⟩
    exact ⟨incs, he, fun q hm ↦ hst.visited hr.good (hq q hm)⟩
  · intro spec hs t hst
    exact ends_follow hwalks hst.good (mem_paths_of_grows hst.grows hp) ht hs
      (Nat.lt_of_le_of_lt (hst.unread_le h) hfuel)

/-- A file all of whose specs were followed is finished. -/
theorem Walk.finished_of_followed {walk : Walk} {text : Text} (ht : tree.content path = some text)
    (h : ∀ spec ∈ includeSpecs text, walk.Followed tree path spec) :
    walk.Finished tree path := by
  constructor
  · rintro (hn | ⟨text', ht', spec, hs, err, he⟩)
    · rw [ht] at hn
      cases hn
    · obtain rfl := Option.some.inj (ht.symm.trans ht')
      obtain ⟨incs, hok, -⟩ := h spec hs
      rw [hok] at he
      cases he
  · rintro q ⟨text', ht', spec, hs, incs, he, hq⟩
    obtain rfl := Option.some.inj (ht.symm.trans ht')
    obtain ⟨incs', hok, hv⟩ := h spec hs
    obtain rfl := Except.ok.inj (he.symm.trans hok)
    exact hv q hq

/-- The walk, by induction on the fuel: one level down there is one file less to read. -/
theorem walks (tree : ConfTree) (root : Path) (fuel : Nat) : Walks tree root fuel := by
  induction fuel with
  | zero => exact fun _ _ _ _ h ↦ absurd h (Nat.not_lt_zero _)
  | succ fuel ih =>
    intro path walk h hp hfuel
    rw [walkIncludes_succ]
    split
    · next hv => exact ⟨h.refl, hv⟩
    · next hv =>
      split
      · next hc =>
        -- The unreadable file itself is the last one entered.
        exact ⟨_, h.entered.enter hp (fun hm ↦ hv ((h.visited _).mpr hm)), path,
          List.mem_append_right _ (List.mem_singleton_self path), .inl hc⟩
      · next text hc =>
        have hgood := h.enter hp hv hc
        have hless := Nat.lt_of_lt_of_le (Walk.unread_enter hv hc) (Nat.le_of_lt_succ hfuel)
        refine (ends_follow_all ih hgood (by simp) hc hless).mono fun t ⟨hprog, hspecs⟩ ↦ ?_
        refine ⟨⟨hprog.good, (List.prefix_append _ _).trans hprog.grows, fun p hpt hpn ↦ ?_⟩, ?_⟩
        · by_cases hpe : p ∈ (walk.enter tree path text).paths
          · rw [Walk.paths_enter, List.mem_append] at hpe
            obtain rfl := List.mem_singleton.mp (hpe.resolve_left hpn)
            exact Walk.finished_of_followed hc hspecs
          · exact hprog.finished p hpt hpe
        · exact hprog.visited hgood List.mem_cons_self

/-- More fuel than there are files to read changes nothing: the walk ends by itself. -/
theorem walkIncludes_fuel (fuel : Nat) {walk : Walk} (h : walk.Good tree root)
    (hp : Enters (Includes tree) root walk.paths path) (hfuel : walk.unread tree < fuel) :
    walkIncludes tree (fuel + 1) path walk = walkIncludes tree fuel path walk := by
  induction fuel generalizing path walk with
  | zero => exact absurd hfuel (Nat.not_lt_zero _)
  | succ fuel ih =>
    rw [walkIncludes_succ, walkIncludes_succ fuel]
    split
    · rfl
    · next hv =>
      split
      · rfl
      · next text hc =>
        have hgood := h.enter hp hv hc
        have hless := Nat.lt_of_lt_of_le (Walk.unread_enter hv hc) (Nat.le_of_lt_succ hfuel)
        have hmem {t : Walk} (ht : (walk.enter tree path text).Progress tree root t) :
            path ∈ t.paths := mem_paths_of_grows ht.grows (by simp)
        have hunread {t : Walk} (ht : (walk.enter tree path text).Progress tree root t) :
            t.unread tree < fuel := Nat.lt_of_le_of_lt (ht.unread_le hgood) hless
        refine Ends.foldlM_congr (R := Walk.Progress tree root) (fun hst ↦ hst.good.refl)
          Walk.Progress.trans hgood.refl ?_ ?_
        · intro spec hs t ht
          have hf := ends_follow (walks tree root (fuel + 1)) ht.good (hmem ht) hc hs
            (Nat.lt_succ_of_lt (hunread ht))
          exact (hf.mono fun u hu ↦ hu.1).imp fun _ ↦ trivial
        · intro spec hs t ht
          cases he : expansion tree path spec with
          | error err => rw [follow, follow, he]; rfl
          | ok incs =>
            have henter {q : Path} (hq : q ∈ incs) {u : Walk} (hu : t.Progress tree root u) :
                Enters (Includes tree) root u.paths q :=
              .inr ⟨path, hmem (ht.trans hu), text, hc, spec, hs, incs, he, hq⟩
            rw [follow, follow, he]
            refine Ends.foldlM_congr (R := Walk.Progress tree root) (fun hst ↦ hst.good.refl)
              Walk.Progress.trans ht.good.refl ?_ ?_
            · intro q hq u hu
              have hw := walks tree root (fuel + 1) q u hu.good (henter hq hu)
                (Nat.lt_succ_of_lt (hunread (ht.trans hu)))
              exact (hw.mono fun v hv ↦ hv.1).imp fun _ ↦ trivial
            · exact fun q hq u hu ↦ ih hu.good (henter hq hu) (hunread (ht.trans hu))

/-! ### What the walk returns -/

/-- The order of a walk: each canonical file once, the root first, every other file after one
that includes it. -/
structure Visits (tree : ConfTree) (root : Path) (via : List Path) : Prop where
  once : (via.map (visitKey tree)).Nodup
  first : via.head? = some root
  after : ∀ pre q post, via = pre ++ q :: post → pre ≠ [] → ∃ p ∈ pre, Includes tree p q

/-- Paths entered one after the other are in the order of a walk. -/
theorem visits_of_entered {via : List Path} (h : Entered tree root via) (hn : via ≠ []) :
    Visits tree root via := by
  refine ⟨h.nodup, ?_, fun pre q post hv hp ↦ ?_⟩
  · obtain ⟨q, post, rfl⟩ := List.exists_cons_of_ne_nil hn
    rw [h.head_eq]
    rfl
  · subst hv
    exact h.enters.resolve_left (fun hq ↦ hp hq.1)

/-- A path that include lines lead to from the root. -/
abbrev Reached (tree : ConfTree) (root p : Path) : Prop :=
  Relation.ReflTransGen (Includes tree) root p

/-- The walk with edges from every path of a file: it returns each canonical file that is
reached, in the order of a walk, and fails exactly when a file that is reached fails. -/
def IncludeWalk (tree : ConfTree) (root : Path) : Prop :=
  Ends (readExpandedFiles tree root) (∃ p, Reached tree root p ∧ Fails tree p) (fun files ↦
    Visits tree root (files.map Prod.fst) ∧
      (∀ key, key ∈ (files.map Prod.fst).map (visitKey tree) ↔
        ∃ q, Reached tree root q ∧ visitKey tree q = key) ∧
      ∀ p, Reached tree root p → ¬Fails tree p)

/-- The walk with edges from the paths `via` by which it entered the files. -/
def IncludeWalkVia (tree : ConfTree) (root : Path) (via : List Path) : Prop :=
  Ends (readExpandedFiles tree root) (∃ p ∈ via, Fails tree p) (fun files ↦
    files.map Prod.fst = via ∧ (∀ f ∈ files, tree.content f.1 = some f.2) ∧
      (∀ p ∈ via, ¬Fails tree p) ∧
      ∀ key, key ∈ via.map (visitKey tree) ↔
        ∃ q, Relation.ReflTransGen (Along (Includes tree) via) root q ∧ visitKey tree q = key)

/-- All paths by which a file is reached lead to one content and resolve includes alike. -/
def OneDirectory (tree : ConfTree) (root : Path) : Prop :=
  ∀ p q, Reached tree root p → Reached tree root q → visitKey tree p = visitKey tree q →
    tree.content p = tree.content q ∧ parent p = parent q

/-- Nothing has been visited before the walk starts. -/
theorem good_start : Walk.Good tree root ⟨[], []⟩ :=
  ⟨by simp [Walk.paths], nofun, .nil⟩

/-- The outcome of the walk from its root. -/
theorem ends_readExpandedFiles (tree : ConfTree) (root : Path) :
    Ends (readExpandedFiles tree root) (Stuck tree root) (fun files ↦
      ∃ t : Walk, t.out = files ∧ t.Good tree root ∧ root ∈ t.paths ∧
        ∀ p ∈ t.paths, t.Finished tree p) := by
  have hstart := walks tree root (tree.files.length + 1) root ⟨[], []⟩ good_start (.inl ⟨rfl, rfl⟩)
    (Nat.lt_succ_of_le (List.length_filter_le _ _))
  refine hstart.bind fun t ⟨hprog, hroot⟩ ↦ ⟨t, rfl, hprog.good, ?_, ?_⟩
  · -- Some file was entered, and the first one is the root.
    have hkey := (hprog.good.visited _).mp hroot
    obtain ⟨q, post, hq⟩ := List.exists_cons_of_ne_nil (l := t.paths) (by
      rintro h
      rw [h] at hkey
      cases hkey)
    have he := hprog.good.entered
    rw [hq] at he ⊢
    exact he.head_eq ▸ List.mem_cons_self
  · exact fun p hp ↦ hprog.finished p hp (by simp [Walk.paths])

/-- Entered paths are reached. -/
theorem reached_of_entered {via : List Path} (h : Entered tree root via) {p : Path}
    (hp : p ∈ via) : Reached tree root p :=
  Relation.ReflTransGen.mono (fun _ _ h ↦ h.2) _ _ (h.reach hp)

private theorem closed_of_finished {t : Walk} (h : t.Good tree root)
    (hf : ∀ p ∈ t.paths, t.Finished tree p) :
    ∀ p ∈ t.paths, ∀ q, Includes tree p q → visitKey tree q ∈ t.paths.map (visitKey tree) :=
  fun p hp q hq ↦ (h.visited _).mp ((hf p hp).2 q hq)

/-- The walk returns what is reached through the paths by which it entered the files. -/
theorem exists_includeWalkVia (tree : ConfTree) (root : Path) :
    ∃ via, Visits tree root via ∧ IncludeWalkVia tree root via := by
  have h := ends_readExpandedFiles tree root
  unfold IncludeWalkVia
  cases hr : readExpandedFiles tree root with
  | error err =>
    rw [hr] at h
    obtain ⟨via, hv, p, hp, hf⟩ := h
    exact ⟨via, visits_of_entered hv (List.ne_nil_of_mem hp), p, hp, hf⟩
  | ok files =>
    rw [hr] at h
    obtain ⟨t, rfl, hgood, hroot, hfin⟩ := h
    refine ⟨t.paths, visits_of_entered hgood.entered (List.ne_nil_of_mem hroot), rfl,
      hgood.content, fun p hp ↦ (hfin p hp).1, fun key ↦ ?_⟩
    exact hgood.entered.mem_keys_iff hroot (closed_of_finished hgood hfin)

private theorem includes_congr {p q : Path} (hc : tree.content p = tree.content q)
    (hd : parent p = parent q) {r : Path} (h : Includes tree p r) : Includes tree q r := by
  unfold Includes expansion at h ⊢
  rwa [← hc, ← hd]

private theorem fails_congr {p q : Path} (hc : tree.content p = tree.content q)
    (hd : parent p = parent q) (h : Fails tree p) : Fails tree q := by
  unfold Fails expansion at h ⊢
  rwa [← hc, ← hd]

/-- When no file is reached from two directories, the walk returns all that is reached. -/
theorem includeWalk_of_oneDirectory (h : OneDirectory tree root) : IncludeWalk tree root := by
  have hends := ends_readExpandedFiles tree root
  unfold IncludeWalk
  cases hr : readExpandedFiles tree root with
  | error err =>
    rw [hr] at hends
    obtain ⟨via, hv, p, hp, hf⟩ := hends
    exact ⟨p, reached_of_entered hv hp, hf⟩
  | ok files =>
    rw [hr] at hends
    obtain ⟨t, rfl, hgood, hroot, hfin⟩ := hends
    have hkeys {key : Path} : key ∈ t.paths.map (visitKey tree) ↔
        ∃ q, Reached tree root q ∧ visitKey tree q = key := by
      refine hgood.entered.mem_keys_iff_of_alike hroot (closed_of_finished hgood hfin) ?_
      intro p q hp hq hk r hn
      obtain ⟨hc, hd⟩ := h p q hp hq hk
      exact ⟨r, includes_congr hc hd hn, rfl⟩
    refine ⟨visits_of_entered hgood.entered (List.ne_nil_of_mem hroot), fun key ↦ hkeys, ?_⟩
    intro p hp hf
    obtain ⟨q, hq, hk⟩ := List.mem_map.mp (hkeys.mpr ⟨p, hp, rfl⟩)
    obtain ⟨hc, hd⟩ := h p q hp (reached_of_entered hgood.entered hq) hk.symm
    exact (hfin q hq).1 (fails_congr hc hd hf)

/-- The include walk ends by itself, whatever the includes do. It returns each canonical file
that is reached once, in order, where a file resolves its includes from the path by which the
walk entered it, and fails exactly when such a file fails; when no file is reached from two
directories that is all that is reached at all. -/
theorem readExpandedFiles_walk (tree : ConfTree) (root : Path) :
    (∀ more, walkIncludes tree (tree.files.length + 1 + more) root ⟨[], []⟩ =
      walkIncludes tree (tree.files.length + 1) root ⟨[], []⟩) ∧
    (∃ via, Visits tree root via ∧ IncludeWalkVia tree root via) ∧
    (OneDirectory tree root → IncludeWalk tree root) := by
  refine ⟨fun more ↦ ?_, exists_includeWalkVia tree root, includeWalk_of_oneDirectory⟩
  induction more with
  | zero => rfl
  | succ more ih =>
    rw [← Nat.add_assoc, ← ih]
    refine walkIncludes_fuel _ good_start (.inl ⟨rfl, rfl⟩) ?_
    have hle : Walk.unread tree ⟨[], []⟩ ≤ tree.files.length := List.length_filter_le _ _
    omega

-- One file under two paths in two directories, with an include next to each path.
private def linkedFile : ConfTree where
  files := [("n.conf".toList, "include d/f.conf e/f.conf;".toList),
    ("d/f.conf".toList, "include x.conf;".toList),
    ("d/x.conf".toList, "listen 80;".toList), ("e/x.conf".toList, "listen 90;".toList)]
  entries _ := none
  canonical path :=
    if path = "e/f.conf".toList then some "d/f.conf".toList
    else if path ∈ ["n.conf", "d/f.conf", "d/x.conf", "e/x.conf"].map String.toList then some path
    else none

/-- A file that is reached from two directories is read from the first one only. -/
theorem readExpandedFiles_linked : ¬∀ tree root, IncludeWalk tree root := by
  intro h
  have hw := h linkedFile "n.conf".toList
  have hr : readExpandedFiles linkedFile "n.conf".toList = .ok
      [("n.conf".toList, "include d/f.conf e/f.conf;".toList),
        ("d/f.conf".toList, "include x.conf;".toList),
        ("d/x.conf".toList, "listen 80;".toList)] := by
    decide +kernel
  rw [IncludeWalk, hr] at hw
  have he : Reached linkedFile "n.conf".toList "e/x.conf".toList := by
    refine .tail (.tail .refl ?_) (b := "e/f.conf".toList) ?_
    · exact ⟨_, by rfl, "e/f.conf".toList, by decide +kernel, _, by rfl, List.mem_singleton.mpr rfl⟩
    · exact ⟨_, by rfl, "x.conf".toList, by decide +kernel, _, by rfl, List.mem_singleton.mpr rfl⟩
  have hk := (hw.2.1 "e/x.conf".toList).mpr ⟨_, he, by decide⟩
  exact absurd hk (by decide)

end SkLookup.Nginx
