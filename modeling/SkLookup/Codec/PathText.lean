import SkLookup.Codec.Text

/-!
# Path texts

`Path::parent`, `Path::file_name` and `Path::join` on Unix, on the text of a path. As in
the standard library, empty and `.` components at the end of a path do not count.
-/

namespace Codec

-- Components from the last one on, without the trailing ones that do not count.
private def dropTail : List Text → List Text
  | s :: r :: rest => if s = [] ∨ s = ['.'] then dropTail (r :: rest) else s :: r :: rest
  | rest => rest

private def joinSegments : List Text → Text
  | [] => []
  | [s] => s
  | s :: r :: rest => s ++ '/' :: joinSegments (r :: rest)

/-- `Path::parent`: the path without its last component. -/
def parent (path : Text) : Option Text :=
  match dropTail (path.splitOn '/').reverse with
  | [] => none
  | [s] => if s = [] then none else some []
  | _ :: rest =>
    let rest := dropTail rest
    some (if rest = [[]] then ['/'] else joinSegments rest.reverse)

/-- `Path::file_name`: the last component, unless it is a parent reference. -/
def fileName (path : Text) : Option Text :=
  match dropTail (path.splitOn '/').reverse with
  | [] => none
  | s :: _ => if s = [] ∨ s = ['.'] ∨ s = ['.', '.'] then none else some s

/-- `Path::is_absolute`. -/
def isAbsolute (path : Text) : Bool := path.head? = some '/'

/-- `Path::join`: an absolute second path replaces the first. -/
def joinPath (base path : Text) : Text :=
  if isAbsolute path then path
  else if base = [] ∨ base.getLast? = some '/' then base ++ path
  else base ++ '/' :: path

/-- `parent().filter(non-empty).unwrap_or(".")`: the directory a file is created in. -/
def directoryOf (path : Text) : Text :=
  match parent path with
  | none => ['.']
  | some dir => if dir = [] then ['.'] else dir

/-! ### Components -/

-- What counts of the pieces between slashes: a root or leading `.`, then the names.
private def countedPieces : List Text → List Text
  | [] => []
  | s :: rest => (if s = [] then ['/'] else s) :: rest.filter (fun c ↦ c ≠ [] ∧ c ≠ ['.'])

/-- `Path::components`, each as a text. -/
def components (path : Text) : List Text :=
  if path = [] then [] else countedPieces (path.splitOn '/')

/-- The name of an entry of a directory. -/
structure IsName (name : Text) : Prop where
  ne_nil : name ≠ []
  ne_dot : name ≠ ['.']
  ne_dotDot : name ≠ ['.', '.']
  no_slash : '/' ∉ name

instance (name : Text) : Decidable (IsName name) :=
  decidable_of_iff (name ≠ [] ∧ name ≠ ['.'] ∧ name ≠ ['.', '.'] ∧ '/' ∉ name)
    ⟨fun h ↦ ⟨h.1, h.2.1, h.2.2.1, h.2.2.2⟩, fun h ↦ ⟨h.1, h.2, h.3, h.4⟩⟩

-- Pieces at the end of a path that do not count.
private def Idle (pieces : List Text) : Prop := ∀ c ∈ pieces, c = [] ∨ c = ['.']

private theorem countedPieces_append_idle {l j : List Text} (hl : l ≠ []) (hj : Idle j) :
    countedPieces (l ++ j) = countedPieces l := by
  cases l with
  | nil => exact absurd rfl hl
  | cons s rest =>
    have hn : j.filter (fun c ↦ decide (c ≠ [] ∧ c ≠ ['.'])) = [] := by
      apply List.filter_eq_nil_iff.mpr
      intro c hc
      rcases hj c hc with rfl | rfl <;> simp
    rw [List.cons_append, countedPieces, List.filter_append, hn, List.append_nil, countedPieces]

private theorem countedPieces_append_name {l : List Text} {name : Text} (hl : l ≠ [])
    (hn : name ≠ []) (hd : name ≠ ['.']) :
    countedPieces (l ++ [name]) = countedPieces l ++ [name] := by
  cases l with
  | nil => exact absurd rfl hl
  | cons s rest => simp [countedPieces, hn, hd]

private theorem dropTail_spec (l : List Text) :
    ∃ j, Idle j ∧ l = j ++ dropTail l ∧ (l ≠ [] → dropTail l ≠ []) := by
  induction l with
  | nil => exact ⟨[], nofun, rfl, id⟩
  | cons s rest ih =>
    cases rest with
    | nil => exact ⟨[], nofun, rfl, id⟩
    | cons r rest =>
      by_cases hs : s = [] ∨ s = ['.']
      · obtain ⟨j, hj, hl, hn⟩ := ih
        refine ⟨s :: j, fun c hc ↦ ?_, ?_, fun _ ↦ ?_⟩
        · rcases List.mem_cons.mp hc with rfl | hc
          · exact hs
          · exact hj c hc
        · rw [dropTail, if_pos hs, List.cons_append, ← hl]
        · rw [dropTail, if_pos hs]
          exact hn (by simp)
      · refine ⟨[], nofun, ?_, fun _ ↦ ?_⟩ <;> simp [dropTail, hs]

private theorem joinSegments_ne_nil {l : List Text} (hl : l ≠ []) (h : l ≠ [[]]) :
    joinSegments l ≠ [] := by
  match l with
  | [] => exact absurd rfl hl
  | [s] => exact fun hs ↦ h (congrArg (fun t ↦ [t]) hs)
  | s :: r :: rest => simp [joinSegments]

private theorem splitOn_joinSegments {l : List Text} (hl : l ≠ []) (h : ∀ s ∈ l, '/' ∉ s) :
    (joinSegments l).splitOn '/' = l := by
  induction l with
  | nil => exact absurd rfl hl
  | cons s rest ih =>
    have hs := h s List.mem_cons_self
    cases rest with
    | nil => exact List.splitOn_eq_singleton hs
    | cons r rest =>
      rw [joinSegments, List.splitOn_append_cons_self_of_not_mem hs,
        ih (by simp) (fun t ht ↦ h t (List.mem_cons_of_mem s ht))]

private theorem components_joinSegments {l : List Text} (hl : l ≠ []) (h : ∀ s ∈ l, '/' ∉ s) :
    components (if l = [[]] then ['/'] else joinSegments l) = countedPieces l := by
  by_cases he : l = [[]]
  · subst he
    decide
  · rw [if_neg he, components, if_neg (joinSegments_ne_nil hl he), splitOn_joinSegments hl h]

private theorem components_of_pieces {path : Text} {l j : List Text} {name : Text}
    (hp : path.splitOn '/' = l ++ [name] ++ j) (hj : Idle j) (hn : name ≠ []) :
    components path = countedPieces (l ++ [name]) := by
  have hne : path ≠ [] := by
    rintro rfl
    rw [List.splitOn_nil] at hp
    have hm : name ∈ ([[]] : List Text) := by
      rw [hp]
      simp
    exact hn (List.mem_singleton.mp hm)
  rw [components, if_neg hne, hp, countedPieces_append_idle (by simp) hj]

/-- Only the empty path has no components. -/
theorem components_eq_nil {path : Text} : components path = [] ↔ path = [] := by
  constructor
  · intro h
    by_contra hn
    obtain ⟨s, rest, hs⟩ := List.exists_cons_of_ne_nil (List.splitOn_ne_nil '/' path)
    rw [components, if_neg hn, hs, countedPieces] at h
    cases h
  · rintro rfl
    rfl

/-- The parent and the file name of a path are what its components say. -/
theorem components_eq_append {path dir name : Text} (hp : parent path = some dir)
    (hn : fileName path = some name) :
    components path = components dir ++ [name] ∧ IsName name := by
  obtain ⟨j, hj, hR, -⟩ := dropTail_spec (path.splitOn '/').reverse
  unfold parent at hp
  unfold fileName at hn
  cases hD : dropTail (path.splitOn '/').reverse with
  | nil => simp [hD] at hn
  | cons s rest =>
    rw [hD] at hp hn hR
    have hpath : path.splitOn '/' = rest.reverse ++ [s] ++ j.reverse := by
      have := congrArg List.reverse hR
      simpa using this
    have hslash : ∀ t ∈ path.splitOn '/', '/' ∉ t := fun t ht ↦ not_mem_of_mem_splitOn ht
    have hj' : Idle j.reverse := fun c hc ↦ hj c (List.mem_reverse.mp hc)
    simp only at hn
    split at hn
    · cases hn
    · next hs =>
      obtain rfl := Option.some.inj hn
      obtain ⟨hs₀, hs₁, hs₂⟩ : s ≠ [] ∧ s ≠ ['.'] ∧ s ≠ ['.', '.'] := by simpa using hs
      have hname : IsName s := ⟨hs₀, hs₁, hs₂, hslash s (by simp [hpath])⟩
      refine ⟨?_, hname⟩
      rw [components_of_pieces hpath hj' hs₀]
      cases rest with
      | nil =>
        simp only [hs₀, if_false, Option.some.injEq] at hp
        rw [← hp]
        simp [countedPieces, components, hs₀]
      | cons r rs =>
        obtain ⟨j₂, hj₂, hl, hne⟩ := dropTail_spec (r :: rs)
        have hrev : (r :: rs).reverse = (dropTail (r :: rs)).reverse ++ j₂.reverse := by
          rw [← List.reverse_append, ← hl]
        have hd : dir = if (dropTail (r :: rs)).reverse = [[]] then ['/']
            else joinSegments (dropTail (r :: rs)).reverse := by
          rw [← Option.some.inj hp]
          simp
        rw [countedPieces_append_name (by simp) hs₀ hs₁, hd, components_joinSegments, hrev,
          countedPieces_append_idle]
        · simpa using hne
        · exact fun c hc ↦ hj₂ c (List.mem_reverse.mp hc)
        · simpa using hne
        · intro t ht
          refine hslash t ?_
          rw [hpath, hrev]
          simp only [List.mem_append]
          exact .inl (.inl (.inl ht))

/-- Joining a name adds it to the components. -/
theorem components_joinPath (dir : Text) {name : Text} (h : IsName name) :
    components (joinPath dir name) = components dir ++ [name] := by
  have habs : isAbsolute name = false := by
    cases name with
    | nil => rfl
    | cons c t =>
      have hc : c ≠ '/' := fun hc ↦ h.no_slash (hc ▸ List.mem_cons_self)
      simpa [isAbsolute] using hc
  have hsplit : name.splitOn '/' = [name] := List.splitOn_eq_singleton h.no_slash
  simp only [joinPath, habs, Bool.false_eq_true, if_false]
  by_cases hd : dir = []
  · subst hd
    simp [components, hsplit, countedPieces, h.ne_nil]
  · by_cases hl : dir.getLast? = some '/'
    · -- The slash at the end of the directory is the one before the name.
      obtain ⟨d, rfl⟩ := List.getLast?_eq_some_iff.mp hl
      have hdir : (d ++ ['/']).splitOn '/' = d.splitOn '/' ++ [[]] := by
        rw [List.splitOn_append_cons_self, List.splitOn_nil]
      have hp : (d ++ '/' :: name).splitOn '/' = d.splitOn '/' ++ [name] ++ [] := by
        rw [List.splitOn_append_cons_self, hsplit, List.append_nil]
      rw [if_pos (.inr hl), List.append_assoc, List.singleton_append,
        components_of_pieces hp nofun h.ne_nil,
        countedPieces_append_name (List.splitOn_ne_nil _ _) h.ne_nil h.ne_dot, components,
        if_neg hd, hdir, countedPieces_append_idle (List.splitOn_ne_nil _ _)]
      exact fun c hc ↦ .inl (List.mem_singleton.mp hc)
    · have hp : (dir ++ '/' :: name).splitOn '/' = dir.splitOn '/' ++ [name] ++ [] := by
        rw [List.splitOn_append_cons_self, hsplit, List.append_nil]
      rw [if_neg (by simp [hd, hl]), components_of_pieces hp nofun h.ne_nil,
        countedPieces_append_name (List.splitOn_ne_nil _ _) h.ne_nil h.ne_dot, components,
        if_neg hd]

example : joinPath (directoryOf "ports.conf".toList) "policy.conf".toList =
    "./policy.conf".toList := by decide

end Codec
