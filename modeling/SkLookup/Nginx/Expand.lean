import SkLookup.Codec.PathText
import SkLookup.Nginx.Glob
import SkLookup.Nginx.Walk

/-!
# Wildcards in include specs

Which files the expansion of a spec with wildcards leaves out. Only the last component of a
spec is treated as a pattern; its directory is taken as it is spelled.
-/

namespace SkLookup

open Codec

/-- A tree of directories. What exists under one spelling of its components is the same under
the path of its directory and its name, the empty path names nothing, and whatever is in a
directory is listed there by its name. -/
structure ConfTree.IsTree (tree : ConfTree) : Prop where
  spelled : ∀ dir name p, IsName name → components p = components dir ++ [name] →
    tree.pathExists p = true → tree.canonical (joinPath dir name) = tree.canonical p
  empty : tree.canonical [] = none
  names : ∀ dir names, tree.entries dir = some names → ∀ name ∈ names, IsName name
  listed : ∀ dir name, dir ≠ [] → IsName name → tree.pathExists (joinPath dir name) = true →
    tree.pathExists dir = true ∧ ∀ names, tree.entries dir = some names → name ∈ names

namespace Nginx

open Effect

variable {tree : ConfTree} {spec f : Path}

/-- A regular file that a spec matches component by component. -/
structure Matched (tree : ConfTree) (spec f : Path) : Prop where
  regular : (tree.content f).isSome
  pieces : List.Forall₂ (fun s c ↦ c = s ∨ (IsName c ∧ Globs s c)) (components spec) (components f)

/-- No matching file is dropped: an expansion that works yields it, and a walk that works and
meets the spec reads it. -/
def DropsNone (tree : ConfTree) (spec : Path) : Prop :=
  ∀ f, Matched tree spec f → ∀ paths, expandGlob tree spec = .ok paths →
    (∃ p ∈ paths, components p = components f ∧ visitKey tree p = visitKey tree f) ∧
      ∀ root files, readExpandedFiles tree root = .ok files →
        (∃ g ∈ files, ∃ s ∈ includeSpecs g.2,
          resolveInclude ((parent g.1).getD ['.']) s = spec) →
        ∃ g ∈ files, visitKey tree g.1 = visitKey tree f

/-- The expansion fails, or every matching file lies in the directory that the spec's parent
spells. -/
def SpellsDirectory (tree : ConfTree) (spec : Path) : Prop :=
  Refuses tree spec ∨ ∀ f, Matched tree spec f → ∃ dir name, parent spec = some dir ∧
    tree.pathExists dir = true ∧ components f = components dir ++ [name]

private theorem pathExists_of_content (h : (tree.content f).isSome) :
    tree.pathExists f = true := by
  obtain ⟨text, ht⟩ := Option.isSome_iff_exists.mp h
  obtain ⟨key, hk, -⟩ := Option.bind_eq_some_iff.mp ht
  rw [ConfTree.pathExists, hk]
  rfl

/-- What exists is one file under all its spellings. -/
theorem visitKey_joinPath (h : tree.IsTree) {dir name : Text} (hn : IsName name)
    (hc : components f = components dir ++ [name]) (hf : (tree.content f).isSome) :
    visitKey tree (joinPath dir name) = visitKey tree f := by
  have he := pathExists_of_content hf
  obtain ⟨key, hk⟩ := Option.isSome_iff_exists.mp he
  rw [visitKey, visitKey, h.spelled dir name f hn hc he, hk]
  rfl

/-- What the walk includes is among the files it returns. -/
theorem mem_readExpandedFiles {root : Path} {files : List (Path × Text)}
    (h : readExpandedFiles tree root = .ok files) {g : Path × Text} (hg : g ∈ files) {p : Path}
    (hp : Includes tree g.1 p) : ∃ r ∈ files, visitKey tree r.1 = visitKey tree p := by
  have hends := ends_readExpandedFiles tree root
  rw [h] at hends
  obtain ⟨t, rfl, hgood, -, hfin⟩ := hends
  have hkey := (hfin g.1 (List.mem_map_of_mem hg)).2 p hp
  obtain ⟨q, hq, hk⟩ := List.mem_map.mp ((hgood.visited _).mp hkey)
  obtain ⟨r, hr, rfl⟩ := List.mem_map.mp hq
  exact ⟨r, hr, hk⟩

/-- A name matches itself. -/
theorem globs_self (t : Text) : Globs t t := by
  induction t with
  | nil => exact .nil
  | cons c t ih =>
    by_cases hs : c = '*'
    · subst hs
      exact .star ['*'] ih
    · by_cases hq : c = '?'
      · subst hq
        exact .any '?' ih
      · exact .char hs hq ih

/-- A matching file in the directory that the spec spells is found there. -/
theorem Matched.found (h : Matched tree spec f) (htree : tree.IsTree) {dir pattern name : Text}
    (hd : parent spec = some dir) (hp : fileName spec = some pattern)
    (he : tree.pathExists dir = true) (hf : components f = components dir ++ [name]) :
    IsName name ∧ globMatches pattern name = true ∧
      ∀ names, tree.entries dir = some names → name ∈ names := by
  obtain ⟨hspec, hpattern⟩ := components_eq_append hd hp
  have hpieces := h.pieces
  rw [hspec, hf, ← List.forall₂_reverse_iff, List.reverse_append, List.reverse_append,
    List.reverse_singleton, List.reverse_singleton, List.singleton_append,
    List.singleton_append] at hpieces
  obtain ⟨hname, hglobs⟩ : IsName name ∧ Globs pattern name := by
    rcases (List.forall₂_cons.mp hpieces).1 with rfl | hg
    · exact ⟨hpattern, globs_self name⟩
    · exact hg
  refine ⟨hname, globMatches_of_globs hname.no_slash hname.ne_nil hglobs, ?_⟩
  have hdir : dir ≠ [] := by
    rintro rfl
    simp [ConfTree.pathExists, htree.empty] at he
  refine (htree.listed dir name hdir hname ?_).2
  have he := pathExists_of_content h.regular
  rw [ConfTree.pathExists, htree.spelled dir name f hname hf he]
  exact he

/-- A file that an expansion yields is read by the walk that meets the spec. -/
theorem reads_of_expanded {paths : List Path} (hpaths : expandGlob tree spec = .ok paths)
    {p : Path} (hp : p ∈ paths) {root : Path} {files : List (Path × Text)}
    (hr : readExpandedFiles tree root = .ok files) {g : Path × Text} (hg : g ∈ files) {s : Text}
    (hs : s ∈ includeSpecs g.2) (he : resolveInclude ((parent g.1).getD ['.']) s = spec) :
    ∃ r ∈ files, visitKey tree r.1 = visitKey tree p := by
  have hends := ends_readExpandedFiles tree root
  rw [hr] at hends
  obtain ⟨t, rfl, hgood, -, -⟩ := hends
  have hincludes : Includes tree g.1 p :=
    ⟨g.2, hgood.content g hg, s, hs, paths, by rw [expansion, he, hpaths], hp⟩
  exact mem_readExpandedFiles hr hg hincludes

/-- A spec with wildcards drops no file exactly when its parent spells the directory of every
file that it matches, or its expansion fails. -/
theorem dropsNone_iff (htree : tree.IsTree) (hw : Wild spec) :
    DropsNone tree spec ↔ SpellsDirectory tree spec := by
  constructor
  · intro h
    cases hr : expandGlob tree spec with
    | error err => exact .inl (refuses_of_expandGlob hw hr)
    | ok paths =>
      obtain ⟨-, dir, pattern, hd, -, hm⟩ := mem_expandGlob hw hr
      refine .inr fun f hf ↦ ?_
      obtain ⟨p, hp, hc, -⟩ := (h f hf paths hr).1
      obtain ⟨he, names, hn, name, hname, -, rfl⟩ := (hm p).mp hp
      refine ⟨dir, name, hd, he, ?_⟩
      rw [← hc, components_joinPath dir (htree.names dir names hn name hname)]
  · intro h f hf paths hr
    obtain ⟨hok, dir, pattern, hd, hp, hm⟩ := mem_expandGlob hw hr
    obtain ⟨dir', name, hd', he, hc⟩ := h.resolve_left hok f hf
    obtain rfl := Option.some.inj (hd.symm.trans hd')
    obtain ⟨hname, hglob, hlisted⟩ := hf.found htree hd hp he hc
    have hfound : joinPath dir name ∈ paths := by
      cases hn : tree.entries dir with
      | none => exact absurd (.inr (.inr ⟨dir, hd, he, hn⟩)) hok
      | some names => exact (hm _).mpr ⟨he, names, hn, name, hlisted names hn, hglob, rfl⟩
    have hkey := visitKey_joinPath htree hname hc hf.regular
    refine ⟨⟨_, hfound, by rw [components_joinPath dir hname, hc], hkey⟩, ?_⟩
    rintro root files hfiles ⟨g, hg, s, hs, hspec⟩
    rw [← hkey]
    exact reads_of_expanded hr hfound hfiles hg hs hspec

-- One site in a directory of its own.
private def oneSite : ConfTree where
  files := [("/sites/a/listen.conf".toList, "listen 9000;".toList)]
  entries dir :=
    if components dir = [['/']] then some ["sites".toList]
    else if components dir = [['/'], "sites".toList] then some ["a".toList]
    else if components dir = [['/'], "sites".toList, "a".toList] then some ["listen.conf".toList]
    else none
  canonical path :=
    if components path = [['/']] then some "/".toList
    else if components path = [['/'], "sites".toList] then some "/sites".toList
    else if components path = [['/'], "sites".toList, "a".toList] then some "/sites/a".toList
    else if components path = [['/'], "sites".toList, "a".toList, "listen.conf".toList] then
      some "/sites/a/listen.conf".toList
    else none

private theorem eq_of_append_eq {l m : List Text} {name : Text} (h : l ++ [name] = m) :
    l = m.dropLast ∧ m.getLast? = some name := by
  subst h
  simp

private theorem isTree_oneSite : oneSite.IsTree where
  spelled dir name p hn hc _ := by simp only [oneSite, components_joinPath dir hn, hc]
  empty := by decide
  names dir names h := by
    simp only [oneSite] at h
    split_ifs at h <;> obtain rfl := Option.some.inj h <;> decide
  listed dir name hd hn h := by
    simp only [ConfTree.pathExists, oneSite, components_joinPath dir hn] at h ⊢
    split_ifs at h with h₁ h₂ h₃ h₄
    · exact absurd (components_eq_nil.mp (eq_of_append_eq h₁).1) hd
    · obtain ⟨hc, hname⟩ := eq_of_append_eq h₂
      obtain rfl := Option.some.inj hname
      simp [hc]
    · obtain ⟨hc, hname⟩ := eq_of_append_eq h₃
      obtain rfl := Option.some.inj hname
      simp [hc]
    · obtain ⟨hc, hname⟩ := eq_of_append_eq h₄
      obtain rfl := Option.some.inj hname
      simp [hc]
    · cases h

theorem dropsNone_iff_oneSite : oneSite.IsTree ∧ Wild "/sites/a/*.conf".toList ∧
    (DropsNone oneSite "/sites/a/*.conf".toList ↔
      SpellsDirectory oneSite "/sites/a/*.conf".toList) :=
  ⟨isTree_oneSite, by decide, dropsNone_iff isTree_oneSite (by decide)⟩

/-- A wildcard in a directory of a spec loses the files below it. -/
theorem dropsNone_sites : ¬∀ (tree : ConfTree) (spec : Path), tree.IsTree → Wild spec →
    DropsNone tree spec := by
  intro h
  have hd := h oneSite "/sites/*/listen.conf".toList isTree_oneSite (by decide)
  have hm : Matched oneSite "/sites/*/listen.conf".toList "/sites/a/listen.conf".toList := by
    refine ⟨by decide +kernel, ?_⟩
    have hspec : components "/sites/*/listen.conf".toList =
        [['/'], "sites".toList, ['*'], "listen.conf".toList] := by decide
    have hfile : components "/sites/a/listen.conf".toList =
        [['/'], "sites".toList, ['a'], "listen.conf".toList] := by decide
    rw [hspec, hfile]
    exact .cons (.inl rfl) (.cons (.inl rfl) (.cons (.inr ⟨by decide, .star ['a'] .nil⟩)
      (.cons (.inl rfl) .nil)))
  obtain ⟨⟨p, hp, -, -⟩, -⟩ := hd _ hm [] (by rfl)
  cases hp

end Nginx

end SkLookup
