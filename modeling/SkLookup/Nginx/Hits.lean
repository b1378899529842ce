import SkLookup.Nginx.Listen

/-!
# Located listen lines

The search for the lines behind a set of ports, `src/rust/loader/src/nginx_listen.rs:215`,
against the scan of whole texts.
-/

namespace SkLookup.Nginx

open Codec

/-- A `listen` line; `src/rust/loader/src/nginx_listen.rs:190`. -/
structure ListenHit where
  path : Path
  lineNo : Nat
  text : Text
  ports : List Port
  deriving DecidableEq, Repr

/-- The hit of the line with index `idx`; `src/rust/loader/src/nginx_listen.rs:219-231`. -/
def hitOfLine (wanted : PortSet) (path : Path) (idx : Nat) (line : Text) : Option ListenHit :=
  let ports := (parseListenPorts line).filter (fun p ↦ wanted.contains p)
  if ports = [] then none else some ⟨path, idx + 1, line, ports⟩

/-- `find_listen_hits`, `src/rust/loader/src/nginx_listen.rs:215`. -/
def findListenHits (tree : ConfTree) (root : Path) (wanted : PortSet) :
    Result (List ListenHit) := do
  let files ← readExpandedFiles tree root
  .ok (files.flatMap fun f ↦
    (lines f.2).zipIdx.filterMap fun l ↦ hitOfLine wanted f.1 l.2 l.1)

/-! ### The scan of a text, line by line -/

/-- A port is found in a text exactly when one of its lines listens to it. -/
theorem mem_parseListenPorts {text : Text} {p : Port} :
    p ∈ parseListenPorts text ↔ ∃ line ∈ lines text, listenOfLine line = some p := by
  rw [parseListenPorts, mem_uniquePorts, List.mem_filterMap]

/-- Scanning a line of a text finds its listen. -/
theorem mem_parseListenPorts_line {line text : Text} (h : line ∈ lines text) {p : Port} :
    p ∈ parseListenPorts line ↔ listenOfLine line = some p := by
  rw [mem_parseListenPorts, lines_of_not_mem (not_mem_of_mem_lines h)]
  cases line with
  | nil =>
    have hn : listenOfLine [] = none := by decide
    simp [hn]
  | cons c t => simp

/-- The ports of a text are the ports of its lines. -/
theorem mem_parseListenPorts_lines {text : Text} {p : Port} :
    p ∈ parseListenPorts text ↔ ∃ line ∈ lines text, p ∈ parseListenPorts line := by
  rw [mem_parseListenPorts]
  constructor
  · rintro ⟨line, hl, hp⟩
    exact ⟨line, hl, (mem_parseListenPorts_line hl).mpr hp⟩
  · rintro ⟨line, hl, hp⟩
    exact ⟨line, hl, (mem_parseListenPorts_line hl).mp hp⟩

/-- The ports of a configuration are those of the files that the walk reads. -/
theorem parseListenPortsFromConf_eq_ok {tree : ConfTree} {root : Path} {ports : List Port} :
    parseListenPortsFromConf tree root = .ok ports ↔
      ∃ files, readExpandedFiles tree root = .ok files ∧
        uniquePorts (files.flatMap (fun f ↦ parseListenPorts f.2)) = ports := by
  rw [parseListenPortsFromConf, bind_eq_ok]
  simp only [Except.ok.injEq]

/-! ### Hits -/

/-- A line has a hit exactly when it has a wanted port, and the hit says which. -/
theorem hitOfLine_eq_some {wanted : PortSet} {path : Path} {idx : Nat} {line : Text}
    {hit : ListenHit} :
    hitOfLine wanted path idx line = some hit ↔
      (∃ p ∈ parseListenPorts line, p ∈ wanted) ∧
        hit = ⟨path, idx + 1, line,
          (parseListenPorts line).filter (fun p ↦ wanted.contains p)⟩ := by
  have he : (parseListenPorts line).filter (fun p ↦ wanted.contains p) ≠ [] ↔
      ∃ p ∈ parseListenPorts line, p ∈ wanted := by
    simp [List.filter_eq_nil_iff]
  rw [← he]
  simp only [hitOfLine]
  split
  · next hn => simp [hn]
  · next hn =>
    rw [Option.some.injEq, eq_comm]
    exact ⟨fun h ↦ ⟨hn, h⟩, fun h ↦ h.2⟩

/-- The hits are those of the lines of the files that the walk reads. -/
theorem mem_findListenHits {tree : ConfTree} {root : Path} {wanted : PortSet}
    {hits : List ListenHit} (h : findListenHits tree root wanted = .ok hits) :
    ∃ files, readExpandedFiles tree root = .ok files ∧ ∀ hit, hit ∈ hits ↔
      ∃ f ∈ files, ∃ (i : Nat) (line : Text), (lines f.2)[i]? = some line ∧
        hitOfLine wanted f.1 i line = some hit := by
  obtain ⟨files, hf, h⟩ := bind_eq_ok.mp h
  obtain rfl := Except.ok.inj h
  refine ⟨files, hf, fun hit ↦ ?_⟩
  simp only [List.mem_flatMap, List.mem_filterMap, Prod.exists, List.mk_mem_zipIdx_iff_getElem?]
  constructor
  · rintro ⟨path, text, hm, line, i, hl, hh⟩
    exact ⟨path, text, hm, i, line, hl, hh⟩
  · rintro ⟨path, text, hm, i, line, hl, hh⟩
    exact ⟨path, text, hm, line, i, hl, hh⟩

/-- What the hits say about the configuration: their ports are the wanted ports of its files,
each hit quotes its line and all wanted ports of it, and each line with one has its hit. -/
structure Accounts (files : List (Path × Text)) (ports : List Port) (wanted : PortSet)
    (hits : List ListenHit) : Prop where
  union : ∀ p, (∃ hit ∈ hits, p ∈ hit.ports) ↔ p ∈ wanted ∧ p ∈ ports
  quotes : ∀ hit ∈ hits, ∃ text, (hit.path, text) ∈ files ∧ 1 ≤ hit.lineNo ∧
    (lines text)[hit.lineNo - 1]? = some hit.text ∧
    hit.ports = (parseListenPorts hit.text).filter (fun p ↦ wanted.contains p)
  complete : ∀ f ∈ files, ∀ (i : Nat) (line : Text), (lines f.2)[i]? = some line →
    (∃ p ∈ parseListenPorts line, p ∈ wanted) →
      ∃ hit ∈ hits, hit.path = f.1 ∧ hit.lineNo = i + 1 ∧ hit.text = line

/-- The located lines account for all listens that the walk of the same root finds. -/
theorem findListenHits_accounts {tree : ConfTree} {root : Path} {wanted : PortSet}
    {hits : List ListenHit} (h : findListenHits tree root wanted = .ok hits) :
    ∃ files ports, readExpandedFiles tree root = .ok files ∧
      parseListenPortsFromConf tree root = .ok ports ∧ Accounts files ports wanted hits := by
  obtain ⟨files, hf, hm⟩ := mem_findListenHits h
  refine ⟨files, _, hf, parseListenPortsFromConf_eq_ok.mpr ⟨files, hf, rfl⟩, ?_, ?_, ?_⟩
  · intro p
    simp only [mem_uniquePorts, List.mem_flatMap]
    constructor
    · rintro ⟨hit, hh, hp⟩
      obtain ⟨f, hf, i, line, hl, hh⟩ := (hm hit).mp hh
      obtain ⟨-, rfl⟩ := hitOfLine_eq_some.mp hh
      have hp := List.mem_filter.mp hp
      refine ⟨Std.ExtTreeSet.contains_iff_mem.mp hp.2, f, hf, ?_⟩
      exact mem_parseListenPorts_lines.mpr ⟨line, List.mem_of_getElem? hl, hp.1⟩
    · rintro ⟨hw, f, hf, hp⟩
      obtain ⟨line, hl, hp⟩ := mem_parseListenPorts_lines.mp hp
      obtain ⟨i, hi⟩ := List.mem_iff_getElem?.mp hl
      refine ⟨_, (hm _).mpr ⟨f, hf, i, line, hi, hitOfLine_eq_some.mpr ⟨⟨p, hp, hw⟩, rfl⟩⟩, ?_⟩
      exact List.mem_filter.mpr ⟨hp, Std.ExtTreeSet.contains_iff_mem.mpr hw⟩
  · intro hit hh
    obtain ⟨f, hf, i, line, hl, hh⟩ := (hm hit).mp hh
    obtain ⟨-, rfl⟩ := hitOfLine_eq_some.mp hh
    exact ⟨f.2, hf, Nat.le_add_left 1 i, hl, rfl⟩
  · intro f hf i line hl hp
    exact ⟨_, (hm _).mpr ⟨f, hf, i, line, hl, hitOfLine_eq_some.mpr ⟨hp, rfl⟩⟩, rfl, rfl, rfl⟩

-- A root that includes a second file.
private def twoFiles : ConfTree where
  files := [("nginx.conf".toList, "include a.conf;\nlisten 80; # web\n".toList),
    ("a.conf".toList, "listen 90;\n listen *:19001;".toList)]
  entries _ := none
  canonical path := some path

theorem findListenHits_accounts_two :
    ∃ files ports, readExpandedFiles twoFiles "nginx.conf".toList = .ok files ∧
      parseListenPortsFromConf twoFiles "nginx.conf".toList = .ok ports ∧
      Accounts files ports (Std.ExtTreeSet.ofList ([80, 19001] : List Port))
        [⟨"nginx.conf".toList, 2, "listen 80; # web".toList, [80]⟩,
          ⟨"a.conf".toList, 2, " listen *:19001;".toList, [19001]⟩] :=
  findListenHits_accounts (by rfl)

end SkLookup.Nginx
