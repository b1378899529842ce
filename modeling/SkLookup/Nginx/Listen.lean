import SkLookup.Policy

/-!
# Real listens of an nginx configuration

The `listen` and `include` scan of `src/rust/loader/src/nginx_listen.rs` over a directory
tree that is given as data.
-/

namespace SkLookup

open Codec

/-- A configuration tree: file contents by canonical path, directory listings, and what
`fs::canonicalize` says about a path (`none` when nothing is there). -/
structure ConfTree where
  files : List (Path × Text)
  entries : Path → Option (List Text)
  canonical : Path → Option Path

namespace ConfTree

/-- `fs::read_to_string` on a path of the tree. -/
def content (tree : ConfTree) (path : Path) : Option Text :=
  (tree.canonical path).bind (fun key ↦ tree.files.lookup key)

/-- `Path::exists` on a path of the tree. -/
def pathExists (tree : ConfTree) (path : Path) : Bool := (tree.canonical path).isSome

end ConfTree

namespace Nginx

/-- `inner_real_ports`, `src/rust/loader/src/nginx_listen.rs:10`. -/
def innerRealPorts : PortSet := Std.ExtTreeSet.ofList ([80, 443, 8080, 8443] : List Port)

/-- The digits of an address, or what follows its last colon;
`src/rust/loader/src/nginx_listen.rs:22-26`. -/
def rawPort (address : Text) : Option Text :=
  if address.all Char.isDigit then some address
  else (rsplitOnce ':' address).map (fun p ↦ trimEndMatches ';' p.2)

/-- The port of one line's `listen` directive, if it has one;
`src/rust/loader/src/nginx_listen.rs:18-29`. -/
def listenOfLine (original : Text) : Option Port :=
  match stripPrefix "listen".toList (trim (before '#' original)) with
  | none => none
  | some rest =>
    if !(rest.head?.any isWhitespace) then none else
      let address := trimEndMatches ';' ((words (trimStart rest)).headD [])
      match (rawPort address).bind (parseUnsigned 65536) with
      | none => none
      | some n => if n = 0 then none else some (UInt16.ofNat n)

/-- Ports of a text's `listen` lines, each once; `src/rust/loader/src/nginx_listen.rs:14`. -/
def parseListenPorts (text : Text) : List Port :=
  uniquePorts ((lines text).filterMap listenOfLine)

/-- `strip_comment`, `src/rust/loader/src/nginx_listen.rs:45`. -/
def stripComment (line : Text) : Text := trim (before '#' line)

/-- `parse_include_specs`, `src/rust/loader/src/nginx_listen.rs:49`. -/
def parseIncludeSpecs (line : Text) : Option (List Text) :=
  match stripPrefix "include".toList (stripComment line) with
  | none => none
  | some rest =>
    if !(rest.head?.any isWhitespace) then none else
      let spec := trim (trimEndMatches ';' (trim rest))
      if spec = [] then none else some (words spec)

/-- `resolve_include`, `src/rust/loader/src/nginx_listen.rs:62`. -/
def resolveInclude (baseDir : Path) (spec : Text) : Path :=
  if isAbsolute spec then spec else joinPath baseDir spec

/-- The suffixes of a name that start at one of its characters. -/
def suffixes : Text → List Text
  | [] => []
  | c :: t => (c :: t) :: suffixes t

/-- The matching loop: `name` is the whole name of this call, `n` what is left of it. -/
def globLoop : Text → Text → Text → Bool
  | '*' :: suffix, name, _ =>
    if suffix = [] then true else (suffixes name).any (fun t ↦ globLoop suffix t t)
  | '?' :: p, name, nc :: n => if nc = '/' then false else globLoop p name n
  | pc :: p, name, nc :: n => if pc = nc then globLoop p name n else false
  | [], _, [] => true
  | _, _, _ => false

/-- `glob_matches`, `src/rust/loader/src/nginx_listen.rs:71`. After a star the rest of the
pattern is tried on every suffix of the whole name, also of the part before the star. -/
def globMatches (pattern name : Text) : Bool := globLoop pattern name name

-- `Vec::sort` on paths of one directory.
private def insertSorted (t : Text) : List Text → List Text
  | [] => [t]
  | u :: rest => if (compare t u).isLE then t :: u :: rest else u :: insertSorted t rest

private def sortTexts : List Text → List Text
  | [] => []
  | t :: rest => insertSorted t (sortTexts rest)

/-- `expand_glob`, `src/rust/loader/src/nginx_listen.rs:106`. -/
def expandGlob (tree : ConfTree) (path : Path) : Result (List Path) :=
  if ¬('*' ∈ path ∨ '?' ∈ path) then .ok [path] else
    match parent path, fileName path with
    | none, _ => bail "include glob missing parent directory"
    | _, none => bail "include glob missing filename pattern"
    | some dir, some pattern =>
      if !tree.pathExists dir then .ok [] else
        match tree.entries dir with
        | none => bail s!"read include directory {shown dir}"
        | some names => .ok (sortTexts ((names.filter (globMatches pattern)).map (joinPath dir)))

private theorem mem_insertSorted {t u : Text} {l : List Text} :
    u ∈ insertSorted t l ↔ u = t ∨ u ∈ l := by
  induction l with
  | nil => simp [insertSorted]
  | cons v l ih =>
    rw [insertSorted]
    split
    · exact List.mem_cons
    · rw [List.mem_cons, ih, List.mem_cons, or_left_comm]

private theorem mem_sortTexts {u : Text} {l : List Text} : u ∈ sortTexts l ↔ u ∈ l := by
  induction l with
  | nil => rfl
  | cons t l ih => rw [sortTexts, mem_insertSorted, ih, List.mem_cons]

/-- A spec with a wildcard is not expanded: it has no parent or no file name, or the directory
it names cannot be listed. -/
def Refuses (tree : ConfTree) (spec : Path) : Prop :=
  parent spec = none ∨ fileName spec = none ∨
    ∃ dir, parent spec = some dir ∧ tree.pathExists dir = true ∧ tree.entries dir = none

/-- A spec has a wildcard. -/
def Wild (spec : Path) : Prop := '*' ∈ spec ∨ '?' ∈ spec

instance (spec : Path) : Decidable (Wild spec) := inferInstanceAs (Decidable (_ ∨ _))

private theorem expandGlob_wild {tree : ConfTree} {spec : Path} (hw : Wild spec) :
    expandGlob tree spec = match parent spec, fileName spec with
      | none, _ => bail "include glob missing parent directory"
      | _, none => bail "include glob missing filename pattern"
      | some dir, some pattern =>
        if !tree.pathExists dir then .ok [] else
          match tree.entries dir with
          | none => bail s!"read include directory {shown dir}"
          | some names =>
            .ok (sortTexts ((names.filter (globMatches pattern)).map (joinPath dir))) :=
  if_neg (not_not.mpr hw)

/-- The failures of an expansion. -/
theorem refuses_of_expandGlob {tree : ConfTree} {spec : Path} {err : Error} (hw : Wild spec)
    (h : expandGlob tree spec = .error err) : Refuses tree spec := by
  rw [expandGlob_wild hw] at h
  cases hd : parent spec with
  | none => exact .inl hd
  | some dir =>
    cases hp : fileName spec with
    | none => exact .inr (.inl hp)
    | some pattern =>
      simp only [hd, hp] at h
      split at h
      · cases h
      · next he =>
        cases hn : tree.entries dir with
        | none => exact .inr (.inr ⟨dir, hd, by simpa using he, hn⟩)
        | some names => simp [hn] at h

/-- An expanded wildcard gives the matching entries of the directory that its parent spells. -/
theorem mem_expandGlob {tree : ConfTree} {spec : Path} {paths : List Path} (hw : Wild spec)
    (h : expandGlob tree spec = .ok paths) :
    ¬Refuses tree spec ∧ ∃ dir pattern, parent spec = some dir ∧ fileName spec = some pattern ∧
      ∀ p, p ∈ paths ↔ tree.pathExists dir = true ∧ ∃ names, tree.entries dir = some names ∧
        ∃ name ∈ names, globMatches pattern name = true ∧ p = joinPath dir name := by
  rw [expandGlob_wild hw] at h
  cases hd : parent spec with
  | none => simp [hd] at h
  | some dir =>
    cases hp : fileName spec with
    | none => simp [hd, hp] at h
    | some pattern =>
      simp only [hd, hp] at h
      split at h
      · next he =>
        have he : tree.pathExists dir = false := by simpa using he
        obtain rfl := Except.ok.inj h
        exact ⟨by simp [Refuses, hd, hp, he], dir, pattern, rfl, rfl, by simp [he]⟩
      · next he =>
        have he : tree.pathExists dir = true := by simpa using he
        cases hn : tree.entries dir with
        | none => simp [hn] at h
        | some names =>
          simp only [hn] at h
          obtain rfl := Except.ok.inj h
          refine ⟨by simp [Refuses, hd, hp, hn], dir, pattern, rfl, rfl, fun p ↦ ?_⟩
          simp only [mem_sortTexts, List.mem_map, List.mem_filter, he, true_and, hn,
            Option.some.injEq, exists_eq_left', and_assoc, eq_comm (a := p)]

/-- `visit_key`, `src/rust/loader/src/nginx_listen.rs:131`. -/
def visitKey (tree : ConfTree) (path : Path) : Path := (tree.canonical path).getD path

/-- What the include walk has seen: the keys it visited and the files it read. -/
structure Walk where
  visited : List Path
  out : List (Path × Text)

/-- `walk_includes`, `src/rust/loader/src/nginx_listen.rs:142`. Every level of the recursion
reads a file that no level above it has read, so the number of files bounds its depth. -/
def walkIncludes (tree : ConfTree) : Nat → Path → Walk → Result Walk
  | 0, path, _ => bail s!"include depth at {shown path}"
  | fuel + 1, path, walk =>
    if visitKey tree path ∈ walk.visited then .ok walk else
      match tree.content path with
      | none => bail s!"read nginx config {shown path}"
      | some text =>
        let base := (parent path).getD ['.']
        let specs := ((lines text).filterMap parseIncludeSpecs).flatten
        specs.foldlM
          (fun walk spec ↦ do
            let incs ← expandGlob tree (resolveInclude base spec)
            incs.foldlM (fun walk inc ↦ walkIncludes tree fuel inc walk) walk)
          ⟨visitKey tree path :: walk.visited, walk.out ++ [(path, text)]⟩

/-- `read_expanded_files`, `src/rust/loader/src/nginx_listen.rs:135`. -/
def readExpandedFiles (tree : ConfTree) (root : Path) : Result (List (Path × Text)) := do
  let walk ← walkIncludes tree (tree.files.length + 1) root ⟨[], []⟩
  .ok walk.out

/-- `parse_listen_ports_from_conf`, `src/rust/loader/src/nginx_listen.rs:162`. -/
def parseListenPortsFromConf (tree : ConfTree) (path : Path) : Result (List Port) := do
  let files ← readExpandedFiles tree path
  .ok (uniquePorts (files.flatMap (fun f ↦ parseListenPorts f.2)))

/-- `real_listen_ports_from_conf`, `src/rust/loader/src/nginx_listen.rs:183`. -/
def realListenPortsFromConf (tree : ConfTree) (path : Path) : Result PortSet := do
  let ports ← parseListenPortsFromConf tree path
  .ok (innerRealPorts.insertMany ports)

/-- `real_ports`, `src/rust/loader/src/ctl.rs:400`. -/
def realPorts (tree : ConfTree) (path : Path) : Result PortSet :=
  if !tree.pathExists path then .ok innerRealPorts else realListenPortsFromConf tree path

/-- `skip_reason`, `src/rust/loader/src/nginx_listen.rs:237`. -/
def skipReason (port : Port) (policy : Policy) (extraSkip : PortSet) : Option String :=
  if port = 80 ∨ port = 443 then some "reserved real bind"
  else if policy.reserve.contains port then some "reserved by policy"
  else if extraSkip.contains port then some "skipped real listen"
  else if policy.deny.contains port then some "denied by policy"
  else if port ≤ 1023 ∧ ¬policy.allowPrivileged.contains port then some "privileged"
  else none

/-- `importable_ports`, `src/rust/loader/src/nginx_listen.rs:246`. -/
def importablePorts (policy : Policy) (extraSkip : PortSet) :
    List Port → List Port × List (Port × String)
  | [] => ([], [])
  | port :: rest =>
    let (accepted, skipped) := importablePorts policy extraSkip rest
    match skipReason port policy extraSkip with
    | some reason => (accepted, (port, reason) :: skipped)
    | none => (port :: accepted, skipped)

/-- The inner ports are real listens of every configuration. -/
theorem mem_realPorts_of_inner {tree : ConfTree} {path : Path} {real : PortSet}
    (h : realPorts tree path = .ok real) {port : Port} (hp : port ∈ innerRealPorts) :
    port ∈ real := by
  unfold realPorts at h
  split at h
  · exact Except.ok.inj h ▸ hp
  · obtain ⟨ports, -, h⟩ := bind_eq_ok.mp h
    rw [← Except.ok.inj h]
    exact Std.ExtTreeSet.mem_insertMany_list.mpr (.inl hp)

example :
    parseListenPorts "listen [::]:18082;\nlisten 8080; # x\nlisten 127.0.0.1:8443 ssl;".toList =
      [18082, 8080, 8443] := by decide

end Nginx

end SkLookup
