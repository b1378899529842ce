import SkLookup.Effect.Prog
import SkLookup.Kernel.SockMap
import SkLookup.Nginx.Listen

/-!
# The machine the loader runs on

The commands through which the loader touches files and pinned maps, and what each does to
the machine when it works and when it fails. A file is known by the role it plays for the
program and by its path: no path is used in two roles, or for the nginx configuration, which
nobody writes. Temporary files of the desired-file writer belong to the target path and the
writing process. Whether a file is there is answered truthfully, and the keys of a map are listed
without a failure; every other command on files and maps may fail.
-/

namespace SkLookup

open Codec Effect

/-- What a file is to the program. -/
inductive Role where
  | ports
  | policy
  | central
  | freeze
  | metrics
  | stamp
  | list
  deriving DecidableEq, Repr

/-- Who issued a mutation; `src/rust/loader/src/sockctl.rs:24`. -/
structure PeerCred where
  pid : Nat
  uid : Nat
  gid : Nat
  deriving DecidableEq, Repr

/-- A record of the audit log: one call of `audit_line`, which prints the names as they are, line
feeds included; `src/rust/loader/src/sockctl.rs:61`. -/
structure AuditLine where
  cred : PeerCred
  op : Text
  tenant : Text
  site : Text
  ports : Text
  ok : Bool
  deriving DecidableEq, Repr

/-- One entry of a central document; `src/rust/loader/src/central.rs:21`. -/
structure CentralPort where
  tenant : Text
  site : Text
  port : Port
  cert : Option Text
  policy : Option Text
  tls : Bool
  deriving DecidableEq, Repr

/-- A central document; `src/rust/loader/src/central.rs:14`. -/
structure CentralState where
  version : UInt32
  ports : List CentralPort
  deriving DecidableEq, Repr

/-- What a process finds around it: the byte order, its identity and environment, its
standard input, and the JSON reader and writer of central documents. -/
structure Host where
  endian : Endian
  cred : PeerCred
  env : String → Option Text
  stdin : Text
  decodeCentral : Text → Option CentralState
  encodeCentral : CentralState → Text
  rfc3339Now : Text

/-- Why a file operation failed. -/
inductive IoError where
  | notFound
  | other
  deriving DecidableEq, Repr

/-- The state of the machine as far as the loader reads or writes it. -/
structure World where
  files : Role → Path → Option Text
  temps : Path → Nat → Option Text
  conf : ConfTree
  openPorts : PortMap
  pinned : Path → Bool
  redirSocket : SockMap
  audit : List AuditLine

/-- The commands of the program. -/
inductive Op where
  /-- `Path::exists`. -/
  | fileExists (role : Role) (path : Path)
  /-- `fs::read_to_string`, or `File::open` and reading to the end. -/
  | readFile (role : Role) (path : Path)
  /-- `fs::write`, or opening with `create` and `truncate` and writing nothing. -/
  | writeFile (role : Role) (path : Path) (text : Text)
  /-- `fs::remove_file`. -/
  | removeFile (role : Role) (path : Path)
  /-- `fs::create_dir_all`. -/
  | createDirAll (dir : Path)
  /-- `File::create` of the temporary file for a ports file. -/
  | createTemp (path : Path) (pid : Nat)
  /-- `set_permissions` and, for root, `fchown` on the temporary file. -/
  | keepOwner (path : Path) (pid : Nat)
  /-- One `write!` to the temporary file. -/
  | appendTemp (path : Path) (pid : Nat) (text : Text)
  /-- `File::sync_all` on the temporary file. -/
  | syncTemp (path : Path) (pid : Nat)
  /-- `fs::rename` of the temporary file onto the ports file. -/
  | renameTemp (path : Path) (pid : Nat)
  /-- `fs::remove_file` on the temporary file. -/
  | removeTemp (path : Path) (pid : Nat)
  /-- The nginx configuration tree as it is now. -/
  | confTree
  /-- `MapHandle::from_pinned_path` on the `open_ports` pin of a directory. -/
  | openPinned (pinDir : Path)
  /-- `MapCore::keys`, collected. -/
  | mapKeys
  /-- `MapCore::lookup`. -/
  | mapLookup (key : Bytes)
  /-- `MapCore::update`. -/
  | mapUpdate (key value : Bytes)
  /-- `MapHandle::update_batch`. -/
  | mapUpdateBatch (keys values : Bytes) (count : Nat)
  /-- `MapCore::delete`. -/
  | mapDelete (key : Bytes)
  /-- `MapHandle::delete_batch`. -/
  | mapDeleteBatch (keys : Bytes) (count : Nat)
  /-- A progress line on standard error. -/
  | report (op : String) (done total : Nat)
  /-- An audit line on standard error. -/
  | auditLine (line : AuditLine)
  /-- `acquire_loader_lock`. -/
  | loaderLock
  /-- `load_and_attach`: the maps pinned in the directory are reused, others are created. -/
  | loadAndAttach (pinDir : Path)
  /-- `ensure_maps_pinned`. -/
  | pinMaps (pinDir : Path)
  /-- A listening socket for an address: bound, or found among the workers. -/
  | listenSocket (addr : Text)
  /-- `MapCore::update` on `redir_socket`: a listen socket by its descriptor. -/
  | redirUpdate (key : Bytes) (fd : Nat)
  deriving DecidableEq

/-- The type of answer of each command. -/
def Op.Res : Op → Type
  | .fileExists .. => Bool
  | .readFile .. => Except IoError Text
  | .confTree => ConfTree
  | .mapKeys => List Bytes
  | .mapLookup _ => Except IoError (Option Bytes)
  | .auditLine _ => Unit
  | .listenSocket _ => Except IoError Nat
  | _ => Except IoError Unit

/-- The commands with their answers. -/
abbrev sig : Signature := ⟨Op, Op.Res⟩

/-- What the environment decides at a command: it works, with a datum where one is found, or
it fails after so many of its parts took effect. -/
inductive Choice where
  | works (found : Nat)
  | fails (after : Nat)
  deriving DecidableEq, Repr

instance : Inhabited Choice := ⟨.works 0⟩

/-- A file with a new content, or none. -/
def World.setFile (w : World) (role : Role) (path : Path) (text : Option Text) : World :=
  { w with files := fun r p ↦ if r = role ∧ p = path then text else w.files r p }

/-- A temporary file with a new content, or none. -/
def World.setTemp (w : World) (path : Path) (pid : Nat) (text : Option Text) : World :=
  { w with temps := fun p i ↦ if p = path ∧ i = pid then text else w.temps p i }

/-- Insert keys and values in order; stops at the first pair that does not fit the map. -/
def PortMap.updateAll (m : PortMap) : List (Bytes × Bytes) → PortMap × Bool
  | [] => (m, true)
  | (key, value) :: rest =>
    match m.update key value with
    | some m' => m'.updateAll rest
    | none => (m, false)

/-- Delete keys in order; stops at the first one that is absent. -/
def PortMap.eraseAll (m : PortMap) : List Bytes → PortMap × Bool
  | [] => (m, true)
  | key :: rest => if key ∈ m.entries then (m.erase key).eraseAll rest else (m, false)

/-- Cut packed memory into `count` pieces of `size` bytes. -/
def unpack (size : Nat) : Nat → Bytes → List Bytes
  | 0, _ => []
  | count + 1, bytes => bytes.take size :: unpack size count (bytes.drop size)

/-- The pairs a batch update is asked to write. -/
def batchPairs (keys values : Bytes) (count : Nat) : List (Bytes × Bytes) :=
  (unpack openPortsKeySize count keys).zip (unpack openPortsValueSize count values)

-- A command whose only effect is that it works or fails.
private def answer : Choice → Except IoError Unit
  | .works _ => .ok ()
  | .fails _ => .error .other

/-- The answer of a batch call: it works when every key was processed. -/
def batchAnswer (done : Bool) : Except IoError Unit := if done then .ok () else .error .other

/-- A batch call works exactly when every key was processed. -/
@[simp] theorem batchAnswer_eq_ok {done : Bool} : batchAnswer done = .ok () ↔ done = true := by
  cases done <;> simp [batchAnswer]

/-- The answer of opening a pin. -/
def pinAnswer (present : Bool) : Except IoError Unit :=
  if present then .ok () else .error .notFound

/-- Opening a pin works when it is there. -/
@[simp] theorem pinAnswer_eq_ok {present : Bool} :
    pinAnswer present = .ok () ↔ present = true := by
  cases present <;> simp [pinAnswer]

/-- What a command does under a choice of the environment. -/
def exec : (o : Op) → Choice → World → World × o.Res
  | .fileExists role path, _, w => (w, (w.files role path).isSome)
  | .readFile role path, .works _, w =>
    (w, match w.files role path with
      | some text => .ok text
      | none => .error .notFound)
  | .readFile _ _, .fails _, w => (w, .error .other)
  | .writeFile role path text, .works _, w => (w.setFile role path (some text), .ok ())
  | .writeFile _ _ _, .fails 0, w => (w, .error .other)
  | .writeFile role path text, .fails (n + 1), w =>
    (w.setFile role path (some (text.take n)), .error .other)
  | .removeFile role path, .works _, w =>
    if (w.files role path).isSome then (w.setFile role path none, .ok ())
    else (w, .error .notFound)
  | .removeFile _ _, .fails _, w => (w, .error .other)
  | .createDirAll _, c, w => (w, answer c)
  | .createTemp path pid, .works _, w => (w.setTemp path pid (some []), .ok ())
  | .createTemp _ _, .fails _, w => (w, .error .other)
  | .keepOwner _ _, c, w => (w, answer c)
  | .appendTemp path pid text, .works _, w =>
    (w.setTemp path pid ((w.temps path pid).map (· ++ text)), .ok ())
  | .appendTemp path pid text, .fails n, w =>
    (w.setTemp path pid ((w.temps path pid).map (· ++ text.take n)), .error .other)
  | .syncTemp _ _, c, w => (w, answer c)
  | .renameTemp path pid, .works _, w =>
    match w.temps path pid with
    | some text => ((w.setFile .ports path (some text)).setTemp path pid none, .ok ())
    | none => (w, .error .notFound)
  | .renameTemp _ _, .fails _, w => (w, .error .other)
  | .removeTemp path pid, .works _, w => (w.setTemp path pid none, .ok ())
  | .removeTemp _ _, .fails _, w => (w, .error .other)
  | .confTree, _, w => (w, w.conf)
  | .openPinned pinDir, .works _, w =>
    (w, pinAnswer (w.pinned pinDir))
  | .openPinned _, .fails _, w => (w, .error .other)
  | .mapKeys, _, w => (w, w.openPorts.entries.keys)
  | .mapLookup key, .works _, w => (w, .ok (w.openPorts.lookup key))
  | .mapLookup _, .fails _, w => (w, .error .other)
  | .mapUpdate key value, .works _, w =>
    match w.openPorts.update key value with
    | some m => ({ w with openPorts := m }, .ok ())
    | none => (w, .error .other)
  | .mapUpdate _ _, .fails _, w => (w, .error .other)
  | .mapUpdateBatch keys values count, .works _, w =>
    let (m, done) := w.openPorts.updateAll (batchPairs keys values count)
    ({ w with openPorts := m }, batchAnswer done)
  | .mapUpdateBatch keys values count, .fails n, w =>
    ({ w with openPorts := (w.openPorts.updateAll ((batchPairs keys values count).take n)).1 },
      .error .other)
  | .mapDelete key, .works _, w =>
    if key ∈ w.openPorts.entries then ({ w with openPorts := w.openPorts.erase key }, .ok ())
    else (w, .error .notFound)
  | .mapDelete _, .fails _, w => (w, .error .other)
  | .mapDeleteBatch keys count, .works _, w =>
    let (m, done) := w.openPorts.eraseAll (unpack openPortsKeySize count keys)
    ({ w with openPorts := m }, batchAnswer done)
  | .mapDeleteBatch keys count, .fails n, w =>
    ({ w with openPorts := (w.openPorts.eraseAll ((unpack openPortsKeySize count keys).take n)).1 },
      .error .other)
  | .report _ _ _, c, w => (w, answer c)
  | .auditLine line, _, w => ({ w with audit := w.audit ++ [line] }, ())
  | .loaderLock, c, w => (w, answer c)
  | .loadAndAttach pinDir, .works _, w =>
    (if w.pinned pinDir then w else { w with openPorts := .empty }, .ok ())
  | .loadAndAttach _, .fails _, w => (w, .error .other)
  | .pinMaps pinDir, .works _, w =>
    ({ w with pinned := fun p ↦ if p = pinDir then true else w.pinned p }, .ok ())
  | .pinMaps _, .fails _, w => (w, .error .other)
  | .listenSocket _, .works fd, w => (w, .ok fd)
  | .listenSocket _, .fails _, w => (w, .error .other)
  | .redirUpdate key fd, .works _, w =>
    ({ w with redirSocket := w.redirSocket.update key fd }, .ok ())
  | .redirUpdate _ _, .fails _, w => (w, .error .other)

/-- The machine. -/
abbrev machine : Machine sig := ⟨World, Choice, exec⟩

/-- A fallible part of the loader. -/
abbrev Task (α : Type) : Type := Code sig Error α

/-- Issue a command and take its answer. -/
abbrev ask (o : Op) : Task o.Res := @Code.ask sig Error o

/-- Issue a command and judge its answer. -/
abbrev attempt {α : Type} (o : Op) (f : o.Res → Result α) : Task α := @Code.attempt sig α Error o f

/-- The slot a port is open with. -/
abbrev World.slot (e : Endian) (w : World) (port : Port) : Option Slot := w.openPorts.slot e port

/-- A little-endian host with nothing in its environment. -/
def Host.plain : Host where
  endian := .little
  cred := ⟨1, 0, 0⟩
  env _ := none
  stdin := []
  decodeCentral _ := none
  encodeCentral _ := []
  rfc3339Now := []

/-- A machine with the given files, no nginx configuration and an empty pinned map. -/
def World.plain (files : Role → Path → Option Text) : World where
  files := files
  temps _ _ := none
  conf := ⟨[], fun _ ↦ none, fun _ ↦ none⟩
  openPorts := .empty
  pinned _ := true
  redirSocket _ := none
  audit := []

/-- An environment in which every command works. -/
def works : machine.Env := fun _ _ ↦ .works 0

end SkLookup
