import SkLookup.Effect.Prog
import SkLookup.Host.Bulk

/-!
# The pinned dataplane

The pins of one pin directory, the upgrade journal that belongs to it and the kernel objects
behind the pins, with the commands through which the loader and `src/rust/loader/src/upgrade.rs`
touch them. A link that is attached but not pinned belongs to the process that attached it and
goes with it.
-/

namespace SkLookup.Upgrade

open Codec Effect

/-- `Phase`, `src/rust/loader/src/upgrade.rs:30`. -/
inductive Phase where
  | prepared
  | activating
  | healthy
  | rollingBack
  | rolledBack
  | committed
  | failed
  deriving DecidableEq, Repr

/-- `Phase::terminal`, `src/rust/loader/src/upgrade.rs:41`. -/
def Phase.terminal : Phase → Bool
  | .rolledBack | .committed | .failed => true
  | _ => false

/-- A phase as `Debug` shows it. -/
def Phase.debug : Phase → String
  | .prepared => "Prepared"
  | .activating => "Activating"
  | .healthy => "Healthy"
  | .rollingBack => "RollingBack"
  | .rolledBack => "RolledBack"
  | .committed => "Committed"
  | .failed => "Failed"

/-- `Journal`, `src/rust/loader/src/upgrade.rs:47`. -/
structure Journal where
  schemaVersion : UInt32
  phase : Phase
  pinDir : Path
  candidate : Path
  healthWindowMs : Nat
  detail : String
  deriving DecidableEq, Repr

/-- What a journal file holds: nothing yet, text that is no journal, or a journal. -/
inductive JournalText where
  | empty
  | torn
  | whole (journal : Journal)
  deriving DecidableEq, Repr

/-- A file that was created once and may since have been renamed. -/
structure JournalFile where
  handle : Nat
  text : JournalText
  deriving DecidableEq, Repr

/-- `MapAbi`, `src/rust/loader/src/upgrade.rs:57`. -/
structure MapAbi where
  name : String
  keySize : Nat
  valueSize : Nat
  maxEntries : Nat
  deriving DecidableEq, Repr

/-- A map of the kernel. -/
structure MapObject where
  id : Nat
  keySize : Nat
  valueSize : Nat
  maxEntries : Nat
  deriving DecidableEq, Repr

/-- A loaded `dispatch` program and the maps it uses. -/
structure Program where
  id : Nat
  openPorts : MapObject
  redirSocket : MapObject
  deriving DecidableEq, Repr

/-- A netns link and the program it runs while it is attached. -/
structure NetnsLink where
  prog : Program
  attached : Bool
  deriving DecidableEq, Repr

/-- A BPF object file: its maps and the names of its programs. -/
structure ObjectFile where
  maps : List MapAbi
  programs : List String
  deriving DecidableEq, Repr

/-- The pinned links, `src/rust/loader/src/pin.rs:14`. -/
inductive LinkPin where
  | primary
  | backup
  deriving DecidableEq, Repr

/-- The pinned programs, `src/rust/loader/src/pin.rs:16`. -/
inductive ProgPin where
  | live
  | previous
  | candidate
  deriving DecidableEq, Repr

/-- The pinned maps, `src/rust/loader/src/pin.rs:12`. -/
inductive MapPin where
  | openPorts
  | redirSocket
  deriving DecidableEq, Repr

/-- `REDIR_SOCKET_MAX_ENTRIES`, `src/rust/loader/src/pin.rs:24`. -/
def redirSocketMaxEntries : Nat := 2

/-- `REDIR_SOCKET_KEY_SIZE`, `src/rust/loader/src/pin.rs:25`. -/
def redirSocketKeySize : Nat := 4

/-- `REDIR_SOCKET_VALUE_SIZE`, `src/rust/loader/src/pin.rs:26`. -/
def redirSocketValueSize : Nat := 8

/-- A new `open_ports` map, as `src/dispatch.bpf.c:27` declares it. -/
def newOpenPorts (id : Nat) : MapObject :=
  ⟨id, openPortsKeySize, openPortsValueSize, openPortsMaxEntries⟩

/-- A new `redir_socket` map, as `src/dispatch.bpf.c:33` declares it. -/
def newRedirSocket (id : Nat) : MapObject :=
  ⟨id, redirSocketKeySize, redirSocketValueSize, redirSocketMaxEntries⟩

/-- The map of a program that a pin is for. -/
def Program.map (q : Program) : MapPin → MapObject
  | .openPorts => q.openPorts
  | .redirSocket => q.redirSocket

/-- The pins and what is behind them. The two counters number what the kernel has created. -/
structure Plane where
  objects : Path → Option ObjectFile
  journal : Option JournalFile
  temp : Option JournalFile
  handles : Nat
  links : LinkPin → Option NetnsLink
  progs : ProgPin → Option Program
  maps : MapPin → Option MapObject
  entries : Nat → Bytes → Option Bytes
  loads : Nat
  created : Nat

/-- The commands. -/
inductive Op where
  /-- `fs::read_to_string` of the journal. -/
  | readJournal
  /-- `fs::create_dir_all` of the journal's directory. -/
  | createJournalDir
  /-- `File::create` of the journal's temporary file. -/
  | createTemp
  /-- `write_all` of a journal and a line end. -/
  | writeTemp (handle : Nat) (journal : Journal)
  /-- `sync_all`. -/
  | syncTemp (handle : Nat)
  /-- `fs::rename` of the temporary file onto the journal. -/
  | renameTemp
  /-- `Path::exists` of a pin. -/
  | progExists (pin : ProgPin)
  | linkExists (pin : LinkPin)
  | mapExists (pin : MapPin)
  /-- `bpf_obj_get` of a pinned program. -/
  | openProg (pin : ProgPin)
  /-- `Program::pin`. -/
  | pinProg (pin : ProgPin) (q : Program)
  /-- `fs::remove_file` of a pinned program. -/
  | removeProg (pin : ProgPin)
  /-- `fs::rename` of a pinned program. -/
  | renameProg (source target : ProgPin)
  /-- `Link::open`. -/
  | openLink (pin : LinkPin)
  /-- `bpf_link_update`. -/
  | updateLink (pin : LinkPin) (q : Program)
  /-- `File::open` of the network namespace. -/
  | openNetns
  /-- `attach_netns`: the link is not pinned yet. -/
  | attachNetns (q : Program)
  /-- `Link::pin` of a link that was attached with the program. -/
  | pinLink (pin : LinkPin) (q : Program)
  /-- `Link::detach`. -/
  | detachLink (pin : LinkPin)
  /-- `Link::unpin`. -/
  | unpinLink (pin : LinkPin)
  /-- `fs::remove_file` of a pinned link. -/
  | removeLink (pin : LinkPin)
  /-- `MapHandle::from_pinned_path`, or `reuse_pinned_map`. -/
  | openMap (pin : MapPin)
  /-- `Map::pin`. -/
  | pinMap (pin : MapPin) (m : MapObject)
  /-- `fs::remove_file` of a pinned map. -/
  | removeMap (pin : MapPin)
  /-- `fs::create_dir_all` of the pin directory. -/
  | createPinDir
  /-- `fs::remove_dir` of the pin directory. -/
  | removePinDir
  /-- `Path::is_file` of an object file. -/
  | objectExists (path : Path)
  /-- `ObjectBuilder::open_file`. -/
  | openObject (path : Path)
  /-- `DispatchSkelBuilder::open`. -/
  | openSkeleton
  /-- `load` of an object with two maps, each reused or created. -/
  | loadObject (openPorts redirSocket : Option MapObject)
  /-- `thread::sleep`. -/
  | sleep (window : Nat)
  deriving DecidableEq

/-- The type of answer of each command. -/
def Op.Res : Op → Type
  | .readJournal => Except IoError JournalText
  | .createTemp => Except IoError Nat
  | .progExists _ | .linkExists _ | .mapExists _ | .objectExists _ => Bool
  | .openProg _ | .loadObject _ _ => Except IoError Program
  | .openMap _ => Except IoError MapObject
  | .openObject _ => Except IoError ObjectFile
  | .sleep _ => Unit
  | _ => Except IoError Unit

/-- The commands with their answers. -/
abbrev sig : Signature := ⟨Op, Op.Res⟩

namespace Plane

variable (s : Plane)

/-- A pinned link set or removed. -/
def setLink (pin : LinkPin) (l : Option NetnsLink) : Plane :=
  { s with links := fun p ↦ if p = pin then l else s.links p }

/-- A pinned program set or removed. -/
def setProg (pin : ProgPin) (q : Option Program) : Plane :=
  { s with progs := fun p ↦ if p = pin then q else s.progs p }

/-- A pinned map set or removed. -/
def setMap (pin : MapPin) (m : Option MapObject) : Plane :=
  { s with maps := fun p ↦ if p = pin then m else s.maps p }

/-- The programs that a pin holds or runs. -/
def programs : List Program :=
  [ProgPin.live, .previous, .candidate].filterMap s.progs ++
    ([LinkPin.primary, .backup].filterMap s.links).map NetnsLink.prog

/-- A number that no program in use has. -/
def nextProgram : Nat := (s.programs.map (fun q ↦ q.id + 1)).foldl max s.loads

/-- A new text behind a file handle that the journal has. -/
def rewriteJournal (handle : Nat) (f : JournalText → JournalText) : Plane :=
  { s with journal := s.journal.map (fun file ↦
      if file.handle = handle then { file with text := f file.text } else file) }

/-- A new text behind a file handle: the file may have been renamed since it was opened. -/
def rewrite (handle : Nat) (f : JournalText → JournalText) : Plane :=
  match s.temp with
  | some ⟨h, text⟩ =>
    if h = handle then { s with temp := some ⟨h, f text⟩ } else s.rewriteJournal handle f
  | none => s.rewriteJournal handle f

end Plane

/-- The text after a complete write. Over another writer's text it may come out either way. -/
def overwrite (journal : Journal) (found : Nat) : JournalText → JournalText
  | .empty => .whole journal
  | _ => if found = 0 then .whole journal else .torn

-- A command whose only effect is that it works or fails.
private def answer : Choice → Except IoError Unit
  | .works _ => .ok ()
  | .fails _ => .error .other

/-- What a lookup answers. -/
def found {α : Type} : Option α → Except IoError α
  | some a => .ok a
  | none => .error .notFound

/-- A lookup works when something is there. -/
@[simp] theorem found_eq_ok {α : Type} {x : Option α} {a : α} : found x = .ok a ↔ x = some a := by
  cases x <;> simp [found]

/-- What a command does under a choice of the environment. -/
def exec : (o : Op) → Choice → Plane → Plane × o.Res
  | .readJournal, .works _, s => (s, found (s.journal.map JournalFile.text))
  | .readJournal, .fails _, s => (s, .error .other)
  | .createJournalDir, c, s => (s, answer c)
  | .createTemp, .works _, s =>
    match s.temp with
    | some file => ({ s with temp := some { file with text := .empty } }, .ok file.handle)
    | none => ({ s with temp := some ⟨s.handles, .empty⟩, handles := s.handles + 1 }, .ok s.handles)
  | .createTemp, .fails _, s => (s, .error .other)
  | .writeTemp handle journal, .works n, s => (s.rewrite handle (overwrite journal n), .ok ())
  | .writeTemp _ _, .fails 0, s => (s, .error .other)
  | .writeTemp handle _, .fails (_ + 1), s => (s.rewrite handle (fun _ ↦ .torn), .error .other)
  | .syncTemp _, c, s => (s, answer c)
  | .renameTemp, .works _, s =>
    match s.temp with
    | some file => ({ s with journal := some file, temp := none }, .ok ())
    | none => (s, .error .notFound)
  | .renameTemp, .fails _, s => (s, .error .other)
  | .progExists pin, _, s => (s, (s.progs pin).isSome)
  | .linkExists pin, _, s => (s, (s.links pin).isSome)
  | .mapExists pin, _, s => (s, (s.maps pin).isSome)
  | .openProg pin, .works _, s => (s, found (s.progs pin))
  | .openProg _, .fails _, s => (s, .error .other)
  | .pinProg pin q, .works _, s =>
    match s.progs pin with
    | none => (s.setProg pin (some q), .ok ())
    | some _ => (s, .error .other)
  | .pinProg _ _, .fails _, s => (s, .error .other)
  | .removeProg pin, .works _, s =>
    match s.progs pin with
    | some _ => (s.setProg pin none, .ok ())
    | none => (s, .error .notFound)
  | .removeProg _, .fails _, s => (s, .error .other)
  | .renameProg source target, .works _, s =>
    match s.progs source with
    | some q => ((s.setProg source none).setProg target (some q), .ok ())
    | none => (s, .error .notFound)
  | .renameProg _ _, .fails _, s => (s, .error .other)
  | .openLink pin, .works _, s => (s, found ((s.links pin).map (fun _ ↦ ())))
  | .openLink _, .fails _, s => (s, .error .other)
  | .updateLink pin q, .works _, s =>
    match s.links pin with
    | some ⟨_, true⟩ => (s.setLink pin (some ⟨q, true⟩), .ok ())
    | _ => (s, .error .other)
  | .updateLink _ _, .fails _, s => (s, .error .other)
  | .openNetns, c, s => (s, answer c)
  | .attachNetns _, c, s => (s, answer c)
  | .pinLink pin q, .works _, s =>
    match s.links pin with
    | none => (s.setLink pin (some ⟨q, true⟩), .ok ())
    | some _ => (s, .error .other)
  | .pinLink _ _, .fails _, s => (s, .error .other)
  | .detachLink pin, .works _, s =>
    match s.links pin with
    | some l => (s.setLink pin (some { l with attached := false }), .ok ())
    | none => (s, .error .notFound)
  | .detachLink _, .fails _, s => (s, .error .other)
  | .unpinLink pin, .works _, s =>
    match s.links pin with
    | some _ => (s.setLink pin none, .ok ())
    | none => (s, .error .notFound)
  | .unpinLink _, .fails _, s => (s, .error .other)
  | .removeLink pin, .works _, s =>
    match s.links pin with
    | some _ => (s.setLink pin none, .ok ())
    | none => (s, .error .notFound)
  | .removeLink _, .fails _, s => (s, .error .other)
  | .openMap pin, .works _, s => (s, found (s.maps pin))
  | .openMap _, .fails _, s => (s, .error .other)
  | .pinMap pin m, .works _, s =>
    match s.maps pin with
    | none => (s.setMap pin (some m), .ok ())
    | some _ => (s, .error .other)
  | .pinMap _ _, .fails _, s => (s, .error .other)
  | .removeMap pin, .works _, s =>
    match s.maps pin with
    | some _ => (s.setMap pin none, .ok ())
    | none => (s, .error .notFound)
  | .removeMap _, .fails _, s => (s, .error .other)
  | .createPinDir, c, s => (s, answer c)
  | .removePinDir, c, s => (s, answer c)
  | .objectExists path, _, s => (s, (s.objects path).isSome)
  | .openObject path, .works _, s => (s, found (s.objects path))
  | .openObject _, .fails _, s => (s, .error .other)
  | .openSkeleton, c, s => (s, answer c)
  | .loadObject openPorts redirSocket, .works _, s =>
    let new (i : Nat) : Bool := (openPorts.isNone && i == s.created) ||
      (redirSocket.isNone && i == s.created + 1)
    let q : Program := ⟨s.nextProgram, openPorts.getD (newOpenPorts s.created),
      redirSocket.getD (newRedirSocket (s.created + 1))⟩
    ({ s with
        entries := fun i ↦ if new i then fun _ ↦ none else s.entries i
        loads := q.id + 1
        created := s.created + 2 }, .ok q)
  | .loadObject _ _, .fails _, s => (s, .error .other)
  | .sleep _, _, s => (s, ())

/-- The machine. -/
abbrev machine : Machine sig := ⟨Plane, Choice, exec⟩

/-- A fallible part of the loader. -/
abbrev Task (α : Type) : Type := Code sig Error α

/-- Issue a command and take its answer. -/
abbrev ask (o : Op) : Task o.Res := @Code.ask sig Error o

/-- Issue a command and judge its answer. -/
abbrev attempt {α : Type} (o : Op) (f : o.Res → Result α) : Task α := @Code.attempt sig α Error o f

end SkLookup.Upgrade
