import SkLookup.Base.Ports
import SkLookup.Codec.PathText

/-!
# Command-line flags

Go-style flags as `src/rust/loader/src/cli.rs` reads them, and the values the `ctl` commands
take from them.
-/

namespace SkLookup

open Codec

/-- `ParsedFlags`, `src/rust/loader/src/cli.rs:114`. The set `present` of the source holds the
names that have a value here. -/
structure ParsedFlags where
  values : Std.ExtTreeMap Text Text
  args : List Text

namespace ParsedFlags

/-- No flags. -/
def empty : ParsedFlags := ⟨∅, []⟩

/-- `get`. -/
def get (flags : ParsedFlags) (name : String) : Option Text := flags.values[name.toList]?

/-- `bool_flag`, `src/rust/loader/src/cli.rs:129`. -/
def boolFlag (flags : ParsedFlags) (name : String) : Bool :=
  match flags.get name with
  | none => false
  | some v => v ≠ "false".toList ∧ v ≠ "0".toList

/-- A later value replaces an earlier one. -/
def set (flags : ParsedFlags) (name value : Text) : ParsedFlags :=
  { flags with values := flags.values.insert name value }

/-- No flag is set at first. -/
@[simp] theorem get_empty (name : String) : empty.get name = none := by simp [get, empty]

/-- Setting a flag sets it and no other. -/
@[simp] theorem get_set (flags : ParsedFlags) (name value : Text) (n : String) :
    (flags.set name value).get n = if n.toList = name then some value else flags.get n := by
  unfold get set
  rw [Std.ExtTreeMap.getElem?_insert]
  simp only [Std.compare_eq_iff_eq, @eq_comm _ name]

end ParsedFlags

/-- `split_flag`, `src/rust/loader/src/cli.rs:197`. -/
def splitFlag (a : Text) : Result (Text × Option Text) :=
  match (stripPrefix "--".toList a).or (stripPrefix "-".toList a) with
  | none => bail s!"not a flag: {shown a}"
  | some rest =>
    if rest = [] then bail "empty flag" else
      match splitOnce '=' rest with
      | some (n, v) => .ok (n, some v)
      | none => .ok (rest, none)

/-- The argument loop, `src/rust/loader/src/cli.rs:149`; a flag without an inline value takes the
next argument. -/
def parseLoop (boolFlags valueFlags : List String) :
    List Text → ParsedFlags → Result ParsedFlags
  | [], out => .ok out
  | a :: rest, out =>
    if a = "--".toList then .ok { out with args := out.args ++ rest }
    else if a = "-".toList ∨ a.head? ≠ some '-' then .ok { out with args := out.args ++ a :: rest }
    else
      match splitFlag a with
      | .error err => .error err
      | .ok (name, inline) =>
        if name = "h".toList ∨ name = "help".toList then
          parseLoop boolFlags valueFlags rest (out.set "help".toList "true".toList)
        else if name ∈ boolFlags.map String.toList then
          parseLoop boolFlags valueFlags rest (out.set name (inline.getD "true".toList))
        else if name ∈ valueFlags.map String.toList then
          match inline, rest with
          | some v, rest => parseLoop boolFlags valueFlags rest (out.set name v)
          | none, v :: rest => parseLoop boolFlags valueFlags rest (out.set name v)
          | none, [] => bail s!"flag needs an argument: -{shown name}"
        else bail s!"flag provided but not defined: -{shown name}"

/-- `parse_go_flags`, `src/rust/loader/src/cli.rs:140`. -/
def parseGoFlags (argv : List Text) (boolFlags valueFlags : List String) : Result ParsedFlags :=
  parseLoop boolFlags valueFlags argv .empty

/-- `DEFAULT_PIN_DIR`, `src/rust/loader/src/pin.rs:11`. -/
def defaultPinDir : Path := "/sys/fs/bpf/waf-sklookup".toList

/-- `DEFAULT_FREEZE_FILE`, `src/rust/loader/src/freeze.rs:8`. -/
def defaultFreezeFile : Path := "/run/waf-sklookup/frozen".toList

/-- `DEFAULT_METRICS_FILE`, `src/rust/loader/src/metrics.rs:6`. -/
def defaultMetricsFile : Path := "/run/waf-sklookup/apply_fail_total".toList

/-- `DEFAULT_APPLY_STAMP`, `src/rust/loader/src/metrics.rs:7`. -/
def defaultApplyStamp : Path := "/run/waf-sklookup/last-apply-central".toList

/-- The nginx configuration that commands without a flag look at. -/
def defaultNginxConf : Path := "openresty/nginx.conf".toList

namespace ParsedFlags

variable (flags : ParsedFlags)

/-- `pin_dir_of`, `src/rust/loader/src/ctl.rs:376`. -/
def pinDir : Path := (flags.get "pin-dir").getD defaultPinDir

/-- `ports_file_of`, `src/rust/loader/src/ctl.rs:380`. -/
def portsFile : Path := (flags.get "ports-file").getD "ports.conf".toList

/-- `freeze_file_of`, `src/rust/loader/src/ctl.rs:388`. -/
def freezeFile : Path := (flags.get "freeze-file").getD defaultFreezeFile

/-- `nginx_conf_of`, `src/rust/loader/src/ctl.rs:392`. -/
def nginxConf : Path := (flags.get "nginx-conf").getD defaultNginxConf

/-- `metrics_file_of`, `src/rust/loader/src/ctl.rs:396`. -/
def metricsFile : Path := (flags.get "metrics-file").getD defaultMetricsFile

/-- `apply_stamp_of`, `src/rust/loader/src/ctl.rs:350`. -/
def applyStamp : Path := (flags.get "apply-stamp").getD defaultApplyStamp

/-- `maybe_help`, `src/rust/loader/src/ctl.rs:433`. -/
def help : Bool := flags.boolFlag "help"

end ParsedFlags

/-- `parse_batch`, `src/rust/loader/src/ctl.rs:675`. -/
def parseBatch : Option Text → Result Nat
  | none => .ok defaultBulkBatch
  | some s =>
    match parseUnsigned (2 ^ 64) s with
    | some n => .ok n
    | none => bail "bad -batch"

end SkLookup
