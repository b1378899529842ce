import SkLookup.Ctl.Central

/-!
# The commands that mutate

The commands of `src/rust/loader/src/ctl.rs` that `run_ctl` counts as mutations: opening,
closing, filling, importing, freezing. Lines printed for the operator are left out.
-/

namespace SkLookup

open Codec Effect

/-- `flag_value`, `src/rust/loader/src/ctl.rs:108`. -/
def flagValue (name : String) : List Text → Option Text
  | [] => none
  | arg :: rest =>
    let flag := '-' :: name.toList
    match (stripPrefix ('-' :: flag ++ ['=']) arg).or (stripPrefix (flag ++ ['=']) arg) with
    | some v => some v
    | none => if arg = flag ∨ arg = '-' :: flag then rest.head? else flagValue name rest

/-- `enforce_ladder`, `src/rust/loader/src/ctl.rs:361`. -/
def enforceLadder (host : Host) (ports : List Port) (explicit : Bool) : Result Unit :=
  if ports.length > 10000 ∧ explicit = false ∧ host.env "M3_FULL_LADDER" ≠ some "1".toList then
    bail (s!"{ports.length} ports in one operation is disabled; " ++
      "set M3_FULL_LADDER=1 or use -full-ladder")
  else .ok ()

/-- `ctl_slot`, `src/rust/loader/src/ctl.rs:368`. -/
def ctlSlot (tls : Bool) : Slot := if tls then redirTls else redirPrimary

/-- `binding_from_flags`, `src/rust/loader/src/ctl.rs:424`. -/
def bindingFromFlags (flags : ParsedFlags) : Result PortBinding :=
  let tenant := (flags.get "tenant").getD []
  let site := (flags.get "site").getD []
  if tenant = [] ∨ site = [] then
    bail "open/add requires -tenant and -site (binding is mandatory; see docs/binding.md)"
  else .ok ⟨ctlSlot (flags.boolFlag "tls"), tenant, site, flags.get "cert", flags.get "policy"⟩

/-- The `-range` part of `collect_bulk_ports`; `src/rust/loader/src/ports.rs:196-198`. -/
def rangePorts (rangeSpec : Option Text) : Result (List Port) :=
  match rangeSpec.filter (· ≠ []) with
  | some spec => parsePortRange spec
  | none => .ok []

/-- The `-file` part of `collect_bulk_ports`; `src/rust/loader/src/ports.rs:199-203`. -/
def filePorts (filePath : Option Text) : Task (List Port) :=
  match filePath.filter (· ≠ []) with
  | some path => do
    let text ← attempt (.readFile .list path) (orFail s!"open {shown path}")
    Code.ofExcept (withContext s!"read {shown path}" (loadPortsFromReader text))
  | none => pure []

/-- The positional part of `collect_bulk_ports`; `src/rust/loader/src/ports.rs:208-210`. -/
def extraPorts : List Text → Result (List Port)
  | [] => .ok []
  | a :: rest => do
    let ports ← parsePortListFlexible a
    let more ← extraPorts rest
    .ok (ports ++ more)

/-- The list that was collected; `src/rust/loader/src/ports.rs:211-221`. -/
def boundedPorts (ports : List Port) : Result (List Port) :=
  if ports = [] then bail "bulk needs -range, -file, -stdin, and/or positional ports"
  else if ports.length > openPortsMaxEntries then
    bail s!"bulk list has {ports.length} ports; open_ports max_entries is {openPortsMaxEntries}"
  else .ok ports

/-- `collect_bulk_ports`, `src/rust/loader/src/ports.rs:189`. -/
def collectBulkPorts (host : Host) (rangeSpec filePath : Option Text) (fromStdin : Bool)
    (extra : List Text) : Task (List Port) := do
  let range ← Code.ofExcept (rangePorts rangeSpec)
  let file ← filePorts filePath
  let stdin ← Code.ofExcept
    (if fromStdin then withContext "stdin" (loadPortsFromReader host.stdin) else .ok [])
  let more ← Code.ofExcept (extraPorts extra)
  Code.ofExcept (boundedPorts (uniquePorts (range ++ file ++ stdin ++ more)))

/-- `collect_from_flags`, `src/rust/loader/src/ctl.rs:682`. -/
def collectFromFlags (host : Host) (flags : ParsedFlags) : Task (List Port) :=
  collectBulkPorts host (flags.get "range") (flags.get "file") (flags.boolFlag "stdin") flags.args

/-- `ctl_add` and `ctl_remove` name their own sources when none was given;
`src/rust/loader/src/ctl.rs:447-459`. -/
def collectNamed (host : Host) (flags : ParsedFlags) (text : String) : Task (List Port) :=
  Code.mapError
    (fun err ↦
      if (flags.get "range").getD [] = [] ∧ (flags.get "file").getD [] = [] ∧
          flags.boolFlag "stdin" = false ∧ flags.args = [] then .message text else err)
    (collectFromFlags host flags)

/-- What `ctl_add`, `ctl_bulk_add` and `ctl_bulk_fill` end with: the binding, the freeze check
and the addition. -/
def addFromFlags (host : Host) (flags : ParsedFlags) (op : String) (ports : List Port)
    (batch : Nat) (progress : Bool) : Task Unit := do
  let binding ← Code.ofExcept (bindingFromFlags flags)
  rejectIfFrozen flags.freezeFile op binding.tenant binding.site (formatPorts ports)
  applyAdd host
    { pinDir := flags.pinDir, portsFile := flags.portsFile, policyFile := flags.policyFile,
      ports, binding, batch, progress, syncFile := !flags.boolFlag "no-file",
      nginxConf := flags.nginxConf, metricsFile := flags.metricsFile }

/-- What `ctl_remove` and `ctl_bulk_remove` end with. -/
def removeFromFlags (host : Host) (flags : ParsedFlags) (ports : List Port) (batch : Nat)
    (progress : Bool) : Task Unit :=
  applyRemove host
    { pinDir := flags.pinDir, portsFile := flags.portsFile, policyFile := flags.policyFile,
      ports, batch, progress, syncFile := !flags.boolFlag "no-file" }

/-- The flags `ctl_add` knows; `src/rust/loader/src/ctl.rs:437`. -/
def addFlags (args : List Text) : Result ParsedFlags :=
  parseGoFlags args ["tls", "stdin", "help", "no-file", "full-ladder"]
    ["pin-dir", "ports-file", "policy-file", "freeze-file", "range", "file", "tenant", "site",
      "cert", "policy", "nginx-conf", "metrics-file"]

/-- `ctl_add`, `src/rust/loader/src/ctl.rs:437`. -/
def ctlAdd (host : Host) (args : List Text) : Task Unit :=
  withFlags (addFlags args)
    (fun flags ↦ do
      let ports ← collectNamed host flags
        "open/add needs PORT, START-END, -range, -file, or -stdin"
      Code.ofExcept (enforceLadder host ports (flags.boolFlag "full-ladder"))
      addFromFlags host flags "add/open" ports defaultBulkBatch true)

/-- The flags `ctl_remove` knows; `src/rust/loader/src/ctl.rs:478`. -/
def removeFlags (args : List Text) : Result ParsedFlags :=
  parseGoFlags args ["stdin", "help", "no-file", "full-ladder"]
    ["pin-dir", "ports-file", "policy-file", "range", "file"]

/-- `ctl_remove`, `src/rust/loader/src/ctl.rs:478`. -/
def ctlRemove (host : Host) (args : List Text) : Task Unit :=
  withFlags (removeFlags args)
    (fun flags ↦ do
      let ports ← collectNamed host flags
        "close/remove needs PORT, START-END, -range, -file, or -stdin"
      Code.ofExcept (enforceLadder host ports (flags.boolFlag "full-ladder"))
      removeFromFlags host flags ports defaultBulkBatch true)

/-- The flags `ctl_bulk_add` knows; `src/rust/loader/src/ctl.rs:569`. -/
def bulkAddFlags (args : List Text) : Result ParsedFlags :=
  parseGoFlags args ["tls", "stdin", "quiet", "help", "no-file", "full-ladder"]
    ["pin-dir", "ports-file", "policy-file", "freeze-file", "range", "file", "batch", "tenant",
      "site", "cert", "policy", "nginx-conf", "metrics-file"]

/-- `ctl_bulk_add`, `src/rust/loader/src/ctl.rs:569`. -/
def ctlBulkAdd (host : Host) (args : List Text) : Task Unit :=
  withFlags (bulkAddFlags args)
    (fun flags ↦ do
      let ports ← collectFromFlags host flags
      Code.ofExcept (enforceLadder host ports (flags.boolFlag "full-ladder"))
      let batch ← Code.ofExcept (parseBatch (flags.get "batch"))
      addFromFlags host flags "bulk open/add" ports batch (!flags.boolFlag "quiet"))

/-- The flags `ctl_bulk_remove` knows; `src/rust/loader/src/ctl.rs:599`. -/
def bulkRemoveFlags (args : List Text) : Result ParsedFlags :=
  parseGoFlags args ["stdin", "quiet", "help", "no-file", "full-ladder"]
    ["pin-dir", "ports-file", "policy-file", "freeze-file", "range", "file", "batch"]

/-- The body of `ctl_bulk_remove`, `src/rust/loader/src/ctl.rs:609-622`. -/
def bulkRemoveWith (host : Host) (flags : ParsedFlags) : Task Unit := do
  let ports ← collectFromFlags host flags
  rejectIfFrozen flags.freezeFile "bulk close/remove" [] [] (formatPorts ports)
  Code.ofExcept (enforceLadder host ports (flags.boolFlag "full-ladder"))
  let batch ← Code.ofExcept (parseBatch (flags.get "batch"))
  removeFromFlags host flags ports batch (!flags.boolFlag "quiet")

/-- `ctl_bulk_remove`, `src/rust/loader/src/ctl.rs:599`. -/
def ctlBulkRemove (host : Host) (args : List Text) : Task Unit :=
  withFlags (bulkRemoveFlags args) (bulkRemoveWith host)

/-- The start of a fill; `src/rust/loader/src/ctl.rs:635-642`. -/
def fillStart (raw : Option Text) : Result Port :=
  let start := (parseUnsigned (2 ^ 64) (raw.getD "5000".toList)).getD (2 ^ 64 - 1)
  if start > 65535 then bail s!"fill -start {start} out of range" else .ok (UInt16.ofNat start)

/-- The count of a fill; `src/rust/loader/src/ctl.rs:643-647`. -/
def fillCount (raw : Option Text) : Result Nat :=
  match parseUnsigned (2 ^ 64) (raw.getD "0".toList) with
  | some n => .ok n
  | none => bail "fill -count"

/-- The ports of a fill; `src/rust/loader/src/ctl.rs:635-650`. -/
def fillPorts (flags : ParsedFlags) : Result (List Port) := do
  let start ← fillStart (flags.get "start")
  let count ← fillCount (flags.get "count")
  let skip ← parseSkipSet ((flags.get "skip").getD "8080,8443".toList)
  generateFillPorts start count skip

/-- The flags `ctl_bulk_fill` knows; `src/rust/loader/src/ctl.rs:625`. -/
def bulkFillFlags (args : List Text) : Result ParsedFlags :=
  parseGoFlags args ["tls", "quiet", "help", "no-file", "full-ladder"]
    ["pin-dir", "ports-file", "policy-file", "freeze-file", "count", "start", "skip", "batch",
      "tenant", "site", "cert", "policy", "nginx-conf", "metrics-file"]

/-- `ctl_bulk_fill`, `src/rust/loader/src/ctl.rs:625`. -/
def ctlBulkFill (host : Host) (args : List Text) : Task Unit :=
  withFlags (bulkFillFlags args)
    (fun flags ↦ do
      let ports ← Code.ofExcept (fillPorts flags)
      Code.ofExcept (enforceLadder host ports (flags.boolFlag "full-ladder"))
      let batch ← Code.ofExcept (parseBatch (flags.get "batch"))
      addFromFlags host flags "bulk fill" ports batch (!flags.boolFlag "quiet"))

/-- `ctl_bulk`, `src/rust/loader/src/ctl.rs:557`. -/
def ctlBulk (host : Host) (args : List Text) : Task Unit :=
  match args with
  | [] => throw (.message "bulk needs open|add | close|remove | fill")
  | name :: rest =>
    if name = "add".toList ∨ name = "open".toList then ctlBulkAdd host rest
    else if name = "remove".toList ∨ name = "close".toList then ctlBulkRemove host rest
    else if name = "fill".toList then ctlBulkFill host rest
    else throw (.message (s!"unknown bulk command {quoted name} " ++
      "(want open/add, close/remove, fill)"))

/-- `import_binding`, `src/rust/loader/src/ctl.rs:207`. -/
def importBinding (host : Host) (flags : ParsedFlags) : Result PortBinding :=
  let tenant := ((flags.get "tenant").or (host.env "TENANT")).getD []
  let site := ((flags.get "site").or (host.env "SITE")).getD []
  if tenant = [] ∨ site = [] then
    bail ("import-listen requires -tenant and -site (or TENANT/SITE env); " ++
      "unbound lines are never written")
  else .ok ⟨ctlSlot (flags.boolFlag "tls"), tenant, site, flags.get "cert", flags.get "policy"⟩

/-- The ports that are not imported; `src/rust/loader/src/ctl.rs:223-227`. -/
def importSkip (flags : ParsedFlags) : Result PortSet :=
  match flags.get "skip" with
  | some raw => do
    let ports ← parsePortListFlexible raw
    .ok (Std.ExtTreeSet.ofList ports)
  | none => .ok Nginx.innerRealPorts

/-- The document that an import leaves on request; `src/rust/loader/src/ctl.rs:242`. -/
def writeCentralOut (host : Host) (path : Option Path) (desired : DesiredPorts) : Task Unit :=
  match path with
  | some path => writeCentral host path desired
  | none => pure ()

/-- What an import does after its freeze check; `src/rust/loader/src/ctl.rs:232-242`. -/
def importPorts (host : Host) (flags : ParsedFlags) (binding : PortBinding) (policy : Policy)
    (ports : List Port) : Task Unit :=
  if flags.boolFlag "dry-run" then pure () else do
    let desired ← desiredOrEmpty flags.portsFile flags.policyFile
    Code.ofExcept (Policy.validate (insertAll desired binding ports) policy)
    if ports = [] then pure () else do
      writeDesired host flags.portsFile (insertAll desired binding ports)
      writeCentralOut host (flags.get "central-out") (insertAll desired binding ports)

/-- The flags `ctl_import_listens` knows; `src/rust/loader/src/ctl.rs:216`. -/
def importFlags (args : List Text) : Result ParsedFlags :=
  parseGoFlags args ["tls", "dry-run", "from-nginx", "help"]
    ["nginx-conf", "from", "tenant", "site", "cert", "policy", "ports-file", "policy-file",
      "freeze-file", "central-out", "metrics-file", "skip", "pin-dir"]

/-- `ctl_import_listens`, `src/rust/loader/src/ctl.rs:216`. -/
def ctlImportListens (host : Host) (args : List Text) : Task Unit :=
  withFlags (importFlags args)
    (fun flags ↦ do
      let binding ← Code.ofExcept (importBinding host flags)
      let policy ← loadPolicy flags.policyFile
      let extraSkip ← Code.ofExcept (importSkip flags)
      let tree : ConfTree ← ask .confTree
      let listens ← Code.ofExcept
        (Nginx.parseListenPortsFromConf tree ((flags.get "from").getD flags.nginxConf))
      let (ports, _) := Nginx.importablePorts policy extraSkip listens
      rejectIfFrozen flags.freezeFile "import-listen" binding.tenant binding.site
        (formatPorts ports)
      importPorts host flags binding policy ports)

/-- The ports a retirement looks for; `src/rust/loader/src/ctl.rs:288-294`. -/
def retirePorts (tree : ConfTree) (flags : ParsedFlags) : Result (List Port) :=
  if flags.args = [] then do
    let ports ← Nginx.parseListenPortsFromConf tree flags.nginxConf
    .ok (ports.filter (fun p ↦ !Nginx.innerRealPorts.contains p))
  else extraPorts flags.args

/-- `ctl_retire_conf_listen`, `src/rust/loader/src/ctl.rs:281`: the lines found are printed. -/
def ctlRetireConfListen (args : List Text) : Task Unit :=
  withFlags
    (parseGoFlags args ["help", "drop-listen", "from-nginx", "apply", "dry-run", "tls"]
      ["nginx-conf", "from", "tenant", "site", "cert", "policy", "ports-file", "policy-file",
        "freeze-file", "central-out", "metrics-file", "skip"])
    (fun flags ↦
      if flags.boolFlag "apply" then
        throw (.message ("retire-conf-listen --apply is not implemented; " ++
          "conf rewrite is dry-run-only"))
      else do
        let tree : ConfTree ← ask .confTree
        let _ ← Code.ofExcept (retirePorts tree flags)
        let _ ← Code.ofExcept (Nginx.readExpandedFiles tree flags.nginxConf)
        pure ())

/-- `ctl_migrate`, `src/rust/loader/src/ctl.rs:247`. -/
def ctlMigrate (host : Host) (args : List Text) : Task Unit :=
  withFlags
    (parseGoFlags args ["from-nginx", "drop-listen", "apply", "tls", "dry-run", "help"]
      ["nginx-conf", "from", "tenant", "site", "cert", "policy", "ports-file", "policy-file",
        "freeze-file", "central-out", "metrics-file", "skip"])
    (fun flags ↦
      if flags.boolFlag "drop-listen" then
        if flags.boolFlag "apply" then
          throw (.message ("migrate --drop-listen --apply is not implemented; " ++
            "conf rewrite is dry-run-only"))
        else ctlRetireConfListen args
      else if flags.boolFlag "from-nginx" ∨ (flags.get "from").isSome then
        ctlImportListens host args
      else throw (.message "migrate needs --from-nginx or --drop-listen"))

/-- The body of `ctl_close_all`, `src/rust/loader/src/ctl.rs:936-941`. -/
def closeAllWith (host : Host) (flags : ParsedFlags) : Task Unit := do
  loadPinnedOpenPorts flags.pinDir
  let current ← readMap host
  let batch ← Code.ofExcept (parseBatch (flags.get "batch"))
  let _ ← bulkDeletePorts host current.keys batch (!flags.boolFlag "quiet")
  pure ()

/-- The flags `ctl_close_all` knows; `src/rust/loader/src/ctl.rs:934`. -/
def closeAllFlags (args : List Text) : Result ParsedFlags :=
  parseGoFlags args ["quiet", "help"] ["pin-dir", "batch"]

/-- `ctl_close_all`, `src/rust/loader/src/ctl.rs:933`. -/
def ctlCloseAll (host : Host) (args : List Text) : Task Unit :=
  withFlags (closeAllFlags args) (closeAllWith host)

/-- `set_frozen`, `src/rust/loader/src/freeze.rs:12`. -/
def setFrozen (path : Path) : Task Unit := do
  attempt (.createDirAll (directoryOf path)) (orFail "create freeze directory")
  attempt (.writeFile .freeze path []) (orFail s!"set freeze state {shown path}")

/-- The arguments handed on to `ctl_close_all`; `src/rust/loader/src/ctl.rs:953-955`. -/
def closeAllArgs (flags : ParsedFlags) : List Text :=
  ["-pin-dir".toList, flags.pinDir] ++
  (if flags.boolFlag "quiet" then ["-quiet".toList] else []) ++
  (match flags.get "batch" with
    | some batch => ["-batch".toList, batch]
    | none => [])

/-- The emergency close of a freeze; `src/rust/loader/src/ctl.rs:953-959`. -/
def freezeCloseAll (host : Host) (flags : ParsedFlags) : Task Unit := do
  let result ← Code.outcome (ctlCloseAll host (closeAllArgs flags))
  let _ ← ask (.auditLine
    ⟨host.cred, "close-all".toList, [], [], formatPorts [], result.isOk⟩)
  Code.ofExcept result

/-- The flags `ctl_freeze` knows; `src/rust/loader/src/ctl.rs:947`. -/
def freezeFlags (args : List Text) : Result ParsedFlags :=
  parseGoFlags args ["close-all", "help", "quiet"] ["freeze-file", "pin-dir", "batch"]

/-- `ctl_freeze`, `src/rust/loader/src/ctl.rs:946`. -/
def ctlFreeze (host : Host) (args : List Text) : Task Unit :=
  withFlags (freezeFlags args)
    (fun flags ↦ do
      setFrozen flags.freezeFile
      if flags.boolFlag "close-all" then freezeCloseAll host flags else pure ())

/-- `clear_frozen`, `src/rust/loader/src/freeze.rs:20`. -/
def clearFrozen (path : Path) : Task Unit := do
  let answer : Except IoError Unit ← ask (.removeFile .freeze path)
  match answer with
  | .ok () => pure ()
  | .error .notFound => pure ()
  | .error .other => throw (.context s!"clear freeze state {shown path}" IoError.other.toError)

/-- The flags `ctl_unfreeze` knows; `src/rust/loader/src/ctl.rs:965`. -/
def unfreezeFlags (args : List Text) : Result ParsedFlags :=
  parseGoFlags args ["help"] ["freeze-file"]

/-- `ctl_unfreeze`, `src/rust/loader/src/ctl.rs:964`. -/
def ctlUnfreeze (args : List Text) : Task Unit :=
  withFlags (unfreezeFlags args) (fun flags ↦ clearFrozen flags.freezeFile)

/-- The commands that `run_ctl` counts as mutations; `src/rust/loader/src/ctl.rs:60`. -/
inductive Mutation where
  | add
  | remove
  | loadPorts
  | closePorts
  | bulk
  | fill
  | reconcile
  | apply
  | applyCentral
  | freeze
  | unfreeze
  | closeAll
  | importListens
  | migrate
  deriving DecidableEq, Repr

/-- The match of `run_ctl` on a mutation; `src/rust/loader/src/ctl.rs:66-97`. -/
def Mutation.command (host : Host) (m : Mutation) (args : List Text) : Task Unit :=
  match m with
  | .add => ctlAdd host args.tail
  | .remove => ctlRemove host args.tail
  | .loadPorts => ctlBulkAdd host args.tail
  | .closePorts => ctlBulkRemove host args.tail
  | .bulk => ctlBulk host args.tail
  | .fill => ctlBulkFill host args.tail
  | .reconcile => ctlReconcile host args.tail
  | .apply =>
    if (flagValue "from-central" args).isSome then ctlApplyCentral host args.tail
    else ctlReconcile host args.tail
  | .applyCentral => ctlApplyCentral host args.tail
  | .freeze => ctlFreeze host args.tail
  | .unfreeze => ctlUnfreeze args.tail
  | .closeAll => ctlCloseAll host args.tail
  | .importListens => ctlImportListens host args.tail
  | .migrate => ctlMigrate host args.tail

/-- `run_ctl` on a mutation, `src/rust/loader/src/ctl.rs:60`: the command and its audit line. -/
def runMutation (host : Host) (m : Mutation) (args : List Text) : Task Unit := do
  let result ← Code.outcome (m.command host args)
  let detail := if args.length > 1 then List.intercalate [','] args.tail else "none".toList
  let _ ← ask (.auditLine
    ⟨host.cred, args.headD [], (flagValue "tenant" args).getD [], (flagValue "site" args).getD [],
      detail, result.isOk⟩)
  Code.ofExcept result

end SkLookup
