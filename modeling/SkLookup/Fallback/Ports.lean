import SkLookup.Codec.Shell
import SkLookup.Desired.Union

/-!
# The ports of the last-resort set

`collect_ports` of `src/scripts/nft-dnat-fallback.sh` reads the desired file on its own. Where the
numerals of a file are plain and its words stand between blanks, it prints the ports that the loader
binds, other than the reserved ones.
-/

namespace SkLookup.Fallback

open Codec

/-- What the script goes by: its settings, and the expansion of path names in its directory. -/
structure Script where
  portsFile : Text
  portsOverride : Text
  includeRealSkip : Text
  targetPort : Text
  skipTls : Bool
  expand : Text → List Text

/-- `RESERVED_PORTS`, `src/scripts/nft-dnat-fallback.sh:31`. -/
def reservedPorts : List Text := ["80".toList, "443".toList]

/-- `INNER_REAL_PORTS`, `src/scripts/nft-dnat-fallback.sh:32`. -/
def innerRealPorts : List Text := ["80".toList, "443".toList, "8080".toList, "8443".toList]

/-- `is_reserved_port`, `src/scripts/nft-dnat-fallback.sh:85`: texts are compared. -/
def isReservedPort (script : Script) (p : Text) : Bool :=
  reservedPorts.contains p ||
    (script.includeRealSkip == "1".toList && innerRealPorts.contains p) ||
    (!script.targetPort.isEmpty && p == script.targetPort)

/-- A token of a list that is not empty; `src/scripts/nft-dnat-fallback.sh:106-116`. -/
def expandToken (tok : Text) : Option (List Text) :=
  match splitOnce '-' tok with
  | some (a, b) =>
    if isDigits a && isDigits b then do
      let first ← arithmetic a
      let last ← arithmetic b
      if 1 ≤ first ∧ last ≤ 65535 ∧ first ≤ last then
        some ((List.range' first.toNat (last + 1 - first).toNat).map decimal)
      else none
    else none
  | none =>
    if isDigits tok then do
      let n ← arithmetic tok
      if 1 ≤ n ∧ n ≤ 65535 then some [tok] else none
    else none

/-- The token loop; `src/scripts/nft-dnat-fallback.sh:103`. -/
def expandTokens : List Text → Option (List Text)
  | [] => some []
  | tok :: rest =>
    let tok := tok.filter (fun c ↦ !isSpace c)
    if tok = [] then expandTokens rest else do
      let out ← expandToken tok
      let more ← expandTokens rest
      some (out ++ more)

/-- `expand_port_spec`, `src/scripts/nft-dnat-fallback.sh:99`: the lines that it prints. `read`
takes the first line of the spec. The function runs in a process of its own, which a bad token ends
before anything is printed, and `printf` prints one empty line for no port. -/
def expandPortSpec (spec : Text) : List Text :=
  match expandTokens ((before '\n' spec).splitOn ',') with
  | none => []
  | some out => if out = [] then [[]] else out

/-- A line as `read` takes it, without its comment and the spaces around it;
`src/scripts/nft-dnat-fallback.sh:130-133`. -/
def content (line : Text) : Text := trimSpace (before '#' (held line))

/-- The ports of one line of the file; `src/scripts/nft-dnat-fallback.sh:130-143`. -/
def lineSpecs (script : Script) (line : Text) : List Text :=
  let line := content line
  if line = [] then [] else
    let (spec, rest) := readTwo line
    if script.skipTls && ((splitWords rest).flatMap script.expand).contains "tls".toList then []
    else expandPortSpec spec

/-- The loop over the ports; `src/scripts/nft-dnat-fallback.sh:147-152`. -/
def collect (script : Script) : List Text → List Text → List Text
  | [], collected => collected
  | p :: rest, collected =>
    if isReservedPort script p || collected.contains p then collect script rest collected
    else collect script rest (collected ++ [p])

/-- `collect_ports`, `src/scripts/nft-dnat-fallback.sh:122`, with the text of the ports file if it
is there. -/
def collectPorts (script : Script) (file : Option Text) : Result (List Text) := do
  let raw : List Text ←
    if script.portsOverride ≠ [] then .ok (expandPortSpec script.portsOverride)
    else match file with
      | none => bail s!"ports file missing: {shown script.portsFile}"
      | some text => .ok ((readLines text).flatMap (lineSpecs script))
  let collected := collect script raw []
  if collected = [] then
    bail "no dynamic ports left after filtering 80/443/inner reals/target"
  else .ok collected

/-- The script on its defaults, without an override, for a target port. -/
def fromFile (target : Port) (skipTls : Bool) (expand : Text → List Text) : Script where
  portsFile := "ports.conf".toList
  portsOverride := []
  includeRealSkip := "1".toList
  targetPort := decimal target.toNat
  skipTls := skipTls
  expand := expand

/-- A port of the desired state that belongs in the set. -/
def Wanted (desired : DesiredPorts) (target : Port) (skipTls : Bool) (p : Port) : Prop :=
  ∃ b, desired[p]? = some b ∧ p ∉ [80, 443, 8080, 8443, target] ∧
    (skipTls = true → b.slot = redirPrimary)

/-- The numerals of the wanted ports are printed, each once, or nothing is where there is none. -/
def Prints (wanted : Port → Prop) : Result (List Text) → Prop
  | .ok out => out ≠ [] ∧ out.Nodup ∧ ∀ t, t ∈ out ↔ ∃ p, wanted p ∧ t = decimal p.toNat
  | .error _ => ∀ p, ¬wanted p

/-! ### Plain lines -/

/-- A numeral without a sign and leading zeros, or a range of two. -/
inductive PlainToken : Text → Prop
  | port (n : Nat) : PlainToken (decimal n)
  | range (a b : Nat) : PlainToken (decimal a ++ '-' :: decimal b)

/-- A line has plain numerals, at least one of them: `[[:space:]]` alone stands before its port
spec, and between that and the first blank behind it. -/
structure PlainSpec (line spec : Text) : Prop where
  placed : ∃ front gap b rest, before '#' line = front ++ (spec ++ (gap ++ b :: rest)) ∧
    (∀ c ∈ front, isSpace c = true) ∧ (∀ c ∈ gap, isSpace c = true) ∧ isBlank b = true
  word : ∀ c ∈ spec, isWhitespace c = false
  numerals : ∀ tok ∈ spec.splitOn ',', tok ≠ [] → PlainToken tok
  named : ∃ tok ∈ spec.splitOn ',', tok ≠ []

/-- A line is plain: where TLS ports are to be left out, the words that bash finds behind the port
spec expand to `tls` as the tokens say; and a line that counts has a plain port spec. -/
structure PlainLine (skipTls : Bool) (expand : Text → List Text) (line : Text) : Prop where
  tls : skipTls = true →
    ("tls".toList ∈ (splitWords (readTwo (content line)).2).flatMap expand ↔
      "tls".toList ∈ (words (stripComment line)).drop 3)
  plain : (skipTls = true → "tls".toList ∉ (words (stripComment line)).drop 3) →
    ∃ spec, PlainSpec line spec

/-- Every line that is not blank is plain. -/
def PlainFile (skipTls : Bool) (expand : Text → List Text) (text : Text) : Prop :=
  ∀ line ∈ lines text, stripComment line ≠ [] → PlainLine skipTls expand line

private theorem expandToken_port {n : Nat} (hpos : 1 ≤ n) (hle : n ≤ 65535) :
    expandToken (decimal n) = some [decimal n] := by
  have hsplit : splitOnce '-' (decimal n) = none := if_neg (hyphen_not_mem_decimal n)
  have hread := arithmetic_decimal (n := n) (by omega)
  have hbounds : 1 ≤ (n : Int) ∧ (n : Int) ≤ 65535 := by omega
  simp [expandToken, hsplit, isDigits_decimal, hread, hbounds]

private theorem expandToken_range {a b : Nat} (hpos : 1 ≤ a) (hle : b ≤ 65535) (hab : a ≤ b) :
    expandToken (decimal a ++ '-' :: decimal b) =
      some ((List.range' a (b + 1 - a)).map decimal) := by
  have hsplit : splitOnce '-' (decimal a ++ '-' :: decimal b) = some (decimal a, decimal b) :=
    splitOnce_eq_some.mpr ⟨rfl, hyphen_not_mem_decimal a⟩
  have hfirst := arithmetic_decimal (n := a) (by omega)
  have hlast := arithmetic_decimal (n := b) (by omega)
  have hbounds : 1 ≤ (a : Int) ∧ (b : Int) ≤ 65535 ∧ (a : Int) ≤ b := by omega
  have hcount : ((b : Int) + 1 - a).toNat = b + 1 - a := by omega
  simp [expandToken, hsplit, isDigits_decimal, hfirst, hlast, hbounds, hcount]

/-- A plain token that the loader accepts is expanded to the numerals of its ports. -/
private theorem expandToken_plain {tok : Text} {ports : List Port} (hplain : PlainToken tok)
    (h : parsePortToken tok = .ok ports) :
    expandToken tok = some (ports.map (fun p ↦ decimal p.toNat)) := by
  have hnumerals (ns : List Nat) (hns : ports.map UInt16.toNat = ns) :
      ports.map (fun p ↦ decimal p.toNat) = ns.map decimal := by
    rw [← hns, List.map_map]
    rfl
  cases hplain with
  | port n =>
    obtain ⟨hpos, hle, hports⟩ := parsePortToken_numeral h
    rw [expandToken_port hpos hle, hnumerals _ hports]
    rfl
  | range a b =>
    obtain ⟨hpos, hle, hab, hports⟩ := parsePortToken_range h
    rw [expandToken_range hpos hle hab, hnumerals _ hports]

private theorem filter_plain {tok : Text} (h : PlainToken tok) :
    tok.filter (fun c ↦ !isSpace c) = tok := by
  have hdigit {n : Nat} {c : Char} (hc : c ∈ decimal n) : isSpace c = false :=
    isSpace_of_isDigit (isDigit_of_mem_decimal hc)
  apply List.filter_eq_self.mpr
  intro c hc
  rw [Bool.not_eq_true']
  cases h with
  | port n => exact hdigit hc
  | range a b =>
    rcases List.mem_append.mp hc with hc | hc
    · exact hdigit hc
    · rcases List.mem_cons.mp hc with rfl | hc
      · rfl
      · exact hdigit hc

private theorem ports_ne_nil {tok : Text} {ports : List Port} (hplain : PlainToken tok)
    (h : parsePortToken tok = .ok ports) : ports ≠ [] := by
  rintro rfl
  cases hplain with
  | port n => cases (parsePortToken_numeral h).2.2
  | range a b =>
    obtain ⟨-, -, hab, hports⟩ := parsePortToken_range h
    have hlength := congrArg List.length hports
    rw [List.length_range'] at hlength
    change 0 = b + 1 - a at hlength
    omega

private theorem expandTokens_plain {toks : List Text} {ports : List Port}
    (hplain : ∀ tok ∈ toks, tok ≠ [] → PlainToken tok)
    (h : parsePortListFlexible.go toks = .ok ports) :
    expandTokens toks = some (ports.map (fun p ↦ decimal p.toNat)) ∧
      ((∃ tok ∈ toks, tok ≠ []) → ports ≠ []) := by
  induction toks generalizing ports with
  | nil =>
    rw [← Except.ok.inj h]
    exact ⟨rfl, by simp⟩
  | cons tok toks ih =>
    obtain ⟨first, hfirst, h⟩ := bind_eq_ok.mp h
    obtain ⟨more, hmore, h⟩ := bind_eq_ok.mp h
    obtain ⟨hrest, hsome⟩ := ih (fun t ht ↦ hplain t (List.mem_cons_of_mem _ ht)) hmore
    rw [← Except.ok.inj h, List.map_append]
    by_cases htok : tok = []
    · subst htok
      obtain rfl : [] = first := Except.ok.inj hfirst
      exact ⟨hrest, fun hex ↦ hsome (by simpa using hex)⟩
    · have hp := hplain tok List.mem_cons_self htok
      rw [expandTokens, filter_plain hp, if_neg htok, expandToken_plain hp hfirst, hrest]
      exact ⟨rfl, fun _ ↦ List.append_ne_nil_of_left_ne_nil (ports_ne_nil hp hfirst) _⟩

/-- A plain list with a port is expanded to the numerals of its ports. -/
private theorem expandPortSpec_plain {spec : Text} {ports : List Port} (hline : '\n' ∉ spec)
    (hplain : ∀ tok ∈ spec.splitOn ',', tok ≠ [] → PlainToken tok)
    (hsome : ∃ tok ∈ spec.splitOn ',', tok ≠ [])
    (h : parsePortListFlexible spec = .ok ports) :
    expandPortSpec spec = ports.map (fun p ↦ decimal p.toNat) := by
  obtain ⟨hexpand, hne⟩ := expandTokens_plain hplain h
  have hne : ports.map (fun p ↦ decimal p.toNat) ≠ [] := by
    simpa using hne hsome
  rw [expandPortSpec, before_eq_self hline, hexpand]
  exact if_neg hne

private theorem expandTokens_filter (toks : List Text) :
    expandTokens (toks.map (List.filter fun c ↦ !isSpace c)) = expandTokens toks := by
  induction toks with
  | nil => rfl
  | cons tok toks ih =>
    simp only [List.map_cons, expandTokens, List.filter_filter, Bool.and_self, ih]

/-- The spaces behind a list are not read. -/
private theorem expandPortSpec_append {spec more : Text} (hspec : '\n' ∉ spec)
    (hmore : ∀ c ∈ more, isSpace c = true ∧ isBlank c = false) :
    expandPortSpec (spec ++ more) = expandPortSpec spec := by
  have hline : '\n' ∉ spec ++ more := by
    rw [List.mem_append, not_or]
    exact ⟨hspec, fun h ↦ absurd (hmore _ h).2 (by decide)⟩
  have hspaces : more.filter (fun c ↦ !isSpace c) = [] :=
    List.filter_eq_nil_iff.mpr fun c hc ↦ by simp [(hmore c hc).1]
  have htokens : expandTokens ((spec ++ more).splitOn ',') = expandTokens (spec.splitOn ',') := by
    rw [← expandTokens_filter, ← expandTokens_filter (spec.splitOn ','), ← splitOn_filter rfl,
      ← splitOn_filter rfl, List.filter_append, hspaces, List.append_nil]
  rw [expandPortSpec, expandPortSpec, before_eq_self hline, before_eq_self hspec, htokens]

/-! ### Lines -/

section Lines

variable {script : Script} {line t : Text}

/-- There is no NUL in a plain list. -/
private theorem held_plain {spec : Text}
    (hplain : ∀ tok ∈ spec.splitOn ',', tok ≠ [] → PlainToken tok) : held spec = spec := by
  have hdigit {n : Nat} {c : Char} (hc : c ∈ decimal n) : c.toNat ≠ 0 := by
    have hvalue := toNat_of_isDigit (isDigit_of_mem_decimal hc)
    omega
  have htoken {tok : Text} (h : PlainToken tok) : held tok = tok := by
    refine held_eq_self fun c hc ↦ ?_
    cases h with
    | port n => exact hdigit hc
    | range a b =>
      rcases List.mem_append.mp hc with hc | hc
      · exact hdigit hc
      · rcases List.mem_cons.mp hc with rfl | hc
        · decide
        · exact hdigit hc
  have hsplit : (held spec).splitOn ',' = spec.splitOn ',' := by
    rw [held, splitOn_filter rfl]
    refine (List.map_congr_left fun tok htok ↦ ?_).trans (List.map_id _)
    by_cases hne : tok = []
    · rw [hne]
      rfl
    · exact htoken (hplain tok htok hne)
  calc held spec = [','].intercalate ((held spec).splitOn ',') := (List.intercalate_splitOn _).symm
    _ = [','].intercalate (spec.splitOn ',') := by rw [hsplit]
    _ = spec := List.intercalate_splitOn _

private theorem PlainSpec.ne_nil {spec : Text} (h : PlainSpec line spec) : spec ≠ [] := by
  rintro rfl
  obtain ⟨tok, htok, hnamed⟩ := h.named
  rw [List.splitOn_nil, List.mem_singleton] at htok
  exact hnamed htok

/-- The port spec of a plain line is the first word of the loader. -/
private theorem PlainSpec.head {spec : Text} (h : PlainSpec line spec) :
    (words (stripComment line)).head? = some spec := by
  obtain ⟨front, gap, b, rest, hline, hfront, hgap, hb⟩ := h.placed
  -- White space surrounds the spec, also for the loader.
  have hbehind : ∀ c, (gap ++ b :: rest).head? = some c → isWhitespace c = true := by
    intro c hc
    cases gap with
    | nil => exact Option.some.inj hc ▸ isWhitespace_of_isBlank hb
    | cons d gap => exact Option.some.inj hc ▸ isWhitespace_of_isSpace (hgap d List.mem_cons_self)
  obtain ⟨init, c, rfl⟩ := List.eq_nil_or_concat' spec |>.resolve_left h.ne_nil
  have hstart : trimStart (front ++ init) = init := by
    rw [trimStart_blank (fun d hd ↦ isWhitespace_of_isSpace (hfront d hd))]
    exact trimStart_eq_self fun d hd ↦ h.word d (List.mem_append_left _ (List.mem_of_head? hd))
  have htrim : stripComment line = init ++ [c] ++ trimEnd (gap ++ b :: rest) := by
    have hc : isWhitespace c = false := h.word c (by simp)
    have hsplit : front ++ (init ++ [c] ++ (gap ++ b :: rest)) =
        front ++ init ++ c :: (gap ++ b :: rest) := by simp
    rw [stripComment, hline, hsplit, trim_append_cons hc, hstart]
    simp
  rw [htrim]
  refine head?_words_append h.ne_nil h.word fun d hd ↦ ?_
  obtain ⟨more, hmore⟩ := trimEnd_prefix (gap ++ b :: rest)
  refine hbehind d ?_
  rw [← hmore, List.head?_append, hd]
  rfl

/-- It is what the script expands. -/
private theorem PlainSpec.expands {spec : Text} (h : PlainSpec line spec) :
    content line ≠ [] ∧ expandPortSpec (readTwo (content line)).1 = expandPortSpec spec := by
  obtain ⟨front, gap, b, rest, hline, hfront, hgap, hb⟩ := h.placed
  have hspace : ∀ c ∈ spec, isSpace c = false := by
    intro c hc
    cases hs : isSpace c with
    | false => rfl
    | true => exact (isWhitespace_of_isSpace hs).symm.trans (h.word c hc)
  obtain ⟨more, hread, hmore⟩ := readTwo_trimSpace (held rest) hfront h.ne_nil hspace hgap hb
  have hspaces {t : Text} (ht : ∀ c ∈ t, isSpace c = true) : held t = t :=
    held_eq_self fun c hc ↦ toNat_ne_zero_of_isSpace (ht c hc)
  have hcontent : content line = trimSpace (front ++ (spec ++ (gap ++ b :: held rest))) := by
    have hblank : held (b :: rest) = b :: held rest :=
      List.filter_cons_of_pos (bne_iff_ne.mpr (toNat_ne_zero_of_isSpace (isSpace_of_isBlank hb)))
    have happend (t u : Text) : held (t ++ u) = held t ++ held u := List.filter_append ..
    rw [content, before_held (by decide), hline, happend, happend, happend, hspaces hfront,
      hspaces hgap, held_plain h.numerals, hblank]
  have hword : (readTwo (content line)).1 = spec ++ more := hcontent ▸ hread
  refine ⟨fun hempty ↦ ?_, ?_⟩
  · rw [hempty] at hword
    exact h.ne_nil (List.append_eq_nil_iff.mp hword.symm).1
  · rw [hword]
    exact expandPortSpec_append (fun hc ↦ absurd (h.word _ hc) (by decide)) hmore

/-- A line with content is left out for a word `tls`, or its port spec is expanded. -/
private theorem lineSpecs_of_content (h : content line ≠ []) : lineSpecs script line =
    if script.skipTls = true ∧
        "tls".toList ∈ (splitWords (readTwo (content line)).2).flatMap script.expand then []
    else expandPortSpec (readTwo (content line)).1 := by
  rw [lineSpecs, if_neg h]
  simp only [Bool.and_eq_true, List.contains_iff_mem]

/-- What the script reads in a line is what the loader does. -/
private theorem lineSpecs_plain (hwell : WellFormed line)
    (hplain : PlainLine script.skipTls script.expand line) :
    t ∈ lineSpecs script line ↔ ∃ e ∈ lineEntries line, t = decimal e.1.toNat ∧
      (script.skipTls = true → e.2.slot = redirPrimary) := by
  obtain ⟨spec, tenant, site, tokens, ports, hwords, hports, -⟩ := hwell
  have hentries : lineEntries line = ports.map (fun p ↦ (p, ⟨(lineTokens tokens).slot, tenant, site,
      (lineTokens tokens).cert, (lineTokens tokens).policy⟩)) := by
    simp only [lineEntries, hwords, hports]
  have htls := hplain.tls
  have hspecs := hplain.plain
  rw [hwords] at htls hspecs
  rw [hentries]
  by_cases hskip : script.skipTls = true ∧ "tls".toList ∈ tokens
  · -- The line is marked and left out.
    have hmark := (htls hskip.1).mpr hskip.2
    have hslot : (lineTokens tokens).slot = redirTls := if_pos hskip.2
    have hcontent : content line ≠ [] := by
      intro hempty
      rw [hempty] at hmark
      exact absurd hmark List.not_mem_nil
    rw [lineSpecs_of_content hcontent, if_pos ⟨hskip.1, hmark⟩]
    refine iff_of_false List.not_mem_nil ?_
    rintro ⟨e, he, -, hprimary⟩
    obtain ⟨p, -, rfl⟩ := List.mem_map.mp he
    exact absurd (hslot.symm.trans (hprimary hskip.1)) (by decide)
  · -- Its ports are all wanted.
    obtain ⟨first, hfirst⟩ := hspecs fun hs hmark ↦ hskip ⟨hs, hmark⟩
    obtain ⟨hcontent, hexpand⟩ := hfirst.expands
    obtain rfl : spec = first := by
      have hhead := hfirst.head
      rw [hwords] at hhead
      exact Option.some.inj hhead
    have hline : '\n' ∉ spec := fun hc ↦ absurd (hfirst.word _ hc) (by decide)
    have hnumerals := expandPortSpec_plain hline hfirst.numerals hfirst.named hports
    rw [lineSpecs_of_content hcontent, if_neg (fun h ↦ hskip ⟨h.1, (htls h.1).mp h.2⟩), hexpand,
      hnumerals]
    constructor
    · intro ht
      obtain ⟨p, hp, rfl⟩ := List.mem_map.mp ht
      refine ⟨_, List.mem_map.mpr ⟨p, hp, rfl⟩, rfl, fun hs ↦ ?_⟩
      exact if_neg (fun hmark ↦ hskip ⟨hs, hmark⟩)
    · rintro ⟨e, he, rfl, -⟩
      obtain ⟨p, hp, rfl⟩ := List.mem_map.mp he
      exact List.mem_map.mpr ⟨p, hp, rfl⟩

/-- A text without digits is no port. -/
private theorem expandTokens_letters {tok : Text} (hne : ∃ c ∈ tok, isSpace c = false)
    (hdigit : ∀ c ∈ tok, c.isDigit = false) : expandTokens [tok] = none := by
  obtain ⟨c, hc, hspace⟩ := hne
  have hc : c ∈ tok.filter (fun c ↦ !isSpace c) := List.mem_filter.mpr ⟨hc, by simp [hspace]⟩
  have hletters : ∀ c ∈ tok.filter (fun c ↦ !isSpace c), c.isDigit = false :=
    fun c hc ↦ hdigit c (List.mem_filter.mp hc).1
  have hnodigits {u : Text} (hsub : ∀ c ∈ u, c.isDigit = false) : isDigits u = false := by
    cases u with
    | nil => rfl
    | cons d u => simp [isDigits, hsub d List.mem_cons_self]
  have htoken : expandToken (tok.filter (fun c ↦ !isSpace c)) = none := by
    unfold expandToken
    split
    · next a b hsplit =>
      have ha : isDigits a = false := by
        apply hnodigits
        intro d hd
        apply hletters
        rw [(splitOnce_eq_some.mp hsplit).1]
        exact List.mem_append_left _ hd
      simp [ha]
    · rw [hnodigits hletters]
      rfl
  rw [expandTokens, if_neg (List.ne_nil_of_mem hc), htoken]
  rfl

/-- What is read in a line stands there in front of its comment. -/
private theorem mem_of_mem_content {c : Char} (h : c ∈ content line) : c ∈ before '#' line := by
  have hc := mem_of_mem_trimSpace h
  rw [before_held (by decide)] at hc
  exact List.mem_of_mem_filter hc

/-- In a blank line the script reads nothing. -/
private theorem lineSpecs_blank (h : stripComment line = []) : lineSpecs script line = [] := by
  have hwhite := isWhitespace_of_trim_eq_nil h
  unfold lineSpecs
  by_cases hempty : content line = []
  · rw [if_pos hempty]
  obtain ⟨c, rest, hcons⟩ := List.exists_cons_of_ne_nil hempty
  have hhead : (content line).head? = some c := by
    rw [hcons]
    rfl
  have hspace : isSpace c = false := isSpace_of_head?_trimSpace hhead
  have hblank : isBlank c = false := by
    cases hb : isBlank c with
    | false => rfl
    | true => exact (isSpace_of_isBlank hb).symm.trans hspace
  have hsub : ∀ d ∈ (readTwo (content line)).1, isWhitespace d = true :=
    fun d hd ↦ hwhite d (mem_of_mem_content ((List.takeWhile_sublist _).subset hd))
  have hfirst : c ∈ (readTwo (content line)).1 := by
    simp [readTwo, hcons, hblank]
  have hletter : ∀ d ∈ (readTwo (content line)).1, d.isDigit = false := by
    intro d hd
    cases hdigit : d.isDigit with
    | false => rfl
    | true => exact (hsub d hd).symm.trans (isWhitespace_of_isDigit hdigit)
  have hcomma : ',' ∉ (readTwo (content line)).1 :=
    fun hd ↦ absurd (hsub _ hd) (by decide)
  have hspec : expandPortSpec (readTwo (content line)).1 = [] := by
    have hfeed : '\n' ∉ (readTwo (content line)).1 :=
      fun hd ↦ absurd (List.mem_takeWhile_imp hd) (by decide)
    rw [expandPortSpec, before_eq_self hfeed, List.splitOn_eq_singleton hcomma,
      expandTokens_letters ⟨c, hfirst, hspace⟩ hletter]
  rw [if_neg hempty]
  show (if _ then [] else expandPortSpec (readTwo (content line)).1) = []
  rw [hspec, ite_self]

/-! ### The file -/

/-- What the script reads in a plain file is what the loader does. -/
private theorem mem_lineSpecs {text : Text} (hwell : AllWellFormed text)
    (hplain : PlainFile script.skipTls script.expand text) :
    t ∈ (readLines text).flatMap (lineSpecs script) ↔ ∃ e ∈ entries text, t = decimal e.1.toNat ∧
      (script.skipTls = true → e.2.slot = redirPrimary) := by
  have hcr (l : Text) : lineSpecs script (l ++ ['\r']) = lineSpecs script l := by
    have htrim (l : Text) : trimSpace (before '#' (l ++ ['\r'])) = trimSpace (before '#' l) := by
      by_cases hhash : '#' ∈ l
      · obtain ⟨u, v, rfl, hu⟩ := List.eq_append_cons_of_mem hhash
        rw [List.append_assoc, before_append hu, before_append hu]
        rfl
      · rw [before_append hhash, before_eq_self hhash]
        exact trimSpace_concat (by decide) l
    have hcontent : content (l ++ ['\r']) = content l := by
      have hheld : held (l ++ ['\r']) = held l ++ ['\r'] := List.filter_append ..
      rw [content, hheld, htrim, content]
    unfold lineSpecs
    rw [hcontent]
  rw [flatMap_readLines rfl, ← flatMap_lines rfl hcr]
  simp only [entries, List.mem_flatMap]
  constructor
  · rintro ⟨line, hline, ht⟩
    by_cases hblank : stripComment line = []
    · rw [lineSpecs_blank hblank] at ht
      cases ht
    · obtain ⟨e, he, h⟩ := (lineSpecs_plain (hwell line hline hblank)
        (hplain line hline hblank)).mp ht
      exact ⟨e, ⟨line, hline, he⟩, h⟩
  · rintro ⟨e, ⟨line, hline, he⟩, h⟩
    have hblank : stripComment line ≠ [] := by
      intro hblank
      rw [lineEntries_blank hblank] at he
      cases he
    exact ⟨line, hline, (lineSpecs_plain (hwell line hline hblank)
      (hplain line hline hblank)).mpr ⟨e, he, h⟩⟩

end Lines

/-- The loop adds what is not reserved, each once. -/
theorem collect_spec (script : Script) (raw collected : List Text)
    (hnodup : collected.Nodup) : (collect script raw collected).Nodup ∧
      ∀ t, t ∈ collect script raw collected ↔
        t ∈ collected ∨ t ∈ raw ∧ isReservedPort script t = false := by
  induction raw generalizing collected with
  | nil => exact ⟨hnodup, by simp [collect]⟩
  | cons p raw ih =>
    rw [collect]
    split
    · next hskip =>
      obtain ⟨hnext, hmem⟩ := ih collected hnodup
      refine ⟨hnext, fun t ↦ (hmem t).trans ⟨?_, ?_⟩⟩
      · exact Or.imp_right (fun h ↦ ⟨List.mem_cons_of_mem _ h.1, h.2⟩)
      · rintro (ht | ⟨ht, hres⟩)
        · exact .inl ht
        · rcases List.mem_cons.mp ht with rfl | ht
          · rw [hres, Bool.false_or] at hskip
            exact .inl (List.contains_iff_mem.mp hskip)
          · exact .inr ⟨ht, hres⟩
    · next hadd =>
      rw [Bool.or_eq_true, not_or, Bool.not_eq_true, List.contains_iff_mem] at hadd
      obtain ⟨hnext, hmem⟩ := ih (collected ++ [p])
        (List.nodup_append.mpr ⟨hnodup, by simp, by
          intro t ht u hu
          obtain rfl := List.mem_singleton.mp hu
          exact fun heq ↦ hadd.2 (heq ▸ ht)⟩)
      refine ⟨hnext, fun t ↦ (hmem t).trans ⟨?_, ?_⟩⟩
      · rintro (ht | ⟨ht, hres⟩)
        · rcases List.mem_append.mp ht with ht | ht
          · exact .inl ht
          · obtain rfl := List.mem_singleton.mp ht
            exact .inr ⟨List.mem_cons_self, hadd.1⟩
        · exact .inr ⟨List.mem_cons_of_mem _ ht, hres⟩
      · rintro (ht | ⟨ht, hres⟩)
        · exact .inl (List.mem_append_left _ ht)
        · rcases List.mem_cons.mp ht with rfl | ht
          · exact .inl (by simp)
          · exact .inr ⟨ht, hres⟩

/-- A text that the script takes for a port. -/
def IsPort (t : Text) : Prop := isDigits t = true ∧ ∃ n ∈ arithmetic t, 1 ≤ n ∧ n ≤ 65535

private theorem isPort_of_expandToken {tok t : Text} {out : List Text}
    (h : expandToken tok = some out) (ht : t ∈ out) : IsPort t := by
  unfold expandToken at h
  split at h
  · next a b =>
    split at h
    · obtain ⟨first, -, h⟩ := Option.bind_eq_some_iff.mp h
      obtain ⟨last, -, h⟩ := Option.bind_eq_some_iff.mp h
      split at h
      · next hbounds =>
        obtain rfl := Option.some.inj h
        obtain ⟨i, hi, rfl⟩ := List.mem_map.mp ht
        obtain ⟨k, hk, rfl⟩ := List.mem_range'.mp hi
        refine ⟨isDigits_decimal _, _, arithmetic_decimal ?_, ?_, ?_⟩ <;> omega
      · cases h
    · cases h
  · split at h
    · next hdigits =>
      obtain ⟨n, hn, h⟩ := Option.bind_eq_some_iff.mp h
      split at h
      · next hbounds =>
        obtain rfl := Option.some.inj h
        obtain rfl := List.mem_singleton.mp ht
        exact ⟨hdigits, n, hn, hbounds⟩
      · cases h
    · cases h

private theorem isPort_of_expandTokens {toks out : List Text} (h : expandTokens toks = some out) :
    ∀ t ∈ out, IsPort t := by
  induction toks generalizing out with
  | nil =>
    obtain rfl := Option.some.inj h
    exact nofun
  | cons tok toks ih =>
    rw [expandTokens] at h
    split at h
    · exact ih h
    · obtain ⟨first, hfirst, h⟩ := Option.bind_eq_some_iff.mp h
      obtain ⟨more, hmore, h⟩ := Option.bind_eq_some_iff.mp h
      obtain rfl := Option.some.inj h
      intro t ht
      rcases List.mem_append.mp ht with ht | ht
      · exact isPort_of_expandToken hfirst ht
      · exact ih hmore t ht

private theorem isPort_of_expandPortSpec {spec t : Text} (h : t ∈ expandPortSpec spec) :
    t = [] ∨ IsPort t := by
  unfold expandPortSpec at h
  split at h
  · cases h
  · next out hout =>
    split at h
    · exact .inl (List.mem_singleton.mp h)
    · exact .inr (isPort_of_expandTokens hout t h)

/-- What is printed was collected, and is a port, or the empty line for a spec of no port. -/
theorem collected_of_collectPorts {script : Script} {file : Option Text} {ports : List Text}
    (h : collectPorts script file = .ok ports) :
    ∃ raw, ports = collect script raw [] ∧ ∀ t ∈ raw, t = [] ∨ IsPort t := by
  have hcollected {raw : List Text} (hports : ∀ t ∈ raw, t = [] ∨ IsPort t)
      (hraw : (if collect script raw [] = [] then
        bail "no dynamic ports left after filtering 80/443/inner reals/target"
        else .ok (collect script raw [])) = .ok ports) :
      ∃ raw, ports = collect script raw [] ∧ ∀ t ∈ raw, t = [] ∨ IsPort t := by
    split at hraw
    · cases hraw
    · exact ⟨raw, (Except.ok.inj hraw).symm, hports⟩
  unfold collectPorts at h
  split at h
  · exact hcollected (fun t ↦ isPort_of_expandPortSpec) h
  · cases file with
    | none => cases h
    | some text =>
      refine hcollected (fun t ht ↦ ?_) h
      obtain ⟨line, -, ht⟩ := List.mem_flatMap.mp ht
      unfold lineSpecs at ht
      dsimp only at ht
      split at ht
      · cases ht
      · split at ht
        · cases ht
        · exact isPort_of_expandPortSpec ht

private theorem decimal_port_inj {p q : Port} : decimal p.toNat = decimal q.toNat ↔ p = q := by
  constructor
  · intro h
    exact UInt16.toNat.inj (decimal_injective h)
  · intro h
    rw [h]

/-- What the script takes for reserved. -/
private theorem isReservedPort_iff {script : Script} {t : Text} :
    isReservedPort script t = true ↔ t ∈ reservedPorts ∨
      (script.includeRealSkip = "1".toList ∧ t ∈ innerRealPorts) ∨
      (script.targetPort ≠ [] ∧ t = script.targetPort) := by
  rw [isReservedPort, Bool.or_eq_true, Bool.or_eq_true, Bool.and_eq_true, Bool.and_eq_true,
    List.contains_iff_mem, List.contains_iff_mem, beq_iff_eq, beq_iff_eq, Bool.not_eq_true',
    List.isEmpty_eq_false_iff, or_assoc]

private theorem isReservedPort_decimal (target : Port) (skipTls : Bool)
    (expand : Text → List Text) (p : Port) :
    isReservedPort (fromFile target skipTls expand) (decimal p.toNat) = false ↔
      p ∉ [80, 443, 8080, 8443, target] := by
  have hreserved : reservedPorts = [(80 : Port), 443].map (fun q ↦ decimal q.toNat) := by rfl
  have hinner : innerRealPorts = [(80 : Port), 443, 8080, 8443].map (fun q ↦ decimal q.toNat) := by
    rfl
  have hmem (qs : List Port) : decimal p.toNat ∈ qs.map (fun q ↦ decimal q.toNat) ↔ p ∈ qs := by
    rw [List.mem_map]
    constructor
    · rintro ⟨q, hq, heq⟩
      rwa [decimal_port_inj.mp heq.symm]
    · exact fun hp ↦ ⟨p, hp, rfl⟩
  have htarget : (fromFile target skipTls expand).targetPort = decimal target.toNat := rfl
  have hskip : (fromFile target skipTls expand).includeRealSkip = "1".toList := rfl
  rw [← Bool.not_eq_true, isReservedPort_iff, hreserved, hinner, hmem, hmem, htarget, hskip,
    decimal_port_inj]
  have hsubset : p ∈ [(80 : Port), 443] → p ∈ [(80 : Port), 443, 8080, 8443] :=
    fun h ↦ List.mem_append_left [8080, 8443] h
  have hsplit : p ∈ [80, 443, 8080, 8443, target] ↔
      p ∈ [(80 : Port), 443, 8080, 8443] ∨ p = target :=
    (List.mem_append (s := [80, 443, 8080, 8443]) (t := [target])).trans
      (or_congr_right List.mem_singleton)
  rw [hsplit, not_iff_not]
  constructor
  · exact fun h ↦ h.elim (fun h ↦ .inl (hsubset h)) (Or.imp And.right And.right)
  · exact fun h ↦ .inr (h.imp (fun h ↦ ⟨rfl, h⟩) (fun h ↦ ⟨decimal_ne_nil _, h⟩))

/-- On a plain file that the loader accepts, the script prints the numerals of its ports other than
the reserved ones, each once, and with TLS ports left out of those for the primary listener. -/
theorem prints_of_plain (text : Text) (policy : Policy) (desired : DesiredPorts) (target : Port)
    (skipTls : Bool) (expand : Text → List Text)
    (hload : loadFromReaderWithPolicy text policy = .ok desired)
    (hplain : PlainFile skipTls expand text) :
    Prints (Wanted desired target skipTls)
      (collectPorts (fromFile target skipTls expand) (some text)) := by
  obtain ⟨hwell, hconsistent, -, rfl⟩ := load_eq_ok_iff_union.mp hload
  obtain ⟨hnodup, hcollect⟩ := collect_spec (fromFile target skipTls expand)
    ((readLines text).flatMap (lineSpecs (fromFile target skipTls expand))) [] List.nodup_nil
  have hmem (t : Text) : t ∈ collect (fromFile target skipTls expand)
      ((readLines text).flatMap (lineSpecs (fromFile target skipTls expand))) [] ↔
      ∃ p, Wanted (union text) target skipTls p ∧ t = decimal p.toNat := by
    rw [hcollect, or_iff_right List.not_mem_nil,
      @mem_lineSpecs (fromFile target skipTls expand) t text hwell hplain]
    constructor
    · rintro ⟨⟨⟨p, b⟩, he, rfl, hslot⟩, hres⟩
      exact ⟨p, ⟨b, (getElem?_union hconsistent p b).mpr he,
        (isReservedPort_decimal target skipTls expand p).mp hres, hslot⟩, rfl⟩
    · rintro ⟨p, ⟨b, hb, hres, hslot⟩, rfl⟩
      exact ⟨⟨(p, b), (getElem?_union hconsistent p b).mp hb, rfl, hslot⟩,
        (isReservedPort_decimal target skipTls expand p).mpr hres⟩
  have hcollected : collectPorts (fromFile target skipTls expand) (some text) =
      if collect (fromFile target skipTls expand)
        ((readLines text).flatMap (lineSpecs (fromFile target skipTls expand))) [] = [] then
        bail "no dynamic ports left after filtering 80/443/inner reals/target"
      else .ok (collect (fromFile target skipTls expand)
        ((readLines text).flatMap (lineSpecs (fromFile target skipTls expand))) []) := rfl
  rw [hcollected]
  split
  · next hempty =>
    intro p hp
    have hp := (hmem _).mpr ⟨p, hp, rfl⟩
    rw [hempty] at hp
    cases hp
  · next hne => exact ⟨hne, hnodup, hmem⟩


namespace Example

/-- A file with a range and a TLS port. -/
def plainText : Text := "18081-18083 demo\u00a0local\n18443 demo local tls # main\n".toList

/-- What the loader makes of it. -/
def plainDesired : DesiredPorts :=
  insertAll (insertAll ∅ ⟨redirPrimary, "demo".toList, "local".toList, none, none⟩
    [18081, 18082, 18083]) ⟨redirTls, "demo".toList, "local".toList, none, none⟩ [18443]

/-- A file with a leading zero. -/
def zeroText : Text := "08081 demo local\n18082 demo local\n".toList

/-- What the loader makes of it. -/
def zeroDesired : DesiredPorts :=
  insertAll ∅ ⟨redirPrimary, "demo".toList, "local".toList, none, none⟩ [8081, 18082]

end Example

/-- The range is printed without the TLS port. -/
theorem prints_of_plain_range : Prints (Wanted Example.plainDesired 8080 true)
    (collectPorts (fromFile 8080 true (fun w ↦ [w])) (some Example.plainText)) := by
  apply prints_of_plain Example.plainText .default Example.plainDesired 8080 true _ (by rfl)
  have hlines : lines Example.plainText =
      ["18081-18083 demo\u00a0local".toList, "18443 demo local tls # main".toList] := by decide
  intro line hline _
  rw [hlines, List.mem_cons, List.mem_singleton] at hline
  rcases hline with rfl | rfl
  · have hsplit : "18081-18083".toList.splitOn ',' = ["18081-18083".toList] := by decide
    have hrange : PlainToken "18081-18083".toList := .range 18081 18083
    exact ⟨by decide, fun _ ↦ ⟨"18081-18083".toList,
      ⟨[], [], ' ', "demo\u00a0local".toList, rfl, nofun, nofun, rfl⟩, by decide,
      by rw [hsplit]; simpa using hrange, by rw [hsplit]; simp⟩⟩
  · exact ⟨by decide, fun hmark ↦ absurd (by decide) (hmark rfl)⟩

/-- A port whose numeral has a leading zero is not printed: arithmetic takes it for octal. -/
theorem not_prints_zero : ¬∀ (text : Text) (policy : Policy) (desired : DesiredPorts)
    (target : Port) (skipTls : Bool) (expand : Text → List Text),
    loadFromReaderWithPolicy text policy = .ok desired →
      Prints (Wanted desired target skipTls)
        (collectPorts (fromFile target skipTls expand) (some text)) := by
  intro h
  have hprints := h Example.zeroText .default Example.zeroDesired 8080 false (fun w ↦ [w]) (by rfl)
  have hcollect : collectPorts (fromFile 8080 false (fun w ↦ [w])) (some Example.zeroText) =
      .ok ["18082".toList] := by rfl
  rw [hcollect] at hprints
  have hwanted : Wanted Example.zeroDesired 8080 false 8081 :=
    ⟨_, by rfl, by decide, nofun⟩
  have hprinted := (hprints.2.2 (decimal (8081 : Port).toNat)).mpr ⟨8081, hwanted, rfl⟩
  exact absurd hprinted (by decide)

end SkLookup.Fallback
