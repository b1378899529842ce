import SkLookup.Codec.Tokens
import SkLookup.Nginx.Hits

/-!
# The grammar of listens

An nginx configuration is words, separators and comments, and its directives are the words
between separators, however they are laid out. The scanner reads lines. The two agree on
configurations whose `listen` directives stand at the start of lines.
-/

namespace SkLookup.Nginx

open Codec

/-- The separators of a configuration: ends of directives and braces of blocks. -/
def isPunct (c : Char) : Bool := c == ';' || c == '{' || c == '}'

/-- The tokens of a configuration. -/
def confTokens (text : Text) : List Token := tokens isPunct '#' text

/-- The directives of a configuration. -/
def directives (text : Text) : List (List Token) := (confTokens text).splitOnP Token.isSep

/-- The name of the directive that the scanner looks for. -/
def listenName : Text := "listen".toList

/-- A text is a decimal numeral of a port, possibly with leading zeros. -/
structure Numeral (t : Text) (p : Port) : Prop where
  nonempty : t ≠ []
  digits : ∀ c ∈ t, c.isDigit = true
  value : Nat.ofDigitChars 10 t 0 = p.toNat

/-- An address names a port: it is the port, or it ends in a colon and the port and is not the
address of a Unix socket. -/
def Addresses (a : Text) (p : Port) : Prop :=
  p ≠ 0 ∧ (Numeral a p ∨
    ¬"unix:".toList <+: a ∧ ∃ host n, a = host ++ ':' :: n ∧ Numeral n p)

/-- A `listen` directive of the configuration names the port in its first argument. -/
def Listens (text : Text) (p : Port) : Prop :=
  ∃ d ∈ directives text, ∃ a rest, d = .word listenName :: .word a :: rest ∧ Addresses a p

/-! ### Configurations that the scanner reads -/

/-- An address whose port has no plus sign and whose last number is a port. -/
structure PlainAddress (a : Text) : Prop where
  unsigned : ∀ host n p, a = host ++ ':' :: '+' :: n → ¬Numeral n p
  named : "unix:".toList <+: a → ∀ host n p, a = host ++ ':' :: n → ¬Numeral n p

/-- A line that starts with a `listen` directive and its first argument. White space, the end of
the line, or semicolons and a comment are behind the argument. -/
structure ListenLine where
  indent : Text
  gap : Text
  address : Text
  semis : Text
  rest : Text
  indent_blank : ∀ c ∈ indent, isWhitespace c = true
  gap_blank : ∀ c ∈ gap, isWhitespace c = true
  gap_nonempty : gap ≠ []
  address_nonempty : address ≠ []
  address_word : ∀ c ∈ address, isWhitespace c = false ∧ isPunct c = false
  address_hash : '#' ∉ address
  address_plain : PlainAddress address
  semis_eq : ∀ c ∈ semis, c = ';'
  rest_head : ∀ c, rest.head? = some c → isWhitespace c = true ∨ semis ≠ [] ∧ c = '#'

namespace ListenLine

/-- The text of the line. -/
def text (l : ListenLine) : Text :=
  l.indent ++ (listenName ++ (l.gap ++ (l.address ++ (l.semis ++ l.rest))))

end ListenLine

/-- All `listen` directives stand at the start of lines with their first arguments, and all lines
that start with the word `listen` start a directive. -/
structure LaidOut (text : Text) : Prop where
  first : ∀ line ∈ lines text, ∀ c, ¬[.sep c, .word listenName] <:+: confTokens line
  whole : ∀ pre line post, lines text = pre ++ line :: post →
    [.word listenName] <+: confTokens line →
      (∀ t, (pre.flatMap confTokens).getLast? = some t → t.isSep = true) ∧
        ∃ l : ListenLine, line = l.text

/-! ### Addresses -/

private theorem not_mem_numeral {t : Text} {p : Port} (h : Numeral t p) {c : Char}
    (hc : c.isDigit = false) : c ∉ t := by
  intro hm
  rw [h.digits c hm] at hc
  cases hc

private theorem parseUnsigned_iff {t : Text} {p : Port} (ht : ∀ n, t = '+' :: n → ¬Numeral n p) :
    parseUnsigned 65536 t = some p.toNat ↔ Numeral t p := by
  rw [parseUnsigned_eq_some]
  constructor
  · rintro ⟨digits, rfl | rfl, hn, hd, he, -⟩
    · exact ⟨hn, hd, he⟩
    · exact absurd ⟨hn, hd, he⟩ (ht digits rfl)
  · intro h
    exact ⟨t, .inl rfl, h.nonempty, h.digits, h.value, p.toNat_lt⟩

private theorem rawPort_digits {a : Text} (ha : a.all Char.isDigit = true) {p : Port} :
    (rawPort a).bind (parseUnsigned 65536) = some p.toNat ↔ Numeral a p := by
  rw [rawPort, if_pos ha, Option.bind_some]
  apply parseUnsigned_iff
  rintro n rfl
  simp at ha

private theorem rawPort_colon {a : Text} (ha : a.all Char.isDigit = false) (hs : ';' ∉ a)
    (hp : PlainAddress a) {p : Port} :
    (rawPort a).bind (parseUnsigned 65536) = some p.toNat ↔
      ∃ host n, a = host ++ ':' :: n ∧ Numeral n p := by
  rw [rawPort, if_neg (by simp [ha])]
  have last {n : Text} (hn : Numeral n p) : ':' ∉ n := not_mem_numeral hn (by decide)
  cases hr : rsplitOnce ':' a with
  | none =>
    have hc := rsplitOnce_eq_none.mp hr
    constructor
    · intro h
      cases h
    · rintro ⟨host, n, rfl, -⟩
      simp at hc
  | some uv =>
    obtain ⟨u, v⟩ := uv
    obtain ⟨he, hv⟩ := rsplitOnce_eq_some.mp hr
    have hsv : ';' ∉ v := fun hm ↦ hs (by simp [he, hm])
    have ht : trimEndMatches ';' v = v := by
      have := trimEndMatches_append hsv (v := []) (by simp)
      rwa [List.append_nil] at this
    have hplus : ∀ n, v = '+' :: n → ¬Numeral n p := by
      rintro n rfl
      exact hp.unsigned u n p he
    rw [Option.map_some, Option.bind_some, ht, parseUnsigned_iff hplus]
    constructor
    · intro h
      exact ⟨u, v, he, h⟩
    · rintro ⟨host, n, he', hn⟩
      have hr' := rsplitOnce_eq_some.mpr ⟨he', last hn⟩
      obtain ⟨-, rfl⟩ := Prod.mk.inj (Option.some.inj (hr.symm.trans hr'))
      exact hn

/-- The scanner reads plain addresses as the grammar does. -/
theorem rawPort_iff {a : Text} (hs : ';' ∉ a) (hp : PlainAddress a) {p : Port} :
    p ≠ 0 ∧ (rawPort a).bind (parseUnsigned 65536) = some p.toNat ↔ Addresses a p := by
  refine and_congr_right (fun _ ↦ ?_)
  cases ha : a.all Char.isDigit with
  | true =>
    rw [rawPort_digits ha]
    constructor
    · exact .inl
    · rintro (h | ⟨-, host, n, rfl, -⟩)
      · exact h
      · simp at ha
  | false =>
    rw [rawPort_colon ha hs hp]
    constructor
    · rintro ⟨host, n, he, hn⟩
      exact .inr ⟨fun hu ↦ hp.named hu host n p he hn, host, n, he, hn⟩
    · rintro (h | ⟨-, h⟩)
      · rw [List.all_eq_true.mpr h.digits] at ha
        cases ha
      · exact h

/-! ### Lines -/

/-- The scanner takes the port from the first word behind the name. -/
theorem listenOfLine_iff {line rest a : Text} {c : Char} (hc : isWhitespace c = true)
    (h : trim (before '#' line) = listenName ++ c :: rest)
    (ha : trimEndMatches ';' ((words (trimStart (c :: rest))).headD []) = a) {p : Port} :
    listenOfLine line = some p ↔
      p ≠ 0 ∧ (rawPort a).bind (parseUnsigned 65536) = some p.toNat := by
  have hs : stripPrefix "listen".toList (listenName ++ c :: rest) = some (c :: rest) := by
    simp [stripPrefix, listenName]
  rw [listenOfLine, h, hs]
  simp only [List.head?_cons, Option.any_some, hc, Bool.not_true, Bool.false_eq_true, if_false, ha]
  cases hn : (rawPort a).bind (parseUnsigned 65536) with
  | none => simp
  | some n =>
    have hb : n < 65536 := by
      obtain ⟨raw, -, hr⟩ := Option.bind_eq_some_iff.mp hn
      exact parseUnsigned_lt hr
    have ho : (UInt16.ofNat n).toNat = n := UInt16.toNat_ofNat_of_lt' hb
    have hz : n = 0 ↔ UInt16.ofNat n = 0 := by
      rw [← UInt16.toNat_inj, ho]
      rfl
    simp only [Option.some.injEq]
    by_cases h0 : n = 0
    · have hp : p.toNat = 0 → p = 0 := fun e ↦ UInt16.toNat_inj.mp e
      rw [if_pos h0, h0]
      simp only [reduceCtorEq, false_iff, not_and]
      intro hne he
      exact hne (hp he.symm)
    · rw [if_neg h0, Option.some.injEq, ← UInt16.toNat_inj, ho]
      constructor
      · intro he
        refine ⟨?_, he⟩
        rintro rfl
        exact h0 he
      · exact And.right

/-- A line that the scanner takes a port from starts with the name and white space. -/
theorem starts_of_listenOfLine {line : Text} {p : Port} (h : listenOfLine line = some p) :
    ∃ c rest, isWhitespace c = true ∧ trim (before '#' line) = listenName ++ c :: rest := by
  unfold listenOfLine at h
  split at h
  · cases h
  · next rest hs =>
    have ht : trim (before '#' line) = listenName ++ rest := by
      unfold stripPrefix at hs
      split at hs
      · next hp =>
        obtain ⟨u, hu⟩ := List.isPrefixOf_iff_prefix.mp hp
        rw [← hu, List.drop_left] at hs
        rw [← hu, Option.some.inj hs]
        rfl
      · cases hs
    cases rest with
    | nil => simp at h
    | cons c rest =>
      cases hc : isWhitespace c with
      | true => exact ⟨c, rest, hc, ht⟩
      | false => simp [hc] at h

private theorem listenName_nonempty : listenName ≠ [] := by decide

private theorem listenName_word : ∀ c ∈ listenName, isWhitespace c = false := by decide

private theorem listenName_punct : ∀ c ∈ listenName, isPunct c = false := by decide

private theorem listenName_hash : '#' ∉ listenName := by decide

/-- Its first token is the name. -/
theorem confTokens_of_listenOfLine {line : Text} {p : Port} (h : listenOfLine line = some p) :
    [.word listenName] <+: confTokens line := by
  obtain ⟨c, rest, hc, ht⟩ := starts_of_listenOfLine h
  obtain ⟨b, e, hblank, -, hb⟩ := padded_trim (before '#' line)
  obtain ⟨t, hl⟩ := List.takeWhile_prefix (· != '#') (l := line)
  have hline : line = b ++ (listenName ++ c :: (rest ++ (e ++ t))) := by
    rw [← hl]
    change before '#' line ++ t = _
    rw [hb, ht]
    simp
  rw [hline, confTokens, tokens_blank hblank, tokens_word listenName_nonempty listenName_word
    listenName_punct listenName_hash (by simp [hc])]
  exact ⟨_, rfl⟩

namespace ListenLine

variable (l : ListenLine)

private theorem head?_gap (t : Text) (c : Char) (h : (l.gap ++ t).head? = some c) :
    isWhitespace c = true := by
  cases hg : l.gap with
  | nil => exact absurd hg l.gap_nonempty
  | cons d g =>
    rw [hg] at h
    obtain rfl := Option.some.inj h
    exact l.gap_blank d (hg ▸ List.mem_cons_self)

private theorem head?_semis (c : Char) (h : (l.semis ++ l.rest).head? = some c) :
    isWhitespace c = true ∨ isPunct c = true := by
  cases hs : l.semis with
  | nil =>
    rw [hs] at h
    rcases l.rest_head c h with hc | ⟨hn, -⟩
    · exact .inl hc
    · exact absurd hs hn
  | cons d g =>
    rw [hs] at h
    obtain rfl := Option.some.inj h
    rw [l.semis_eq d (hs ▸ List.mem_cons_self)]
    exact .inr rfl

/-- The tokens of the line are the name, the argument and what is behind them. -/
theorem confTokens_text :
    confTokens l.text =
      .word listenName :: .word l.address :: confTokens (l.semis ++ l.rest) := by
  have ha : ∀ c ∈ l.address, isWhitespace c = false := fun c hc ↦ (l.address_word c hc).1
  have hp : ∀ c ∈ l.address, isPunct c = false := fun c hc ↦ (l.address_word c hc).2
  rw [confTokens, text, tokens_blank l.indent_blank, tokens_word listenName_nonempty
    listenName_word listenName_punct listenName_hash (fun c hc ↦ .inl (l.head?_gap _ c hc)),
    tokens_blank l.gap_blank, tokens_word l.address_nonempty ha hp l.address_hash l.head?_semis]
  rfl

-- What is left of the end of the line starts with white space.
private theorem head?_rest (c : Char) (h : (trimEnd (before '#' l.rest)).head? = some c) :
    isWhitespace c = true := by
  obtain ⟨u, hu⟩ := trimEnd_prefix (before '#' l.rest)
  obtain ⟨v, hv⟩ := List.takeWhile_prefix (· != '#') (l := l.rest)
  cases ht : trimEnd (before '#' l.rest) with
  | nil => simp [ht] at h
  | cons d t =>
    rw [ht] at h hu
    obtain rfl := Option.some.inj h
    have hb : before '#' l.rest ++ v = l.rest := hv
    have hr : l.rest.head? = some d := by
      rw [← hb, ← hu]
      rfl
    rcases l.rest_head d hr with hd | ⟨-, rfl⟩
    · exact hd
    · have hm : '#' ∈ before '#' l.rest := by
        rw [← hu]
        exact List.mem_cons_self
      exact absurd hm (not_mem_before _ _)

private theorem hash_not_mem_blank {b : Text} (hb : ∀ c ∈ b, isWhitespace c = true) :
    '#' ∉ b := fun h ↦ absurd (hb _ h) (by decide)

-- The line without its comment.
private theorem before_text :
    before '#' l.text =
      l.indent ++ (listenName ++ (l.gap ++ ((l.address ++ l.semis) ++ before '#' l.rest))) := by
  have hi : '#' ∉ l.indent := hash_not_mem_blank l.indent_blank
  have hg : '#' ∉ l.gap := hash_not_mem_blank l.gap_blank
  have hs : '#' ∉ l.semis := fun h ↦ absurd (l.semis_eq _ h) (by decide)
  rw [text, before_append hi, before_append listenName_hash, before_append hg,
    before_append l.address_hash, before_append hs, List.append_assoc]

-- The argument and its semicolons are a word of the scanner.
private theorem argument_word : ∀ c ∈ l.address ++ l.semis, isWhitespace c = false := by
  intro c hc
  rcases List.mem_append.mp hc with hc | hc
  · exact (l.address_word c hc).1
  · rw [l.semis_eq c hc]
    decide

private theorem trim_text :
    trim (before '#' l.text) =
      listenName ++ (l.gap ++ ((l.address ++ l.semis) ++ trimEnd (before '#' l.rest))) := by
  have hl (t : Text) : trimStart (listenName ++ t) = listenName ++ t := by
    apply trimStart_eq_self
    intro c hc
    obtain rfl := Option.some.inj hc
    decide
  rw [l.before_text, trim, trimStart_blank l.indent_blank, hl]
  rcases List.eq_nil_or_concat (l.address ++ l.semis) with hn | ⟨init, c, hw⟩
  · simp [l.address_nonempty] at hn
  · rw [List.concat_eq_append] at hw
    have hc : isWhitespace c = false := l.argument_word c (by simp [hw])
    have ha (t : Text) : listenName ++ (l.gap ++ (init ++ [c] ++ t)) =
        (listenName ++ (l.gap ++ init)) ++ c :: t := by simp
    rw [hw, ha, trimEnd_append hc, ha]

/-- The scanner reads the line as its directive. -/
theorem listenOfLine_text {p : Port} :
    listenOfLine l.text = some p ↔ Addresses l.address p := by
  have hs : ';' ∉ l.address := fun h ↦ absurd (l.address_word _ h).2 (by decide)
  have hn : l.address ++ l.semis ≠ [] := by simp [l.address_nonempty]
  cases hg : l.gap with
  | nil => exact absurd hg l.gap_nonempty
  | cons c g =>
    have hc : isWhitespace c = true := l.gap_blank c (hg ▸ List.mem_cons_self)
    have ht := l.trim_text
    rw [hg, List.cons_append] at ht
    have ha : trimEndMatches ';' ((words (trimStart (c ::
        (g ++ ((l.address ++ l.semis) ++ trimEnd (before '#' l.rest)))))).headD []) =
        l.address := by
      have hw : trimStart ((l.address ++ l.semis) ++ trimEnd (before '#' l.rest)) =
          (l.address ++ l.semis) ++ trimEnd (before '#' l.rest) := by
        apply trimStart_eq_self
        intro d hd
        rw [List.head?_append, Option.or_of_isSome (List.isSome_head?.mpr hn)] at hd
        exact l.argument_word d (List.mem_of_head? hd)
      rw [← List.cons_append, ← hg, trimStart_blank l.gap_blank, hw, List.headD_eq_head?_getD,
        head?_words_append hn l.argument_word l.head?_rest, Option.getD_some,
        trimEndMatches_append hs l.semis_eq]
    rw [listenOfLine_iff hc ht ha, rawPort_iff hs l.address_plain]

end ListenLine

/-! ### Configurations -/

/-- A port is listened to exactly when the name and an argument with the port stand at the start
of the configuration or behind a separator. -/
theorem listens_iff {text : Text} {p : Port} :
    Listens text p ↔ ∃ a, Addresses a p ∧ ∃ pre post,
      confTokens text = pre ++ .word listenName :: .word a :: post ∧
        ∀ t, pre.getLast? = some t → t.isSep = true := by
  have hd (a : Text) := exists_prefix_splitOnP (p := Token.isSep)
    (w := [.word listenName, .word a]) (by simp [Token.isSep]) (confTokens text)
  constructor
  · rintro ⟨d, hm, a, rest, rfl, ha⟩
    obtain ⟨pre, post, he, ⟨u, rfl⟩, hs⟩ := (hd a).mp ⟨_, hm, rest, rfl⟩
    exact ⟨a, ha, pre, u, he, hs⟩
  · rintro ⟨a, ha, pre, post, he, hs⟩
    obtain ⟨d, hm, rest, rfl⟩ := (hd a).mpr ⟨pre, _, he, ⟨post, rfl⟩, hs⟩
    exact ⟨_, hm, a, rest, rfl, ha⟩

namespace LaidOut

variable {text : Text} (h : LaidOut text)

include h

/-- A directive of the configuration begins a line. -/
theorem starts_line {pre post : List Token}
    (he : confTokens text = pre ++ .word listenName :: post)
    (hs : ∀ t, pre.getLast? = some t → t.isSep = true) :
    ∃ l : ListenLine, l.text ∈ lines text ∧ [.word l.address] <+: post := by
  rw [confTokens, tokens_eq_flatMap_lines] at he
  obtain ⟨b, line, after, u, q, hl, hq, rfl, rfl⟩ := flatMap_eq_append_cons he
  have hm : line ∈ lines text := by simp [hl]
  rcases List.eq_nil_or_concat u with rfl | ⟨init, s, rfl⟩
  · obtain ⟨-, l, rfl⟩ := h.whole b line after hl ⟨q, hq.symm⟩
    refine ⟨l, hm, ?_⟩
    have ht := l.confTokens_text
    rw [confTokens, hq] at ht
    obtain ⟨-, rfl⟩ := List.cons.inj ht
    exact ⟨_, rfl⟩
  · have hsep := hs s (by simp)
    cases s with
    | word w => cases hsep
    | sep c =>
      refine absurd ⟨init, q, ?_⟩ (h.first line hm c)
      rw [confTokens, hq]
      simp

/-- A line with a port is a directive of the configuration. -/
theorem starts_directive {line : Text} (hm : line ∈ lines text) {p : Port}
    (hp : listenOfLine line = some p) :
    ∃ l : ListenLine, line = l.text ∧ ∃ pre post,
      confTokens text = pre ++ .word listenName :: .word l.address :: post ∧
        ∀ t, pre.getLast? = some t → t.isSep = true := by
  obtain ⟨before, after, hl⟩ := List.append_of_mem hm
  obtain ⟨hs, l, rfl⟩ := h.whole before line after hl (confTokens_of_listenOfLine hp)
  refine ⟨l, rfl, before.flatMap confTokens,
    confTokens (l.semis ++ l.rest) ++ after.flatMap confTokens, ?_, hs⟩
  rw [confTokens, tokens_eq_flatMap_lines, hl, List.flatMap_append, List.flatMap_cons]
  change _ ++ (confTokens l.text ++ _) = _
  rw [l.confTokens_text]
  rfl

end LaidOut

/-- Where the `listen` directives stand at the start of lines, the scanner finds the ports that
the grammar gives them. -/
theorem mem_parseListenPorts_iff_listens {text : Text} (h : LaidOut text) (p : Port) :
    p ∈ parseListenPorts text ↔ Listens text p := by
  rw [mem_parseListenPorts, listens_iff]
  constructor
  · rintro ⟨line, hm, hp⟩
    obtain ⟨l, rfl, pre, post, he, hs⟩ := h.starts_directive hm hp
    exact ⟨l.address, l.listenOfLine_text.mp hp, pre, post, he, hs⟩
  · rintro ⟨a, ha, pre, post, he, hs⟩
    obtain ⟨l, hm, hp⟩ := h.starts_line he hs
    obtain rfl : l.address = a := by simpa using hp
    exact ⟨l.text, hm, l.listenOfLine_text.mpr ha⟩

-- A server with one listen, on a line of its own.
private def oneListen : Text := "server \x7b\n  listen [::]:8080 ssl; # web\n\x7d".toList

private theorem listens_8080 : Listens oneListen 8080 := by
  refine ⟨[.word listenName, .word "[::]:8080".toList, .word "ssl".toList], by decide,
    "[::]:8080".toList, [.word "ssl".toList], rfl, by decide, .inr ⟨by decide, "[::]".toList,
    "8080".toList, rfl, by decide, by decide, by decide⟩⟩

private def listenLine : ListenLine where
  indent := "  ".toList
  gap := " ".toList
  address := "[::]:8080".toList
  semis := []
  rest := " ssl; # web".toList
  indent_blank := by decide
  gap_blank := by decide
  gap_nonempty := by decide
  address_nonempty := by decide
  address_word := by decide
  address_hash := by decide
  address_plain := by
    constructor
    · intro host n p h
      have hm : '+' ∈ "[::]:8080".toList := by simp [h]
      exact absurd hm (by decide)
    · intro h
      exact absurd h (by decide)
  semis_eq := by decide
  rest_head := by
    intro c h
    obtain rfl := Option.some.inj h
    exact .inl (by decide)

-- Where a line stands among three.
private theorem split_three {a b c line : Text} {pre post : List Text}
    (h : [a, b, c] = pre ++ line :: post) :
    pre = [] ∧ line = a ∨ pre = [a] ∧ line = b ∨ pre = [a, b] ∧ line = c := by
  rcases pre with _ | ⟨x, _ | ⟨y, _ | ⟨z, pre⟩⟩⟩ <;> simp_all

private theorem laidOut_oneListen : LaidOut oneListen := by
  have hl : lines oneListen = ["server \x7b".toList, listenLine.text, "\x7d".toList] := by decide
  have h₁ : confTokens "server \x7b".toList = [.word "server".toList, .sep '{'] := by decide
  have h₂ : confTokens listenLine.text =
      [.word listenName, .word "[::]:8080".toList, .word "ssl".toList, .sep ';'] := by decide
  have h₃ : confTokens "\x7d".toList = [.sep '}'] := by decide
  constructor
  · intro line hm c hc
    have hw : .word listenName ∈ (confTokens line).tail := by
      obtain ⟨u, v, hv⟩ := hc
      rw [← hv]
      cases u <;> simp
    rw [hl] at hm
    rcases List.mem_cons.mp hm with rfl | hm
    · rw [h₁] at hw
      exact absurd hw (by decide)
    · rcases List.mem_cons.mp hm with rfl | hm
      · rw [h₂] at hw
        exact absurd hw (by decide)
      · rw [List.mem_singleton.mp hm, h₃] at hw
        exact absurd hw (by decide)
  · intro pre line post he hp
    rw [hl] at he
    rcases split_three he with ⟨rfl, rfl⟩ | ⟨rfl, rfl⟩ | ⟨rfl, rfl⟩
    · rw [h₁] at hp
      exact absurd hp (by decide)
    · refine ⟨?_, listenLine, rfl⟩
      rw [List.flatMap_singleton, h₁]
      simp [Token.isSep]
    · rw [h₃] at hp
      exact absurd hp (by decide)

theorem parseListenPorts_oneListen : 8080 ∈ parseListenPorts oneListen :=
  (mem_parseListenPorts_iff_listens laidOut_oneListen 8080).mpr listens_8080

/-- A directive on the line of the brace of its block is missed. -/
theorem parseListenPorts_braceLine :
    ¬∀ text : Text, '"' ∉ text → '\'' ∉ text → ∀ p, p ∈ parseListenPorts text ↔ Listens text p := by
  intro h
  have hl : Listens "server \x7b listen 80; \x7d".toList 80 :=
    ⟨[.word listenName, .word "80".toList], by decide, "80".toList, [], rfl, by decide,
      .inl ⟨by decide, by decide, by decide⟩⟩
  have hm := (h "server \x7b listen 80; \x7d".toList (by decide) (by decide) 80).mpr hl
  have hn : parseListenPorts "server \x7b listen 80; \x7d".toList = [] := by decide
  rw [hn] at hm
  cases hm

end SkLookup.Nginx
