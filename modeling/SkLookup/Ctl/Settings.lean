import SkLookup.Ctl.Flags

/-!
# Command lines as settings

What `parse_go_flags` of `src/rust/loader/src/cli.rs` takes a list of words for: settings of flags,
one after the other, and the words behind them.
-/

namespace SkLookup

open Codec

/-- The words that start a flag, and what they say behind one or two dashes. -/
inductive Dashed : Text → Text → Prop where
  | one {rest : Text} (h : rest.head? ≠ some '-') : Dashed ('-' :: rest) rest
  | two (rest : Text) : Dashed ('-' :: '-' :: rest) rest

/-- A word says no two things. -/
theorem Dashed.unique {a rest rest' : Text} (h : Dashed a rest) (h' : Dashed a rest') :
    rest = rest' := by
  cases h with
  | one hr =>
    cases h' with
    | one => rfl
    | two => exact absurd rfl hr
  | two =>
    cases h' with
    | one hr => exact absurd rfl hr
    | two => rfl

/-- A name, and a value behind an equals sign. -/
def spelled (name : Text) : Option Text → Text
  | none => name
  | some v => name ++ '=' :: v

/-- A word names a flag, alone or with a value. -/
structure Says (a name : Text) (inline : Option Text) : Prop where
  dashed : Dashed a (spelled name inline)
  plain : '=' ∉ name
  nonempty : spelled name inline ≠ []

/-- A word says one thing. -/
theorem Says.unique {a name name' : Text} {inline inline' : Option Text} (h : Says a name inline)
    (h' : Says a name' inline') : name = name' ∧ inline = inline' := by
  have heq := h.dashed.unique h'.dashed
  cases inline with
  | none =>
    cases inline' with
    | none => exact ⟨heq, rfl⟩
    | some v =>
      have hmem : '=' ∈ name := by
        rw [show name = name' ++ '=' :: v from heq]
        simp
      exact absurd hmem h.plain
  | some v =>
    have hsplit : splitOnce '=' (spelled name (some v)) = some (name, v) :=
      splitOnce_eq_some.mpr ⟨rfl, h.plain⟩
    rw [heq] at hsplit
    obtain ⟨hspelled, -⟩ := splitOnce_eq_some.mp hsplit
    cases inline' with
    | none =>
      have hmem : '=' ∈ name' := by
        rw [show name' = name ++ '=' :: v from hspelled]
        simp
      exact absurd hmem h'.plain
    | some v' =>
      have hsplit' : splitOnce '=' (spelled name' (some v')) = some (name', v') :=
        splitOnce_eq_some.mpr ⟨rfl, h'.plain⟩
      have hboth := Option.some.inj (hsplit.symm.trans hsplit')
      exact ⟨congrArg Prod.fst hboth, congrArg (fun x ↦ some x.2) hboth⟩

private theorem stripDashes_eq_some {a rest : Text} :
    (stripPrefix "--".toList a).or (stripPrefix "-".toList a) = some rest ↔ Dashed a rest := by
  have htwo (t : Text) : stripPrefix "--".toList ('-' :: '-' :: t) = some t := rfl
  have hone (t : Text) : stripPrefix "-".toList ('-' :: t) = some t := rfl
  constructor
  · intro h
    rcases Option.or_eq_some_iff.mp h with hs | ⟨hn, hs⟩
    · obtain ⟨t, rfl⟩ := List.isPrefixOf_iff_prefix.mp (Option.ite_none_right_eq_some.mp hs).1
      rw [← Option.some.inj ((htwo t).symm.trans hs)]
      exact .two t
    · obtain ⟨t, rfl⟩ := List.isPrefixOf_iff_prefix.mp (Option.ite_none_right_eq_some.mp hs).1
      rw [← Option.some.inj ((hone t).symm.trans hs)]
      refine .one fun hd ↦ ?_
      obtain ⟨u, rfl⟩ := List.head?_eq_some_iff.mp hd
      cases (htwo u).symm.trans hn
  · rintro (hd | t)
    · have hn : stripPrefix "--".toList ('-' :: rest) = none := by
        refine if_neg fun hp ↦ hd ?_
        obtain ⟨t, ht⟩ := List.isPrefixOf_iff_prefix.mp hp
        rw [← (List.cons.inj ht).2]
        rfl
      rw [hn, Option.none_or, hone]
    · rw [htwo, Option.some_or]

/-- A word is split at its first equals sign. -/
theorem splitFlag_eq_ok {a name : Text} {inline : Option Text} :
    splitFlag a = .ok (name, inline) ↔ Says a name inline := by
  unfold splitFlag
  constructor
  · intro h
    split at h
    · exact absurd h (bail_ne_ok _ _)
    · next rest hrest =>
      have hdashed := stripDashes_eq_some.mp hrest
      by_cases hnil : rest = []
      · rw [if_pos hnil] at h
        exact absurd h (bail_ne_ok _ _)
      · rw [if_neg hnil] at h
        split at h
        · next n v hsplit =>
          obtain ⟨rfl, rfl⟩ := Prod.mk.inj (Except.ok.inj h)
          obtain ⟨rfl, hplain⟩ := splitOnce_eq_some.mp hsplit
          exact ⟨hdashed, hplain, hnil⟩
        · next hsplit =>
          obtain ⟨rfl, rfl⟩ := Prod.mk.inj (Except.ok.inj h)
          refine ⟨hdashed, fun hmem ↦ ?_, hnil⟩
          rw [splitOnce, if_pos hmem] at hsplit
          cases hsplit
  · intro h
    rw [stripDashes_eq_some.mpr h.dashed]
    change (if spelled name inline = [] then bail "empty flag" else _) = _
    rw [if_neg h.nonempty]
    cases inline with
    | none =>
      have hsplit : splitOnce '=' (spelled name none) = none := if_neg h.plain
      rw [hsplit]
      rfl
    | some v =>
      have hsplit : splitOnce '=' (spelled name (some v)) = some (name, v) :=
        splitOnce_eq_some.mpr ⟨rfl, h.plain⟩
      rw [hsplit]

/-- A flag that asks for help. -/
def AsksHelp (name : Text) : Prop := name = "h".toList ∨ name = "help".toList

/-- Words that set one flag, and the value they set it to. -/
inductive FlagWords (boolFlags valueFlags : List String) : List Text → Text → Text → Prop where
  /-- Help is asked for, whatever the value. -/
  | help {a name : Text} {inline : Option Text} (h : Says a name inline) (hname : AsksHelp name) :
    FlagWords boolFlags valueFlags [a] "help".toList "true".toList
  /-- A switch is on unless the word says otherwise. -/
  | switch {a name : Text} {inline : Option Text} (h : Says a name inline)
    (hhelp : ¬ AsksHelp name) (hname : name ∈ boolFlags.map String.toList) :
    FlagWords boolFlags valueFlags [a] name (inline.getD "true".toList)
  /-- A value in the word of its flag. -/
  | inline {a name v : Text} (h : Says a name (some v)) (hhelp : ¬ AsksHelp name)
    (hswitch : name ∉ boolFlags.map String.toList) (hname : name ∈ valueFlags.map String.toList) :
    FlagWords boolFlags valueFlags [a] name v
  /-- A value in the next word, whatever that looks like. -/
  | separate {a name : Text} (v : Text) (h : Says a name none) (hhelp : ¬ AsksHelp name)
    (hswitch : name ∉ boolFlags.map String.toList) (hname : name ∈ valueFlags.map String.toList) :
    FlagWords boolFlags valueFlags [a, v] name v

/-- A command line: the settings of its flags in order, and the words behind the flags. -/
inductive CommandLine (boolFlags valueFlags : List String) :
    List Text → List (Text × Text) → List Text → Prop where
  | done : CommandLine boolFlags valueFlags [] [] []
  | dashes (tail : List Text) : CommandLine boolFlags valueFlags ("--".toList :: tail) [] tail
  | positional {a : Text} (rest : List Text) (h : a = "-".toList ∨ a.head? ≠ some '-') :
    CommandLine boolFlags valueFlags (a :: rest) [] (a :: rest)
  | sets {words rest tail : List Text} {name v : Text} {settings : List (Text × Text)}
    (h : FlagWords boolFlags valueFlags words name v)
    (hrest : CommandLine boolFlags valueFlags rest settings tail) :
    CommandLine boolFlags valueFlags (words ++ rest) ((name, v) :: settings) tail

namespace ParsedFlags

/-- Flags set one after the other. -/
def setAll (flags : ParsedFlags) (settings : List (Text × Text)) : ParsedFlags :=
  settings.foldl (fun out s ↦ out.set s.1 s.2) flags

/-- The flags and the other words of a command line. -/
def ofSettings (settings : List (Text × Text)) (tail : List Text) : ParsedFlags :=
  { ParsedFlags.empty.setAll settings with args := tail }

end ParsedFlags

/-- The value that a flag is set to last. -/
def lastSet (settings : List (Text × Text)) (name : Text) : Option Text :=
  settings.reverse.lookup name

private theorem get_setAll (flags : ParsedFlags) (settings : List (Text × Text)) (name : String) :
    (flags.setAll settings).get name =
      (lastSet settings name.toList).or (flags.get name) := by
  induction settings generalizing flags with
  | nil => rfl
  | cons s settings ih =>
    have hlast : lastSet (s :: settings) name.toList =
        (lastSet settings name.toList).or
          (if name.toList = s.1 then some s.2 else none) := by
      unfold lastSet
      rw [List.reverse_cons, List.lookup_append]
      by_cases hs : name.toList = s.1
      · simp [List.lookup, hs]
      · have hb : (name.toList == s.1) = false := by simpa using hs
        simp [List.lookup, hs, hb]
    change ((flags.set s.1 s.2).setAll settings).get name = _
    rw [ih, ParsedFlags.get_set, hlast, Option.or_assoc]
    congr 1
    split <;> rfl

/-- A later value wins. -/
theorem get_ofSettings (settings : List (Text × Text)) (tail : List Text) (name : String) :
    (ParsedFlags.ofSettings settings tail).get name = lastSet settings name.toList := by
  have h := get_setAll .empty settings name
  rw [ParsedFlags.get_empty, Option.or_none] at h
  exact h

/-- A word that says something is no bare dash, no pair of dashes and no plain word. -/
theorem Says.flag {a name : Text} {inline : Option Text} (h : Says a name inline) :
    a ≠ "--".toList ∧ ¬ (a = "-".toList ∨ a.head? ≠ some '-') := by
  obtain ⟨hdashed, -, hne⟩ := h
  have htwo : "--".toList = ['-', '-'] := rfl
  have hone : "-".toList = ['-'] := rfl
  rw [htwo, hone]
  generalize spelled name inline = rest at hdashed hne
  cases hdashed with
  | one hr =>
    refine ⟨fun heq ↦ hr ?_, ?_⟩
    · rw [(List.cons.inj heq).2]
      rfl
    · rintro (heq | hhead)
      · exact hne (List.cons.inj heq).2
      · exact hhead rfl
  | two =>
    refine ⟨fun heq ↦ hne (List.cons.inj (List.cons.inj heq).2).2, ?_⟩
    rintro (heq | hhead)
    · cases (List.cons.inj heq).2
    · exact hhead rfl

section Parse

variable {boolFlags valueFlags : List String}

private theorem parseLoop_of_reads {words tail : List Text} {settings : List (Text × Text)}
    (h : CommandLine boolFlags valueFlags words settings tail) (out : ParsedFlags) :
    parseLoop boolFlags valueFlags words out =
      .ok { out.setAll settings with args := out.args ++ tail } := by
  induction h generalizing out with
  | done => simp [parseLoop, ParsedFlags.setAll]
  | dashes tail => simp [parseLoop, ParsedFlags.setAll]
  | @positional a rest ha =>
    have hne : a ≠ "--".toList := by
      rintro rfl
      revert ha
      decide
    rw [parseLoop, if_neg hne, if_pos ha]
    rfl
  | sets hs hrest ih =>
    cases hs with
    | help hword hname =>
      have hflag := hword.flag
      rw [List.singleton_append, parseLoop, if_neg hflag.1, if_neg hflag.2,
        splitFlag_eq_ok.mpr hword]
      exact (if_pos hname).trans (ih _)
    | switch hword hhelp hname =>
      have hflag := hword.flag
      rw [List.singleton_append, parseLoop, if_neg hflag.1, if_neg hflag.2,
        splitFlag_eq_ok.mpr hword]
      exact (if_neg hhelp).trans ((if_pos hname).trans (ih _))
    | inline hword hhelp hswitch hname =>
      have hflag := hword.flag
      rw [List.singleton_append, parseLoop, if_neg hflag.1, if_neg hflag.2,
        splitFlag_eq_ok.mpr hword]
      exact (if_neg hhelp).trans ((if_neg hswitch).trans ((if_pos hname).trans (ih _)))
    | separate v hword hhelp hswitch hname =>
      have hflag := hword.flag
      rw [List.cons_append, parseLoop, if_neg hflag.1, if_neg hflag.2,
        splitFlag_eq_ok.mpr hword]
      exact (if_neg hhelp).trans ((if_neg hswitch).trans ((if_pos hname).trans (ih _)))

/-- One flag more at the front. -/
private theorem exists_reads_sets {words rest : List Text} {name v : Text}
    {out flags : ParsedFlags} (hs : FlagWords boolFlags valueFlags words name v)
    (h : ∃ settings tail, CommandLine boolFlags valueFlags rest settings tail ∧
      flags = { (out.set name v).setAll settings with args := out.args ++ tail }) :
    ∃ settings tail, CommandLine boolFlags valueFlags (words ++ rest) settings tail ∧
      flags = { out.setAll settings with args := out.args ++ tail } := by
  obtain ⟨settings, tail, hreads, hflags⟩ := h
  exact ⟨(name, v) :: settings, tail, .sets hs hreads, hflags⟩

private theorem reads_of_parseLoop (words : List Text) (out : ParsedFlags) {flags : ParsedFlags}
    (h : parseLoop boolFlags valueFlags words out = .ok flags) :
    ∃ settings tail, CommandLine boolFlags valueFlags words settings tail ∧
      flags = { out.setAll settings with args := out.args ++ tail } := by
  fun_induction parseLoop boolFlags valueFlags words out with
  | case1 out =>
    refine ⟨[], [], .done, ?_⟩
    rw [List.append_nil]
    exact (Except.ok.inj h).symm
  | case2 rest out => exact ⟨[], rest, .dashes rest, (Except.ok.inj h).symm⟩
  | case3 a rest out hdashes hplain =>
    exact ⟨[], a :: rest, .positional rest hplain, (Except.ok.inj h).symm⟩
  | case4 => cases h
  | case5 a rest out hdashes hplain name inline hsplit hhelp ih =>
    exact exists_reads_sets (.help (splitFlag_eq_ok.mp hsplit) hhelp) (ih h)
  | case6 a rest out hdashes hplain name inline hsplit hhelp hname ih =>
    exact exists_reads_sets (.switch (splitFlag_eq_ok.mp hsplit) hhelp hname) (ih h)
  | case7 a out hdashes hplain name hhelp hswitch hname v rest hsplit ih =>
    exact exists_reads_sets (.inline (splitFlag_eq_ok.mp hsplit) hhelp hswitch hname) (ih h)
  | case8 a out hdashes hplain name hhelp hswitch hname v rest hsplit ih =>
    exact exists_reads_sets (.separate v (splitFlag_eq_ok.mp hsplit) hhelp hswitch hname) (ih h)
  | case9 => exact absurd h (bail_ne_ok _ _)
  | case10 => exact absurd h (bail_ne_ok _ _)

/-- The parser takes a command line for the settings it is made of. -/
theorem parseGoFlags_of_reads {words tail : List Text} {settings : List (Text × Text)}
    (h : CommandLine boolFlags valueFlags words settings tail) :
    parseGoFlags words boolFlags valueFlags = .ok (.ofSettings settings tail) :=
  parseLoop_of_reads h .empty

/-- The parser accepts settings with words behind them, and nothing else. -/
theorem parseGoFlags_eq_ok {words : List Text} {flags : ParsedFlags} :
    parseGoFlags words boolFlags valueFlags = .ok flags ↔
      ∃ settings tail, CommandLine boolFlags valueFlags words settings tail ∧
        flags = .ofSettings settings tail := by
  constructor
  · exact reads_of_parseLoop words .empty
  · rintro ⟨settings, tail, hreads, rfl⟩
    exact parseGoFlags_of_reads hreads

end Parse

/-- Words that are settings and nothing else. -/
inductive Spelled (boolFlags valueFlags : List String) : List Text → List (Text × Text) → Prop where
  | nil : Spelled boolFlags valueFlags [] []
  | cons {words rest : List Text} {name v : Text} {settings : List (Text × Text)}
    (h : FlagWords boolFlags valueFlags words name v)
    (hrest : Spelled boolFlags valueFlags rest settings) :
    Spelled boolFlags valueFlags (words ++ rest) ((name, v) :: settings)

/-- Settings with words behind them that look like no flag make a command line. -/
theorem Spelled.commandLine {boolFlags valueFlags : List String} {words tail : List Text}
    {settings : List (Text × Text)} (h : Spelled boolFlags valueFlags words settings)
    (htail : ∀ a, tail.head? = some a → a.head? ≠ some '-') :
    CommandLine boolFlags valueFlags (words ++ tail) settings tail := by
  induction h with
  | nil =>
    cases tail with
    | nil => exact .done
    | cons a tail => exact .positional tail (.inr (htail a rfl))
  | cons hs _ ih =>
    rw [List.append_assoc]
    exact .sets hs ih

/-- The value set last was set. -/
theorem mem_of_lastSet {settings : List (Text × Text)} {name v : Text}
    (h : lastSet settings name = some v) : (name, v) ∈ settings := by
  obtain ⟨before, behind, hsettings, -⟩ := List.lookup_eq_some_iff.mp h
  rw [← List.mem_reverse, hsettings]
  simp

/-- Only flags that are known are set, and help. -/
theorem Spelled.known {boolFlags valueFlags : List String} {words : List Text}
    {settings : List (Text × Text)} (h : Spelled boolFlags valueFlags words settings)
    {name v : Text} (hset : lastSet settings name = some v) :
    name ∈ boolFlags.map String.toList ∨ name ∈ valueFlags.map String.toList ∨
      name = "help".toList := by
  have hmem := mem_of_lastSet hset
  clear hset
  induction h with
  | nil => cases hmem
  | cons hs _ ih =>
    rcases List.mem_cons.mp hmem with heq | hmem
    · obtain ⟨rfl, rfl⟩ := Prod.mk.inj heq
      cases hs with
      | help => exact .inr (.inr rfl)
      | switch _ _ hname => exact .inl hname
      | inline _ _ _ hname => exact .inr (.inl hname)
      | separate _ _ _ _ hname => exact .inr (.inl hname)
    · exact ih hmem

end SkLookup
