import SkLookup.Codec.Fields
import SkLookup.Desired.Union
import SkLookup.Recovery.Script

/-!
# The ports file that the recovery script takes

The validation in `src/scripts/recover.sh` takes a port, or a range, with an optional `tls` on a
line. The loader takes no port without a tenant and a site. What both take holds no port.
-/

namespace SkLookup.Recovery

open Codec

private theorem isWhitespace_of_isDigits {t : Text} (h : isDigits t = true) :
    ∀ c ∈ t, isWhitespace c = false := by
  rw [isDigits, Bool.and_eq_true, List.all_eq_true] at h
  exact fun c hc ↦ isWhitespace_of_isDigit (h.2 c hc)

/-- The characters of a port spec are no white space. -/
private theorem isWhitespace_of_countSpec {spec : Text} {n : Nat} (h : countSpec spec = some n) :
    ∀ c ∈ spec, isWhitespace c = false := by
  unfold countSpec at h
  split at h
  · next a b hsplit =>
    dsimp only at h
    split at h
    · next hok =>
      simp only [Bool.and_eq_true] at hok
      obtain ⟨hspec, -⟩ := splitOnce_eq_some.mp hsplit
      intro c hc
      rw [hspec] at hc
      rcases List.mem_append.mp hc with hc | hc
      · exact isWhitespace_of_isDigits hok.1.1.1.1 c hc
      · rcases List.mem_cons.mp hc with rfl | hc
        · rfl
        · exact isWhitespace_of_isDigits hok.1.1.1.2 c hc
    · cases h
  · split at h
    · next hok =>
      simp only [Bool.and_eq_true] at hok
      exact isWhitespace_of_isDigits hok.1.1
    · cases h

/-- The fields of a line are among what it is split into. -/
private theorem fieldsBy_sublist (line : Text) : (fieldsBy isSpace line).Sublist (fields line) :=
  (List.sublist_append_right _ _).trans (List.sublist_append_left _ _)

/-- A line that is counted has at most two words. -/
private theorem length_words_of_countLine {line : Text} {n : Nat} (h : countLine line = some n) :
    (words (before '#' line)).length ≤ 2 := by
  unfold countLine at h
  dsimp only at h
  split at h
  · next hblank =>
    rw [List.all_eq_true] at hblank
    rw [words_eq_fieldsBy, fieldsBy_blank (fun c hc ↦ isWhitespace_of_isSpace (hblank c hc))]
    exact Nat.zero_le _
  · have hshort : (fields (before '#' line)).length ≤ 2 ∧
        ∀ f ∈ fields (before '#' line), ∀ c ∈ f, isWhitespace c = false := by
      split at h
      · next spec hfields =>
        rw [hfields]
        refine ⟨Nat.le_succ _, fun f hf ↦ ?_⟩
        rw [List.mem_singleton.mp hf]
        exact isWhitespace_of_countSpec h
      · next spec tls hfields =>
        rw [hfields]
        split at h
        · next htls =>
          refine ⟨Nat.le_refl _, fun f hf ↦ ?_⟩
          rcases List.mem_cons.mp hf with rfl | hf
          · exact isWhitespace_of_countSpec h
          · rw [List.mem_singleton.mp hf, htls]
            decide
        · cases h
      · cases h
    have hsub := fieldsBy_sublist (before '#' line)
    rw [words_eq_fieldsBy, fieldsBy_congr (fun c hc ↦ isWhitespace_of_isSpace hc)
      (fun f hf ↦ hshort.2 f (hsub.subset hf))]
    exact hsub.length_le.trans hshort.1

/-- A line of the loader is one of `awk` but for a carriage return at its end. -/
private theorem exists_readLine {text line : Text} (h : line ∈ lines text) :
    ∃ raw ∈ readLines text, raw = line ∨ raw = line ++ ['\r'] := by
  rcases List.mem_append.mp h with h | h
  · obtain ⟨raw, hraw, hstrip⟩ := List.mem_map.mp h
    have hline : (if raw.getLast? = some '\r' then raw.dropLast else raw) = line := hstrip
    refine ⟨raw, List.mem_append_left _ hraw, ?_⟩
    split at hline
    · next hcr =>
      obtain ⟨body, rfl⟩ := List.getLast?_eq_some_iff.mp hcr
      rw [List.dropLast_concat] at hline
      exact .inr (by rw [hline])
    · exact .inl hline
  · exact ⟨line, List.mem_append_right _ h, .inl rfl⟩

/-- A carriage return at the end of a line is no part of its words. -/
private theorem words_stripComment {raw line : Text} (h : raw = line ∨ raw = line ++ ['\r']) :
    words (stripComment line) = words (before '#' raw) := by
  rw [stripComment, ← words_of_padded (padded_trim (before '#' line))]
  rcases h with rfl | rfl
  · rfl
  · by_cases hhash : '#' ∈ line
    · obtain ⟨hline, hu⟩ := splitOnce_eq_some.mp (if_pos hhash)
      rw [hline, List.append_assoc, List.cons_append, before_append hu, before_append hu]
      rfl
    · have hcr : '#' ∉ line ++ ['\r'] := by
        rw [List.mem_append, not_or]
        exact ⟨hhash, by decide⟩
      rw [before_eq_self hhash, before_eq_self hcr, words_eq_fieldsBy, words_eq_fieldsBy,
        fieldsBy_append_cons (by decide), fieldsBy_nil, List.append_nil]

private theorem exists_of_mapM {α β : Type} {f : α → Option β} {l : List α} {bs : List β}
    (h : l.mapM f = some bs) : ∀ a ∈ l, ∃ b, f a = some b := by
  induction l generalizing bs with
  | nil => nofun
  | cons a l ih =>
    rw [List.mapM_cons] at h
    obtain ⟨b, hb, h⟩ := Option.bind_eq_some_iff.mp h
    obtain ⟨rest, hrest, -⟩ := Option.bind_eq_some_iff.mp h
    intro x hx
    rcases List.mem_cons.mp hx with rfl | hx
    · exact ⟨b, hb⟩
    · exact ih hrest x hx

/-- A file that the recovery script finds valid is one the loader reads no port from. -/
theorem load_of_validText {text : Text} {policy : Policy} {d : DesiredPorts}
    (hvalid : validText text = true) (hload : loadFromReaderWithPolicy text policy = .ok d) :
    d = ∅ := by
  obtain ⟨hwell, -, -, rfl⟩ := load_eq_ok_iff_union.mp hload
  have hcounts : ∀ raw ∈ readLines text, ∃ n, countLine raw = some n := by
    unfold validText at hvalid
    split at hvalid
    · next counts hmap => exact exists_of_mapM hmap
    · cases hvalid
  have hentries : entries text = [] := by
    rw [entries, List.flatMap_eq_nil_iff]
    intro line hline
    obtain ⟨raw, hraw, heq⟩ := exists_readLine hline
    by_cases hblank : stripComment line = []
    · exact lineEntries_blank hblank
    · obtain ⟨spec, tenant, site, tokens, ports, hwords, -, -⟩ := hwell line hline hblank
      have hcounted := hcounts raw hraw
      obtain ⟨n, hn⟩ := hcounted
      have htwo := length_words_of_countLine hn
      rw [← words_stripComment heq, hwords] at htwo
      exact absurd htwo (by simp)
  rw [union, hentries]
  rfl

theorem load_of_validText_comment :
    validText "# none\n".toList = true ∧
      ∃ d, loadFromReaderWithPolicy "# none\n".toList Policy.default = .ok d ∧ d = ∅ := by
  have hvalid : validText "# none\n".toList = true := by decide +kernel
  have hload : loadFromReaderWithPolicy "# none\n".toList Policy.default = .ok ∅ := by rfl
  exact ⟨hvalid, ∅, hload, load_of_validText hvalid hload⟩

end SkLookup.Recovery
