import Tlscap.Keylog.Growth
import Tlscap.Tls.Recording
import Mathlib.Data.List.DropRight

/-!
# A keylog read in the middle of a write

What has been written of a keylog is a prefix of it.  Its complete lines are lines
of the keylog; the rest is the beginning of one, and is parsed as if it were a line.
A secret that is not in the keylog can only come from there.

## Strategy

A text is cut behind its last line end (`finished`, `unfinished`).  The complete lines
of a prefix are complete lines of the whole (`mem_lines_of_prefix`), so what they bind
is no invention.  A lookup finds the last secret that is bound (`secretFor_parse`), and
the rest comes last (`secretFor_written`), which leaves three cases for a key:

* **The rest binds nothing of it**: the complete lines decide.
* **The rest binds what a complete line of the text binds**, and the complete lines
  before it bind nothing else: the cut does not show.
* **The rest binds another secret**, such as half of the one that is being written: it
  is found, though no line of the text binds it.

The first two are `RestAgrees`, which is exactly that nothing is invented
(`neverInvents_iff`).
-/

namespace Tlscap

namespace Keylog

/-! ## The complete lines and the rest -/

/-- The text up to its last line end. -/
def finished (text : Text) : Text := text.rdropWhile (· ≠ '\n')

/-- What follows the last line end. -/
def unfinished (text : Text) : Text := text.rtakeWhile (· ≠ '\n')

theorem finished_append_unfinished (text : Text) : finished text ++ unfinished text = text :=
  List.rdropWhile_append_rtakeWhile

theorem wholeLines_finished (text : Text) : WholeLines (finished text) := by
  by_cases hempty : finished text = []
  · exact .inl hempty
  · have hlast := List.rdropWhile_last_not _ text hempty
    refine .inr ⟨(finished text).dropLast, ?_⟩
    have hnewline : (finished text).getLast hempty = '\n' :=
      of_not_not fun hne => hlast (decide_eq_true hne)
    rw [← hnewline, List.dropLast_concat_getLast]

theorem newline_not_mem_unfinished (text : Text) : '\n' ∉ unfinished text := by
  intro hmem
  have hne := List.mem_rtakeWhile_imp hmem
  simp at hne

theorem finished_of_wholeLines {text : Text} (htext : WholeLines text) :
    finished text = text := by
  rcases htext with rfl | ⟨start, rfl⟩
  · rfl
  · rw [finished, List.rdropWhile_concat_neg]
    simp

/-- What is complete stays complete when more is written behind it. -/
theorem finished_append {text : Text} (htext : WholeLines text) (more : Text) :
    finished (text ++ more) = text ++ finished more := by
  induction more using List.reverseRecOn with
  | nil =>
      rw [List.append_nil, finished_of_wholeLines htext]
      exact (List.append_nil text).symm
  | append_singleton more c ih =>
      simp only [finished] at ih ⊢
      rw [← List.append_assoc, List.rdropWhile_concat, List.rdropWhile_concat, ih]
      split_ifs with hc
      · rfl
      · rw [List.append_assoc]

/-- Text without a line end is one line, unless it is empty. -/
theorem lines_of_not_mem {text : Text} (htext : '\n' ∉ text) :
    lines text = if text = [] then [] else [text] := by
  induction text with
  | nil => rfl
  | cons c rest ih =>
      rw [List.mem_cons, not_or] at htext
      rw [lines, if_neg (Ne.symm htext.1), ih htext.2, if_neg (List.cons_ne_nil c rest)]
      cases rest with
      | nil => rfl
      | cons d rest => rw [if_neg (List.cons_ne_nil d rest)]

theorem lines_append {text : Text} (htext : WholeLines text) (more : Text) :
    lines (text ++ more) = lines text ++ lines more := by
  rcases htext with rfl | ⟨start, rfl⟩
  · rfl
  · rw [List.append_assoc, List.singleton_append, lines_append_newline]

variable {hexDecode : Text → Option Bytes}

theorem parseLine_nil : parseLine hexDecode [] = none := by
  simp [parseLine, trimLineEnd]

/-- The rest is parsed as one more line. -/
theorem parse_eq_addLine (text : Text) :
    parse hexDecode text =
      (parse hexDecode (finished text)).addLine hexDecode (unfinished text) := by
  have hparse := parse_append hexDecode (wholeLines_finished text) (unfinished text)
  rw [finished_append_unfinished, lines_of_not_mem (newline_not_mem_unfinished text)] at hparse
  rw [hparse]
  split_ifs with hempty
  · rw [hempty, addLine, parseLine_nil]
    rfl
  · rfl

/-- The complete lines of a prefix are complete lines of the text. -/
theorem mem_lines_of_prefix {text written line : Text} (hwritten : written <+: text)
    (hline : line ∈ lines (finished written)) : line ∈ lines (finished text) := by
  obtain ⟨more, rfl⟩ := hwritten
  rw [← finished_append_unfinished written, List.append_assoc,
    finished_append (wholeLines_finished written), lines_append (wholeLines_finished written)]
  exact List.mem_append_left _ hline

/-! ## What lines bind -/

/-- The secret a line binds to a client random and label. -/
def boundBy (hexDecode : Text → Option Bytes) (clientRandom : Bytes) (label : SecretLabel)
    (line : Text) : Option Bytes :=
  match parseLine hexDecode line with
  | some (boundRandom, boundLabel, secret) =>
      if boundRandom = clientRandom ∧ boundLabel = label then some secret else none
  | none => none

/-- The secret that lines give a client random and label: the last one bound. -/
def lastSecret (hexDecode : Text → Option Bytes) (lines : List Text) (clientRandom : Bytes)
    (label : SecretLabel) : Option Bytes :=
  (lines.filterMap (boundBy hexDecode clientRandom label)).getLast?

variable {clientRandom : Bytes} {label : SecretLabel} {line : Text} {secret : Bytes}

theorem boundBy_eq_some :
    boundBy hexDecode clientRandom label line = some secret ↔
      parseLine hexDecode line = some (clientRandom, label, secret) := by
  unfold boundBy
  cases parseLine hexDecode line with
  | none => simp
  | some bound =>
      obtain ⟨boundRandom, boundLabel, boundSecret⟩ := bound
      simp [and_assoc]

theorem secretFor_addLine_eq (keylog : Keylog) (line : Text) (clientRandom : Bytes)
    (label : SecretLabel) :
    (keylog.addLine hexDecode line).secretFor clientRandom label =
      (boundBy hexDecode clientRandom label line).or (keylog.secretFor clientRandom label) := by
  unfold addLine boundBy
  cases parseLine hexDecode line with
  | none => rfl
  | some bound =>
      obtain ⟨boundRandom, boundLabel, boundSecret⟩ := bound
      by_cases hsame : boundRandom = clientRandom ∧ boundLabel = label
      · obtain ⟨rfl, rfl⟩ := hsame
        simp only [and_self, if_true, Option.some_or]
        exact AList.lookup_insert _
      · simp only [if_neg hsame, Option.none_or]
        apply AList.lookup_insert_ne
        rintro hkey
        cases hkey
        exact hsame ⟨rfl, rfl⟩

theorem secretFor_foldl_addLine (newLines : List Text) (keylog : Keylog) :
    (newLines.foldl (addLine hexDecode) keylog).secretFor clientRandom label =
      (lastSecret hexDecode newLines clientRandom label).or
        (keylog.secretFor clientRandom label) := by
  induction newLines generalizing keylog with
  | nil => rfl
  | cons line rest ih =>
      rw [List.foldl_cons, ih, secretFor_addLine_eq, lastSecret, lastSecret, List.filterMap_cons]
      cases hbound : boundBy hexDecode clientRandom label line with
      | none => rw [Option.none_or]
      | some secret =>
          rw [List.getLast?_cons, ← Option.or_assoc]
          cases hlast : (rest.filterMap (boundBy hexDecode clientRandom label)).getLast? with
          | none => rfl
          | some last => rfl

/-- Looking a secret up finds the last one bound. -/
theorem secretFor_parse (text : Text) :
    (parse hexDecode text).secretFor clientRandom label =
      lastSecret hexDecode (lines text) clientRandom label := by
  rw [parse, secretFor_foldl_addLine]
  exact Option.or_none

/-! ## A prefix of the file -/

/-- Reading what has been written invents nothing: every secret is bound by a complete
line of the text, and what the complete lines of what has been written bind is found
as they bind it. -/
structure NeverInvents (hexDecode : Text → Option Bytes) (text written : Text) : Prop where
  bound : ∀ clientRandom label secret,
    (parse hexDecode written).secretFor clientRandom label = some secret →
      ∃ line ∈ lines (finished text),
        parseLine hexDecode line = some (clientRandom, label, secret)
  kept : ∀ clientRandom label secret,
    lastSecret hexDecode (lines (finished written)) clientRandom label = some secret →
      (parse hexDecode written).secretFor clientRandom label = some secret

/-- If what has been written of the last line parses as a line, it binds what a complete
line of the text binds, and the complete lines before it bind nothing else in its place. -/
def RestAgrees (hexDecode : Text → Option Bytes) (text written : Text) : Prop :=
  ∀ clientRandom label secret,
    parseLine hexDecode (unfinished written) = some (clientRandom, label, secret) →
      (∃ line ∈ lines (finished text),
          parseLine hexDecode line = some (clientRandom, label, secret)) ∧
        ∀ earlier ∈ lastSecret hexDecode (lines (finished written)) clientRandom label,
          earlier = secret

theorem exists_line_of_lastSecret {lineList : List Text}
    (h : lastSecret hexDecode lineList clientRandom label = some secret) :
    ∃ line ∈ lineList, parseLine hexDecode line = some (clientRandom, label, secret) := by
  obtain ⟨line, hline, hbound⟩ := List.mem_filterMap.mp (List.mem_of_getLast? h)
  exact ⟨line, hline, boundBy_eq_some.mp hbound⟩

/-- The complete lines are read as they are; the last line, as much as there is of it. -/
theorem secretFor_written (written : Text) (clientRandom : Bytes) (label : SecretLabel) :
    (parse hexDecode written).secretFor clientRandom label =
      (boundBy hexDecode clientRandom label (unfinished written)).or
        (lastSecret hexDecode (lines (finished written)) clientRandom label) := by
  rw [parse_eq_addLine, secretFor_addLine_eq, secretFor_parse]

/-- A keylog read in the middle of a write invents a secret exactly when the part of
the last line that is there binds one that the whole lines do not. -/
theorem neverInvents_iff (hexDecode : Text → Option Bytes) (text written : Text)
    (hwritten : written <+: text) :
    NeverInvents hexDecode text written ↔ RestAgrees hexDecode text written := by
  constructor
  · intro hnever clientRandom label secret hrest
    -- what the last line binds is read already, whole or not
    have hsecret : (parse hexDecode written).secretFor clientRandom label = some secret := by
      rw [secretFor_written, boundBy_eq_some.mpr hrest, Option.some_or]
    refine ⟨hnever.bound clientRandom label secret hsecret, fun earlier hearlier => ?_⟩
    have hkept := hnever.kept clientRandom label earlier hearlier
    rw [hsecret, Option.some.injEq] at hkept
    exact hkept.symm
  · intro hagrees
    constructor
    · intro clientRandom label secret hsecret
      rw [secretFor_written] at hsecret
      cases hrest : boundBy hexDecode clientRandom label (unfinished written) with
      | some bound =>
          rw [hrest, Option.some_or, Option.some.injEq] at hsecret
          subst hsecret
          exact (hagrees clientRandom label bound (boundBy_eq_some.mp hrest)).1
      | none =>
          rw [hrest, Option.none_or] at hsecret
          obtain ⟨line, hline, hbound⟩ := exists_line_of_lastSecret hsecret
          exact ⟨line, mem_lines_of_prefix hwritten hline, hbound⟩
    · intro clientRandom label secret hsecret
      rw [secretFor_written]
      cases hrest : boundBy hexDecode clientRandom label (unfinished written) with
      | some bound =>
          have hsame := (hagrees clientRandom label bound (boundBy_eq_some.mp hrest)).2
            secret hsecret
          rw [Option.some_or, hsame]
      | none => rw [Option.none_or, hsecret]

/-! ## A master secret of two bytes -/

namespace HalfLine

/-- A keylog of one line, which a writer may be in the middle of. -/
def text : Text := "CLIENT_RANDOM aa bbcc\n".toList

/-- Cut behind the first byte of the secret. -/
def halfSecret : Text := "CLIENT_RANDOM aa bb".toList

/-- Cut within a byte of the secret. -/
def oddDigits : Text := "CLIENT_RANDOM aa bbc".toList

/-- The first byte of the secret is taken for all of it. -/
theorem half_secret_invented :
    ¬ ∀ text written : Text, written <+: text → NeverInvents Recording.hexDecode text written := by
  intro hnever
  have hinvented :
      (parse Recording.hexDecode halfSecret).secretFor [0xaa] .clientRandom = some [0xbb] := by
    decide +kernel
  obtain ⟨line, hline, hbound⟩ := (hnever text halfSecret ⟨"cc\n".toList, by decide⟩).bound
    [0xaa] .clientRandom [0xbb] hinvented
  have hlines : lines (finished text) = ["CLIENT_RANDOM aa bbcc".toList] := by decide +kernel
  rw [hlines, List.mem_singleton] at hline
  subst hline
  revert hbound
  decide +kernel

/-- Half a byte is not parsed. -/
theorem odd_digits_ignored : NeverInvents Recording.hexDecode text oddDigits := by
  apply (neverInvents_iff Recording.hexDecode text oddDigits ⟨"c\n".toList, by decide⟩).mpr
  have hrest : parseLine Recording.hexDecode (unfinished oddDigits) = none := by decide +kernel
  intro clientRandom label secret hbound
  rw [hrest] at hbound
  cases hbound

end HalfLine

end Keylog

end Tlscap
