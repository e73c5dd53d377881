import Tlscap.Keylog.Model

/-!
# A keylog file that grows

The file is only ever appended to, by whole lines.  Parsing what is there after
an append continues from the keylog of what was there before (`parse_append`), so
the facts about growth are facts about one more line, and an induction over the
lines:

* **A line of the session** binds one of its labels to the session's secret
  (`secretFor_addLine`).
* **Any other line** leaves the secrets of the session alone.

So a secret that the file binds stays bound as long as nothing binds its label to
another value (`foldl_addLine`).  A reader of the file has at any time what it had
or what it has just read (`reloadIfChanged_current` and the lemmas behind it).
-/

namespace Tlscap

namespace Keylog

/-- Text that ends where a line ends. -/
def WholeLines (text : Text) : Prop := text = [] ∨ ∃ start, text = start ++ ['\n']

theorem wholeLines_append (text more : Text) : WholeLines (text ++ (more ++ ['\n'])) :=
  .inr ⟨text ++ more, by rw [List.append_assoc]⟩

theorem lines_append_newline (start more : Text) :
    lines (start ++ '\n' :: more) = lines (start ++ ['\n']) ++ lines more := by
  induction start with
  | nil => simp [lines]
  | cons c rest ih =>
      rw [List.cons_append, List.cons_append, lines, lines, ih]
      by_cases hc : c = '\n'
      · rw [if_pos hc, if_pos hc, List.cons_append]
      · rw [if_neg hc, if_neg hc]
        cases hlines : lines (rest ++ ['\n']) with
        | cons line others => rfl
        | nil =>
            -- a text that is not empty has a line
            cases rest with
            | nil => simp [lines] at hlines
            | cons d rest =>
                rw [List.cons_append, lines] at hlines
                split at hlines
                · cases hlines
                · split at hlines <;> cases hlines

/-- Appending to whole lines continues the parse. -/
theorem parse_append (hexDecode : Text → Option Bytes) {text : Text} (htext : WholeLines text)
    (more : Text) :
    parse hexDecode (text ++ more) =
      (lines more).foldl (addLine hexDecode) (parse hexDecode text) := by
  rcases htext with rfl | ⟨start, rfl⟩
  · rfl
  · rw [parse, parse, List.append_assoc, List.singleton_append, lines_append_newline,
      List.foldl_append]

/-- A line that binds nothing of the client random and label leaves their secret
alone; one that does, replaces it. -/
theorem secretFor_addLine (hexDecode : Text → Option Bytes) (keylog : Keylog) (line : Text)
    (clientRandom : Bytes) (label : SecretLabel) :
    (∃ secret, parseLine hexDecode line = some (clientRandom, label, secret) ∧
        (keylog.addLine hexDecode line).secretFor clientRandom label = some secret) ∨
      (keylog.addLine hexDecode line).secretFor clientRandom label =
        keylog.secretFor clientRandom label := by
  unfold addLine
  cases hline : parseLine hexDecode line with
  | none => exact .inr rfl
  | some bound =>
      obtain ⟨boundRandom, boundLabel, secret⟩ := bound
      by_cases hsame : (clientRandom, label) = (boundRandom, boundLabel)
      · cases hsame
        exact .inl ⟨secret, rfl, AList.lookup_insert _⟩
      · exact .inr (AList.lookup_insert_ne hsame)

/-- The lines bind the labels of a client random to its secrets only. -/
def LinesBindOnly (hexDecode : Text → Option Bytes) (clientRandom : Bytes)
    (secrets : SecretLabel → Option Bytes) (text : Text) : Prop :=
  ∀ line ∈ lines text, ∀ label secret,
    parseLine hexDecode line = some (clientRandom, label, secret) → secrets label = some secret

/-- Over lines that bind only the session's secrets, what the keylog binds stays
bound, and everything bound is a secret of the session. -/
theorem foldl_addLine {clientRandom : Bytes} {secrets : SecretLabel → Option Bytes}
    {newLines : List Text}
    (hlines : ∀ line ∈ newLines, ∀ label secret,
      parseLine hexDecode line = some (clientRandom, label, secret) → secrets label = some secret)
    {keylog : Keylog}
    (hbinds : ∀ label secret, keylog.secretFor clientRandom label = some secret →
      secrets label = some secret) (label : SecretLabel) :
    ((keylog.secretFor clientRandom label).isSome →
        ((newLines.foldl (addLine hexDecode) keylog).secretFor clientRandom label).isSome) ∧
      ∀ secret,
        (newLines.foldl (addLine hexDecode) keylog).secretFor clientRandom label = some secret →
        secrets label = some secret := by
  induction newLines generalizing keylog with
  | nil => exact ⟨id, hbinds label⟩
  | cons line rest ih =>
      have hrest := fun other hother => hlines other (List.mem_cons_of_mem line hother)
      have hadd : ∀ label secret, (keylog.addLine hexDecode line).secretFor clientRandom label =
          some secret → secrets label = some secret := by
        intro label secret hsecret
        rcases keylog.secretFor_addLine hexDecode line clientRandom label with
          ⟨bound, hline, hbound⟩ | hsame
        · rw [hbound, Option.some.injEq] at hsecret
          subst hsecret
          exact hlines line List.mem_cons_self label bound hline
        · rw [hsame] at hsecret
          exact hbinds label secret hsecret
      -- the line replaces a secret or leaves it; it removes none
      obtain ⟨hkept, honly⟩ := ih hrest hadd
      refine ⟨fun hsome => hkept ?_, honly⟩
      rcases keylog.secretFor_addLine hexDecode line clientRandom label with
        ⟨bound, _, hbound⟩ | hsame
      · rw [hbound]
        rfl
      · rwa [hsame]

end Keylog

namespace KeylogSource

variable (hexDecode : Text → Option Bytes)

/-- Reloading yields the keylog there was, or the parsed contents. -/
theorem reloadIfChanged_current (source : KeylogSource) (readings : ReloadReadings) :
    (source.reloadIfChanged hexDecode readings).current = source.current ∨
      ∃ text, readings.contents = some text ∧
        (source.reloadIfChanged hexDecode readings).current = Keylog.parse hexDecode text := by
  unfold reloadIfChanged
  split
  · cases hcontents : readings.contents with
    | none => exact .inl rfl
    | some text => exact .inr ⟨text, rfl, rfl⟩
  · exact .inl rfl

theorem poll_current (source : KeylogSource) (now : Instant) (readings : ReloadReadings) :
    (source.poll hexDecode now readings).current = source.current ∨
      ∃ text, readings.contents = some text ∧
        (source.poll hexDecode now readings).current = Keylog.parse hexDecode text := by
  unfold poll
  split
  · exact source.reloadIfChanged_current hexDecode readings
  · exact .inl rfl

theorem pollAfterMiss_current (source : KeylogSource) (signature : Signature)
    (readings : ReloadReadings) :
    (source.pollAfterMiss hexDecode signature readings).current = source.current ∨
      ∃ text, readings.contents = some text ∧
        (source.pollAfterMiss hexDecode signature readings).current =
          Keylog.parse hexDecode text := by
  unfold pollAfterMiss
  split
  · exact source.reloadIfChanged_current hexDecode readings
  · exact .inl rfl

variable {hexDecode} in
/-- Opening parses what is in the file, or nothing if there is no file. -/
theorem openPath_current {contents : Except ReadError Text} {signature : Signature}
    {reloadInterval : Duration} {now : Instant} {source : KeylogSource}
    (hopen : openPath hexDecode contents signature reloadInterval now = .ok source) :
    ∃ text, (contents = .ok text ∨ contents = .error .notFound ∧ text = []) ∧
      source.current = Keylog.parse hexDecode text := by
  unfold openPath at hopen
  split at hopen
  · cases hopen
    exact ⟨_, .inl rfl, rfl⟩
  · cases hopen
    exact ⟨[], .inr ⟨rfl, rfl⟩, rfl⟩
  · cases hopen

end KeylogSource

end Tlscap
