import Tlscap.Program.Model
import Tlscap.Rotation.Cutting

/-!
# The outputs on their own

The two outputs by name: lines are put to the one or the other, which writes them to its
files or to the standard output.

The outputs to files are writers that share the disk (`Outputs.Shares`), so that what is
known of such writers holds of them.  This is kept by every line and by finishing:

* **A line for an output to files** is one call of its writer (`Shares.put`).
* **A line for the standard output** is appended to what was printed, and leaves the writers
  and the disk alone.
* **A line for an output there is not** is dropped.

So the files depend on the lines for files alone (`Outputs.toFiles`), and what is printed on
the others (`Outputs.printed`), each in the order the lines come in.
-/

namespace Tlscap

/-- The outputs by name, and what they write to.  The packet log is the one named `true`. -/
structure Outputs (gzip : Gzip) where
  byName : Bool → Option (Output gzip)
  world : World

/-- The output writes to files. -/
def Output.rotates {gzip : Gzip} : Output gzip → Bool
  | stdout => false
  | rotating _ => true

namespace Outputs

variable {gzip : Gzip}

/-- Whether an output writes to files, if there is one of this name. -/
def kind (outputs : Outputs gzip) (name : Bool) : Option Bool :=
  (outputs.byName name).map Output.rotates

/-- Writes a line to the output of its name, if there is one. -/
def put (outputs : Outputs gzip) (line : Bool × Written) : Outputs gzip :=
  match outputs.byName line.1 with
  | none => outputs
  | some output =>
      let next := output.write outputs.world line.2.data line.2.readings
      ⟨Function.update outputs.byName line.1 (some next.1), next.2⟩

/-- Finishes an output, if there is one of this name. -/
def close (outputs : Outputs gzip) (name : Bool) : Outputs gzip :=
  match outputs.byName name with
  | none => outputs
  | some output =>
      let next := output.finish outputs.world
      ⟨Function.update outputs.byName name (some next.1), next.2⟩

/-- The outputs to files are writers that share the disk. -/
structure Shares (outputs : Outputs gzip) (shared : SharedDisk Bool gzip) : Prop where
  disk : outputs.world.disk = shared.disk
  writer : ∀ name writer, outputs.byName name = some (.rotating writer) →
    shared.writers name = writer

variable {outputs : Outputs gzip} {shared : SharedDisk Bool gzip}

theorem kind_put (outputs : Outputs gzip) (line : Bool × Written) :
    (outputs.put line).kind = outputs.kind := by
  unfold put
  cases houtput : outputs.byName line.1 with
  | none => rfl
  | some output =>
      funext name
      unfold kind
      dsimp only
      by_cases hname : name = line.1
      · rw [hname, Function.update_self, houtput]
        cases output <;> rfl
      · rw [Function.update_of_ne hname]

theorem kind_foldl_put (outputs : Outputs gzip) (lines : List (Bool × Written)) :
    (lines.foldl put outputs).kind = outputs.kind := by
  induction lines generalizing outputs with
  | nil => rfl
  | cons line rest ih => exact (ih (outputs.put line)).trans (kind_put outputs line)

/-- One call of a writer. -/
theorem Shares.call (h : outputs.Shares shared) {name : Bool} {writer : RotatingGzWriter gzip}
    (houtput : outputs.byName name = some (.rotating writer)) (call : RotationCall) :
    Shares
      ⟨Function.update outputs.byName name
          (some (.rotating (rotationStep (writer, outputs.world.disk) call).1)),
        { outputs.world with disk := (rotationStep (writer, outputs.world.disk) call).2 }⟩
      (shared.step (name, call)) := by
  unfold SharedDisk.step
  rw [h.disk, h.writer name writer houtput]
  refine ⟨rfl, fun other otherWriter hother => ?_⟩
  dsimp only at hother ⊢
  by_cases hname : other = name
  · subst hname
    rw [Function.update_self] at hother ⊢
    cases hother
    rfl
  · rw [Function.update_of_ne hname] at hother ⊢
    exact h.writer other otherWriter hother

/-- A line goes to the files of its output or to the standard output. -/
theorem Shares.put (h : outputs.Shares shared) (line : Bool × Written) :
    (outputs.put line).Shares
        (if outputs.kind line.1 = some true then shared.step (line.1, line.2.call) else shared) ∧
      (outputs.put line).world.stdout = outputs.world.stdout ++
        if outputs.kind line.1 = some false then line.2.data else [] := by
  unfold Outputs.put kind
  cases houtput : outputs.byName line.1 with
  | none => exact ⟨h, (List.append_nil _).symm⟩
  | some output =>
      cases output with
      | stdout =>
          refine ⟨⟨h.disk, fun other writer hother => ?_⟩, rfl⟩
          dsimp only [Output.write] at hother
          by_cases hname : other = line.1
          · subst hname
            rw [Function.update_self] at hother
            cases hother
          · rw [Function.update_of_ne hname] at hother
            exact h.writer other writer hother
      | rotating writer => exact ⟨h.call houtput line.2.call, (List.append_nil _).symm⟩

/-- Finishing an output finishes its files. -/
theorem Shares.close (h : outputs.Shares shared) (name : Bool) :
    (outputs.close name).Shares
        (if outputs.kind name = some true then shared.step (name, .finishCurrent) else shared) ∧
      (outputs.close name).world.stdout = outputs.world.stdout ∧
      (outputs.close name).kind = outputs.kind := by
  unfold Outputs.close kind
  cases houtput : outputs.byName name with
  | none => exact ⟨h, rfl, rfl⟩
  | some output =>
      have hkind : ∀ next : Output gzip, next.rotates = output.rotates →
          (fun other => (Function.update outputs.byName name (some next) other).map
            Output.rotates) = fun other => (outputs.byName other).map Output.rotates := by
        intro next hnext
        funext other
        by_cases hname : other = name
        · rw [hname, Function.update_self, houtput, Option.map_some, Option.map_some, hnext]
        · rw [Function.update_of_ne hname]
      cases output with
      | stdout =>
          refine ⟨⟨h.disk, fun other writer hother => ?_⟩, rfl, hkind _ rfl⟩
          dsimp only [Output.finish] at hother
          by_cases hname : other = name
          · subst hname
            rw [Function.update_self] at hother
            cases hother
          · rw [Function.update_of_ne hname] at hother
            exact h.writer other writer hother
      | rotating writer => exact ⟨h.call houtput .finishCurrent, rfl, hkind _ rfl⟩

/-- The lines for the files, and those for the standard output. -/
def toFiles (outputs : Outputs gzip) (lines : List (Bool × Written)) : List (Bool × Written) :=
  lines.filter fun line => outputs.kind line.1 = some true

/-- What the lines for the standard output come to. -/
def printed (outputs : Outputs gzip) (lines : List (Bool × Written)) : Bytes :=
  (lines.filter fun line => outputs.kind line.1 = some false).flatMap fun line => line.2.data

/-- Lines one after another. -/
theorem Shares.puts (h : outputs.Shares shared) (lines : List (Bool × Written)) :
    (lines.foldl Outputs.put outputs).Shares
        (shared.run ((outputs.toFiles lines).map fun line => (line.1, line.2.call))) ∧
      (lines.foldl Outputs.put outputs).world.stdout =
        outputs.world.stdout ++ outputs.printed lines := by
  induction lines generalizing outputs shared with
  | nil => exact ⟨h, (List.append_nil _).symm⟩
  | cons line rest ih =>
      obtain ⟨hnow, hprinted⟩ := h.put line
      obtain ⟨hlater, hrest⟩ := ih hnow
      have hkind := kind_put outputs line
      unfold toFiles at hlater ⊢
      unfold printed at hrest ⊢
      rw [hkind] at hlater hrest
      refine ⟨?_, ?_⟩
      · rw [List.foldl_cons, List.filter_cons]
        by_cases hfiles : outputs.kind line.1 = some true
        · rw [if_pos hfiles] at hlater
          rw [if_pos (decide_eq_true hfiles)]
          exact hlater
        · rw [if_neg hfiles] at hlater
          rw [if_neg (by rw [decide_eq_true_eq]; exact hfiles)]
          exact hlater
      · rw [List.foldl_cons, hrest, hprinted, List.append_assoc, List.filter_cons]
        by_cases hstdout : outputs.kind line.1 = some false
        · rw [if_pos hstdout, if_pos (decide_eq_true hstdout), List.flatMap_cons]
        · rw [if_neg hstdout, if_neg (by rw [decide_eq_true_eq]; exact hstdout), List.nil_append]

/-- Both outputs finished, the messages first. -/
theorem Shares.closes (h : outputs.Shares shared) :
    ((outputs.close false).close true).Shares
        (shared.run (([false, true].filter fun name => outputs.kind name = some true).map
          fun name => (name, .finishCurrent))) ∧
      ((outputs.close false).close true).world.stdout = outputs.world.stdout := by
  obtain ⟨hfirst, hstdout, hkind⟩ := h.close false
  obtain ⟨hsecond, hsame, -⟩ := hfirst.close true
  rw [hkind] at hsecond
  refine ⟨?_, hsame.trans hstdout⟩
  rw [List.filter_cons, List.filter_cons, List.filter_nil]
  by_cases hfalse : outputs.kind false = some true <;>
    by_cases htrue : outputs.kind true = some true <;>
      simpa [hfalse, htrue, SharedDisk.run] using hsecond

end Outputs

end Tlscap
