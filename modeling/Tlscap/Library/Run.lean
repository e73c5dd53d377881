import Mathlib.Data.List.Basic

/-!
# Runs of a machine

A machine takes an input in a state and returns the next state with an output.
`run` collects the outputs of a list of inputs.  What one step preserves, or
computes under an abstraction, a run does too.

## Strategy

A fact about runs is a fact about one step and an induction, and the induction is made
here, once for each kind of fact:

* **Invariants.**  What every step preserves holds at the end (`run_preserves`), if need
  be on inputs that meet a condition (`run_preserves_on`).
* **Refinement.**  Where every step computes what an abstract step computes on the
  abstracted state, so does the run (`run_refines`).
* **Conditions on the way.**  `Throughout` says that each step meets a condition on the
  state it starts in; an invariant gives it for every input (`throughout_of_invariant`).
* **What steps are made of.**  `collect` gathers what is seen at each step, such as its
  records; what holds of all of it holds throughout (`throughout_of_collect`).
* **Parts.**  Inputs of others may be left out, if they leave alone the part of the state
  that the owner's inputs act on: for what is collected (`collect_filter`), for where the
  run ends (`run_filter`), and for what is put out (`observe_filter`).
-/

namespace Machine

variable {σ τ ι ο : Type*}

/-- Feeds the inputs in order: the last state, and the output of every step. -/
def run (step : σ → ι → σ × ο) : σ → List ι → σ × List ο
  | state, [] => (state, [])
  | state, input :: rest =>
      let next := step state input
      let final := run step next.1 rest
      (final.1, next.2 :: final.2)

/-- Every step of a run meets a condition on its state and input. -/
def Throughout (step : σ → ι → σ × ο) (holds : σ → ι → Prop) : σ → List ι → Prop
  | _, [] => True
  | state, input :: rest =>
      holds state input ∧ Throughout step holds (step state input).1 rest

instance decidableThroughout (step : σ → ι → σ × ο) (holds : σ → ι → Prop)
    [∀ state input, Decidable (holds state input)] :
    ∀ state inputs, Decidable (Throughout step holds state inputs)
  | _, [] => .isTrue trivial
  | state, input :: rest =>
      have := decidableThroughout step holds (step state input).1 rest
      inferInstanceAs (Decidable (_ ∧ _))

theorem run_nil (step : σ → ι → σ × ο) (state : σ) : run step state [] = (state, []) := rfl

theorem run_cons (step : σ → ι → σ × ο) (state : σ) (input : ι) (rest : List ι) :
    run step state (input :: rest) =
      ((run step (step state input).1 rest).1,
        (step state input).2 :: (run step (step state input).1 rest).2) := rfl

theorem run_append (step : σ → ι → σ × ο) (state : σ) (first second : List ι) :
    run step state (first ++ second) =
      ((run step (run step state first).1 second).1,
        (run step state first).2 ++ (run step (run step state first).1 second).2) := by
  induction first generalizing state with
  | nil => rfl
  | cons input rest ih =>
      rw [List.cons_append, run_cons, ih, run_cons]
      rfl

/-- A property that every step on such an input preserves holds at the end of a run. -/
theorem run_preserves_on {step : σ → ι → σ × ο} {P : σ → Prop} {Q : ι → Prop}
    (hstep : ∀ state input, P state → Q input → P (step state input).1) {state : σ}
    (hstate : P state) {inputs : List ι} (hinputs : ∀ input ∈ inputs, Q input) :
    P (run step state inputs).1 := by
  induction inputs generalizing state with
  | nil => exact hstate
  | cons input rest ih =>
      apply ih
      · exact hstep state input hstate (hinputs input List.mem_cons_self)
      · exact fun other hother => hinputs other (List.mem_cons_of_mem input hother)

/-- A property every step preserves holds at the end of a run. -/
theorem run_preserves {step : σ → ι → σ × ο} {P : σ → Prop}
    (hstep : ∀ state input, P state → P (step state input).1) {state : σ}
    (hstate : P state) (inputs : List ι) : P (run step state inputs).1 :=
  run_preserves_on (Q := fun _ => True) (fun state input h _ => hstep state input h) hstate
    fun _ _ => trivial

/-- A condition holds throughout a run in two parts if it does throughout each. -/
theorem throughout_append {step : σ → ι → σ × ο} {holds : σ → ι → Prop} {state : σ}
    {first second : List ι} :
    Throughout step holds state (first ++ second) ↔
      Throughout step holds state first ∧
        Throughout step holds (run step state first).1 second := by
  induction first generalizing state with
  | nil => exact (iff_of_eq (true_and _)).symm
  | cons input rest ih =>
      rw [List.cons_append, Throughout, Throughout, ih, and_assoc]
      rfl

/-- A condition that every step meets where an invariant holds is met throughout. -/
theorem throughout_of_invariant {step : σ → ι → σ × ο} {holds : σ → ι → Prop}
    {P : σ → Prop} {Q : ι → Prop}
    (hstep : ∀ state input, P state → Q input → holds state input ∧ P (step state input).1)
    {state : σ} (hstate : P state) {inputs : List ι} (hinputs : ∀ input ∈ inputs, Q input) :
    Throughout step holds state inputs := by
  induction inputs generalizing state with
  | nil => trivial
  | cons input rest ih =>
      obtain ⟨hnow, hnext⟩ := hstep state input hstate (hinputs input List.mem_cons_self)
      exact ⟨hnow, ih hnext fun other hother => hinputs other (List.mem_cons_of_mem input hother)⟩

/-- A condition on the inputs that every input meets is met throughout. -/
theorem throughout_of_inputs {step : σ → ι → σ × ο} {Q : ι → Prop} {state : σ}
    {inputs : List ι} (hinputs : ∀ input ∈ inputs, Q input) :
    Throughout step (fun _ input => Q input) state inputs :=
  throughout_of_invariant (P := fun _ => True) (Q := Q)
    (fun _ _ _ hinput => ⟨hinput, trivial⟩) trivial hinputs

/-- Where every step computes what an abstract step computes, the run computes
what the abstract run computes. -/
theorem run_refines {step : σ → ι → σ × ο} {abstractStep : τ → ι → τ × ο}
    {holds : σ → ι → Prop} {abstraction : σ → τ}
    (hstep : ∀ state input, holds state input →
      abstractStep (abstraction state) input =
        (abstraction (step state input).1, (step state input).2))
    {state : σ} {inputs : List ι} (hholds : Throughout step holds state inputs) :
    run abstractStep (abstraction state) inputs =
      (abstraction (run step state inputs).1, (run step state inputs).2) := by
  induction inputs generalizing state with
  | nil => rfl
  | cons input rest ih =>
      rw [run_cons, run_cons, hstep state input hholds.1, ih hholds.2]

/-- Every state of a run meets a condition, the first and the last one included. -/
def Always (step : σ → ι → σ × ο) (P : σ → Prop) : σ → List ι → Prop
  | state, [] => P state
  | state, input :: rest => P state ∧ Always step P (step state input).1 rest

theorem Always.last {step : σ → ι → σ × ο} {P : σ → Prop} {state : σ} {inputs : List ι}
    (h : Always step P state inputs) : P (run step state inputs).1 := by
  induction inputs generalizing state with
  | nil => exact h
  | cons input rest ih => exact ih h.2

theorem always_concat {step : σ → ι → σ × ο} {P : σ → Prop} {state : σ} {inputs : List ι}
    {input : ι} :
    Always step P state (inputs ++ [input]) ↔
      Always step P state inputs ∧ P (run step state (inputs ++ [input])).1 := by
  induction inputs generalizing state with
  | nil => exact Iff.rfl
  | cons first rest ih =>
      rw [List.cons_append, Always, Always, ih, and_assoc]
      rfl

/-- Where every state meets a condition, each step starts in one that does, and so does
one more step. -/
theorem Always.throughout_concat {step : σ → ι → σ × ο} {P : σ → Prop} {state : σ}
    {inputs : List ι} (h : Always step P state inputs) (input : ι) :
    Throughout step (fun state _ => P state) state (inputs ++ [input]) := by
  induction inputs generalizing state with
  | nil => exact ⟨h, trivial⟩
  | cons first rest ih => exact ⟨h.1, ih h.2⟩

/-! ## What the steps of a run are made of -/

/-- What is seen at each step of a run, given the state it starts in and its input. -/
def collect (step : σ → ι → σ × ο) (see : σ → ι → List τ) : σ → List ι → List τ
  | _, [] => []
  | state, input :: rest => see state input ++ collect step see (step state input).1 rest

theorem collect_append {step : σ → ι → σ × ο} {see : σ → ι → List τ} (state : σ)
    (first second : List ι) :
    collect step see state (first ++ second) =
      collect step see state first ++ collect step see (run step state first).1 second := by
  induction first generalizing state with
  | nil => rfl
  | cons input rest ih =>
      calc collect step see state (input :: rest ++ second)
          = see state input ++ collect step see (step state input).1 (rest ++ second) := rfl
        _ = see state input ++ (collect step see (step state input).1 rest ++
              collect step see (run step (step state input).1 rest).1 second) := by rw [ih]
        _ = collect step see state (input :: rest) ++
              collect step see (run step state (input :: rest)).1 second :=
            (List.append_assoc _ _ _).symm

theorem collect_concat {step : σ → ι → σ × ο} {see : σ → ι → List τ} (state : σ)
    (inputs : List ι) (input : ι) :
    collect step see state (inputs ++ [input]) =
      collect step see state inputs ++ see (run step state inputs).1 input := by
  rw [collect_append, collect, collect, List.append_nil]

/-- What is seen in a run is seen at one of its steps. -/
theorem mem_collect {step : σ → ι → σ × ο} {see : σ → ι → List τ} {state : σ}
    {inputs : List ι} {seen : τ} (h : seen ∈ collect step see state inputs) :
    ∃ before input rest, inputs = before ++ input :: rest ∧
      seen ∈ see (run step state before).1 input := by
  induction inputs generalizing state with
  | nil => exact absurd h List.not_mem_nil
  | cons input rest ih =>
      rcases List.mem_append.mp h with hnow | hlater
      · exact ⟨[], input, rest, rfl, hnow⟩
      · obtain ⟨before, other, after, hsplit, hseen⟩ := ih hlater
        exact ⟨input :: before, other, after, by rw [hsplit, List.cons_append], hseen⟩

theorem flatMap_collect {ρ : Type*} {step : σ → ι → σ × ο} {see : σ → ι → List τ}
    (f : τ → List ρ) (state : σ) (inputs : List ι) :
    (collect step see state inputs).flatMap f =
      collect step (fun state input => (see state input).flatMap f) state inputs := by
  induction inputs generalizing state with
  | nil => rfl
  | cons input rest ih => rw [collect, List.flatMap_append, ih, collect]

/-- What holds of all that is seen, one thing at each step, holds throughout. -/
theorem throughout_of_collect {step : σ → ι → σ × ο} {see : σ → ι → τ} {holds : τ → Prop}
    {state : σ} {inputs : List ι}
    (h : ∀ seen ∈ collect step (fun state input => [see state input]) state inputs, holds seen) :
    Throughout step (fun state input => holds (see state input)) state inputs := by
  induction inputs generalizing state with
  | nil => trivial
  | cons input rest ih =>
      obtain ⟨hnow, hlater⟩ := List.forall_mem_cons.mp h
      exact ⟨hnow, ih hlater⟩

/-- Two conditions that hold throughout a run hold together. -/
theorem Throughout.and {step : σ → ι → σ × ο} {first second : σ → ι → Prop} {state : σ}
    {inputs : List ι} (hfirst : Throughout step first state inputs)
    (hsecond : Throughout step second state inputs) :
    Throughout step (fun state input => first state input ∧ second state input) state inputs := by
  induction inputs generalizing state with
  | nil => trivial
  | cons input rest ih => exact ⟨⟨hfirst.1, hsecond.1⟩, ih hfirst.2 hsecond.2⟩

/-- **A part that goes its own way.**  Where a step on an input of the owner does what
the owner's own machine does, and other steps leave that machine's state related, what
the owner sees of a run is what its own machine sees of its inputs alone. -/
theorem collect_filter {step : σ → ι → σ × ο} {see : σ → ι → List τ} {own : ι → Bool}
    {ρ ω : Type*} {ownStep : ρ → ι → ρ × ω} {ownSee : ρ → ι → List τ} {R : σ → ρ → Prop}
    {holds : σ → ι → Prop}
    (hown : ∀ state lane input, R state lane → holds state input → own input = true →
      R (step state input).1 (ownStep lane input).1 ∧ see state input = ownSee lane input)
    (hother : ∀ state lane input, R state lane → holds state input → own input = false →
      R (step state input).1 lane ∧ see state input = [])
    {state : σ} {lane : ρ} (hstart : R state lane) {inputs : List ι}
    (hholds : Throughout step holds state inputs) :
    collect step see state inputs = collect ownStep ownSee lane (inputs.filter own) := by
  induction inputs generalizing state lane with
  | nil => rfl
  | cons input rest ih =>
      obtain ⟨hnow, hlater⟩ := hholds
      cases howned : own input with
      | true =>
          obtain ⟨hnext, hsee⟩ := hown state lane input hstart hnow howned
          rw [List.filter_cons_of_pos howned, collect, collect, hsee, ih hnext hlater]
      | false =>
          obtain ⟨hnext, hsee⟩ := hother state lane input hstart hnow howned
          rw [List.filter_cons_of_neg (by simp [howned]), collect, hsee, List.nil_append,
            ih hnext hlater]

/-- And where the run ends, the owner's machine ends. -/
theorem run_filter {step : σ → ι → σ × ο} {own : ι → Bool} {ρ ω : Type*}
    {ownStep : ρ → ι → ρ × ω} {R : σ → ρ → Prop} {holds : σ → ι → Prop}
    (hown : ∀ state lane input, R state lane → holds state input → own input = true →
      R (step state input).1 (ownStep lane input).1)
    (hother : ∀ state lane input, R state lane → holds state input → own input = false →
      R (step state input).1 lane)
    {state : σ} {lane : ρ} (hstart : R state lane) {inputs : List ι}
    (hholds : Throughout step holds state inputs) :
    R (run step state inputs).1 (run ownStep lane (inputs.filter own)).1 := by
  induction inputs generalizing state lane with
  | nil => exact hstart
  | cons input rest ih =>
      obtain ⟨hnow, hlater⟩ := hholds
      cases howned : own input with
      | true =>
          rw [List.filter_cons_of_pos howned]
          exact ih (hown state lane input hstart hnow howned) hlater
      | false =>
          rw [List.filter_cons_of_neg (by simp [howned])]
          exact ih (hother state lane input hstart hnow howned) hlater

/-! ## What a part of the inputs sees -/

/-- What the inputs of one owner see of a run: the output of each, and the view of
the state after it. -/
def observe (step : σ → ι → σ × ο) (own : ι → Bool) (view : σ → τ) : σ → List ι → List (ο × τ)
  | _, [] => []
  | state, input :: rest =>
      let next := step state input
      let later := observe step own view next.1 rest
      if own input then (next.2, view next.1) :: later else later

/-- Who sees the same through one view sees the same through any view of that view. -/
theorem observe_map {ρ : Type*} (step : σ → ι → σ × ο) (own : ι → Bool) (view : σ → τ)
    (coarser : τ → ρ) (state : σ) (inputs : List ι) :
    observe step own (fun state => coarser (view state)) state inputs =
      (observe step own view state inputs).map fun seen => (seen.1, coarser seen.2) := by
  induction inputs generalizing state with
  | nil => rfl
  | cons input rest ih =>
      unfold observe
      simp only
      rw [ih]
      split
      · rfl
      · rfl

/-- **Isolation.**  Where steps of others leave the view alone, and own steps depend
on nothing but the view, the inputs of others might as well not be there. -/
theorem observe_filter {step : σ → ι → σ × ο} {own : ι → Bool} {view : σ → τ}
    {P : σ → Prop} {Q : ι → Prop}
    (hpreserved : ∀ state input, P state → Q input → P (step state input).1)
    (hother : ∀ state input, P state → Q input → own input = false →
      view (step state input).1 = view state)
    (hown : ∀ state state' input, P state → P state' → Q input → own input = true →
      view state = view state' →
      (step state input).2 = (step state' input).2 ∧
        view (step state input).1 = view (step state' input).1)
    {inputs : List ι} (hinputs : ∀ input ∈ inputs, Q input) {state state' : σ}
    (hstate : P state) (hstate' : P state') (hview : view state = view state') :
    observe step own view state inputs = observe step own view state' (inputs.filter own) := by
  induction inputs generalizing state state' with
  | nil => rfl
  | cons input rest ih =>
      have hinput := hinputs input List.mem_cons_self
      have hrest : ∀ other ∈ rest, Q other := fun other hother =>
        hinputs other (List.mem_cons_of_mem input hother)
      have hnext := hpreserved state input hstate hinput
      cases howned : own input with
      | false =>
          rw [List.filter_cons_of_neg (by simp [howned]), observe, howned]
          exact ih hrest hnext hstate' ((hother state input hstate hinput howned).trans hview)
      | true =>
          obtain ⟨hout, hafter⟩ := hown state state' input hstate hstate' hinput howned hview
          rw [List.filter_cons_of_pos howned, observe, observe, howned]
          simp only [if_true]
          rw [hout, hafter, ih hrest hnext (hpreserved state' input hstate' hinput) hafter]

end Machine
