import Tlscap.Library.Json.Compact

/-!
# Writing by appending

A sink takes text piece by piece.  `Writes` says of a function on sinks that it
appends one text that spells a given value, whatever was written before, and that the
text has no line break.

The other lemmas follow the loops of a writer that puts its commas by hand.  What such a
loop has written is a chain of items with a separator before each but the first
(`separator`), and there are two ways to know which one is first:

* **By a flag** that the first item clears (`writes_flagged`).
* **By its number**, which is zero (`writes_numbered`).
-/

/-- Something text can be written to. -/
class Write (W : Type) where
  writeAll : W → List Char → W

export Write (writeAll)

/-- Writing in pieces is writing at once. -/
class LawfulWrite (W : Type) [Write W] : Prop where
  writeAll_nil : ∀ w : W, writeAll w [] = w
  writeAll_append : ∀ (w : W) (first second : List Char),
    writeAll (writeAll w first) second = writeAll w (first ++ second)

namespace Json

variable {W : Type} [Write W] {α β : Type}

/-- `write` appends one text without a line break that spells `value`. -/
def Writes (Spelling : List Char → α → Prop) (write : W → W) (value : α) : Prop :=
  ∃ text, Spelling text value ∧ '\n' ∉ text ∧ ∀ w, write w = writeAll w text

theorem Writes.string {write : W → W} {s : List Char} (h : Writes Quoted write s) :
    Writes Value write (.str s) := by
  obtain ⟨text, htext, hline, hwrite⟩ := h
  exact ⟨text, .string htext, hline, hwrite⟩

theorem Writes.padded {write : W → W} {value : Json} (h : Writes Value write value) :
    Writes (Padded Value) write value := by
  obtain ⟨text, htext, hline, hwrite⟩ := h
  exact ⟨text, .compact htext, hline, hwrite⟩

theorem Writes.object [LawfulWrite W] {body : W → W} {members : List (List Char × Json)}
    (h : Writes (Chain (Member Value) true) body members) :
    Writes Value (fun w : W => writeAll (body (writeAll w ['{'])) ['}']) (.obj members) := by
  obtain ⟨text, htext, hline, hbody⟩ := h
  refine ⟨'{' :: (text ++ ['}']), .chainedObject htext, by simp [hline], fun w => ?_⟩
  calc writeAll (body (writeAll w ['{'])) ['}']
      = writeAll (writeAll (writeAll w ['{']) text) ['}'] :=
        congrArg (writeAll · ['}']) (hbody _)
    _ = writeAll w ('{' :: (text ++ ['}'])) := by
        rw [LawfulWrite.writeAll_append, LawfulWrite.writeAll_append]
        rfl

theorem Writes.array [LawfulWrite W] {body : W → W} {items : List Json}
    (h : Writes (Chain (Padded Value) true) body items) :
    Writes Value (fun w : W => writeAll (body (writeAll w ['['])) [']']) (.arr items) := by
  obtain ⟨text, htext, hline, hbody⟩ := h
  refine ⟨'[' :: (text ++ [']']), .chainedArray htext, by simp [hline], fun w => ?_⟩
  calc writeAll (body (writeAll w ['['])) [']']
      = writeAll (writeAll (writeAll w ['[']) text) [']'] := congrArg (writeAll · [']']) (hbody _)
    _ = writeAll w ('[' :: (text ++ [']'])) := by
        rw [LawfulWrite.writeAll_append, LawfulWrite.writeAll_append]
        rfl

section Loops

variable [LawfulWrite W] {Item : List Char → α → Prop}

/-- The comma before every item but the first. -/
def separator (first : Bool) : List Char := if first then [] else [',']

theorem Chain.item {first : Bool} {text rest : List Char} {item : α} {items : List α}
    (hitem : Item text item) (hrest : Chain Item false rest items) :
    Chain Item first (separator first ++ (text ++ rest)) (item :: items) := by
  cases first with
  | true =>
      show Chain Item true (text ++ rest) (item :: items)
      exact .start hitem hrest
  | false =>
      show Chain Item false (',' :: (text ++ rest)) (item :: items)
      exact .next hitem hrest

/-- One rest of a list behind another. -/
theorem Writes.andThen {first second : W → W} {items more : List α}
    (h : Writes (Chain Item false) first items) (hsecond : Writes (Chain Item false) second more) :
    Writes (Chain Item false) (fun w => second (first w)) (items ++ more) := by
  obtain ⟨text, htext, hline, hwrite⟩ := h
  obtain ⟨rest, hrest, hline', hwrite'⟩ := hsecond
  refine ⟨text ++ rest, htext.append hrest, by simp [hline, hline'], fun w => ?_⟩
  calc second (first w) = writeAll (writeAll w text) rest := by rw [hwrite, hwrite']
    _ = writeAll w (text ++ rest) := LawfulWrite.writeAll_append w text rest

theorem writes_nothing : Writes (Chain Item false) (fun w : W => w) [] :=
  ⟨[], .nil, List.not_mem_nil, fun w => (LawfulWrite.writeAll_nil w).symm⟩

/-- A loop whose steps each write some rest of a list, if only an empty one. -/
theorem writes_following {write : W → β → W} {toItem : β → Option α} (values : List β)
    (h : ∀ value ∈ values, Writes (Chain Item false) (write · value) (toItem value).toList) :
    Writes (Chain Item false) (fun w : W => values.foldl write w) (values.filterMap toItem) := by
  induction values with
  | nil => exact writes_nothing
  | cons value values ih =>
      have hitems : (value :: values).filterMap toItem =
          (toItem value).toList ++ values.filterMap toItem := by
        cases hvalue : toItem value <;> simp [hvalue]
      rw [hitems]
      exact (h value List.mem_cons_self).andThen
        (ih fun other hother => h other (List.mem_cons_of_mem _ hother))

/-- A loop with a flag for the first item: what a step does is nothing, where there is
no item, or to write the comma that is due and the item. -/
theorem writes_flagged (step : W × Bool → β → W × Bool) (toItem : β → Option α) (values : List β)
    (hskip : ∀ value ∈ values, toItem value = none → ∀ w, step w value = w)
    (hitem : ∀ value ∈ values, ∀ item, toItem value = some item →
      ∃ text, Item text item ∧ '\n' ∉ text ∧
        ∀ w first, step (w, first) value = (writeAll (writeAll w (separator first)) text, false))
    (first : Bool) :
    Writes (Chain Item first) (fun w : W => (values.foldl step (w, first)).1)
      (values.filterMap toItem) := by
  induction values generalizing first with
  | nil => exact ⟨[], .nil, List.not_mem_nil, fun w => (LawfulWrite.writeAll_nil w).symm⟩
  | cons value values ih =>
      have ih := ih (fun v hv => hskip v (List.mem_cons_of_mem _ hv))
        (fun v hv => hitem v (List.mem_cons_of_mem _ hv))
      cases hvalue : toItem value with
      | none =>
          obtain ⟨text, hchain, hline, hwrite⟩ := ih first
          rw [List.filterMap_cons_none hvalue]
          refine ⟨text, hchain, hline, fun w => ?_⟩
          show ((value :: values).foldl step (w, first)).1 = writeAll w text
          rw [List.foldl_cons, hskip value List.mem_cons_self hvalue]
          exact hwrite w
      | some item =>
          obtain ⟨text, htext, hline, hstep⟩ := hitem value List.mem_cons_self item hvalue
          obtain ⟨rest, hchain, hline', hwrite⟩ := ih false
          rw [List.filterMap_cons_some hvalue]
          refine ⟨separator first ++ (text ++ rest), .item htext hchain, ?_, fun w => ?_⟩
          · cases first <;> simp [separator, hline, hline']
          · calc ((value :: values).foldl step (w, first)).1
                = (values.foldl step (writeAll (writeAll w (separator first)) text, false)).1 := by
                  rw [List.foldl_cons, hstep]
              _ = writeAll (writeAll (writeAll w (separator first)) text) rest := hwrite _
              _ = writeAll w (separator first ++ (text ++ rest)) := by
                  rw [LawfulWrite.writeAll_append, LawfulWrite.writeAll_append]

/-- A loop over numbered items that puts a comma before each but number zero. -/
theorem writes_numbered (write : W → β → W) (toItem : β → α) (values : List β)
    (hitem : ∀ value ∈ values, Writes Item (write · value) (toItem value)) :
    Writes (Chain Item true)
      (fun w : W => values.zipIdx.foldl
        (fun w value => write (if 0 < value.2 then writeAll w [','] else w) value.1) w)
      (values.map toItem) := by
  -- the item a loop starts with is the first of the chain if its number is zero
  have hloop : ∀ (values : List β) (n : ℕ),
      (∀ value ∈ values, Writes Item (write · value) (toItem value)) →
      Writes (Chain Item (n == 0))
        (fun w : W => (values.zipIdx n).foldl
          (fun w value => write (if 0 < value.2 then writeAll w [','] else w) value.1) w)
        (values.map toItem) := by
    intro values
    induction values with
    | nil =>
        intro n _
        exact ⟨[], .nil, List.not_mem_nil, fun w => (LawfulWrite.writeAll_nil w).symm⟩
    | cons value values ih =>
        intro n hitem
        obtain ⟨text, htext, hline, hwrite⟩ := hitem value List.mem_cons_self
        obtain ⟨rest, hchain, hline', hrest⟩ :=
          ih (n + 1) fun v hv => hitem v (List.mem_cons_of_mem _ hv)
        refine ⟨separator (n == 0) ++ (text ++ rest), .item htext hchain, ?_, fun w => ?_⟩
        · cases n == 0 <;> simp [separator, hline, hline']
        · have hcomma : (if 0 < n then writeAll w [','] else w) =
              writeAll w (separator (n == 0)) := by
            cases n with
            | zero => exact (LawfulWrite.writeAll_nil w).symm
            | succ n => rfl
          calc ((value :: values).zipIdx n).foldl
                (fun w value => write (if 0 < value.2 then writeAll w [','] else w) value.1) w
              = (values.zipIdx (n + 1)).foldl
                (fun w value => write (if 0 < value.2 then writeAll w [','] else w) value.1)
                (write (if 0 < n then writeAll w [','] else w) value) := rfl
            _ = writeAll (writeAll (writeAll w (separator (n == 0))) text) rest := by
                rw [hcomma, show write _ value = _ from hwrite _]
                exact hrest _
            _ = writeAll w (separator (n == 0) ++ (text ++ rest)) := by
                rw [LawfulWrite.writeAll_append, LawfulWrite.writeAll_append]
  exact hloop values 0 hitem

end Loops

end Json
