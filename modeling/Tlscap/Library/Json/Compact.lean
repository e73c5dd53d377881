import Tlscap.Library.Json.Grammar

/-!
# Texts without white space

How a text is put together from the productions of the grammar when nothing stands
between them.  `Chain` is what a loop has written that puts a comma before each item
but the first: from its start the whole list, from later on a rest of it, each item
with its comma.
-/

namespace Json

theorem space_nil : Space [] := fun _ hc => absurd hc List.not_mem_nil

theorem Padded.compact {text : List Char} {value : Json} (h : Value text value) :
    Padded Value text value := by
  have hpadded := Padded.mk space_nil h space_nil
  rwa [List.append_nil, List.nil_append] at hpadded

theorem Member.compact {name text key : List Char} {value : Json} (hname : Quoted name key)
    (hvalue : Value text value) : Member Value (name ++ ':' :: text) (key, value) := by
  have hmember := Member.mk space_nil hname space_nil (Padded.compact hvalue)
  rwa [List.nil_append, List.nil_append] at hmember

/-- Characters that need no escape spell themselves. -/
theorem Quoted.plain {text : List Char} (h : ∀ c ∈ text, isUnescaped c = true) :
    Quoted ('"' :: (text ++ ['"'])) text := by
  refine .mk ?_
  induction text with
  | nil => exact .nil
  | cons c text ih =>
      obtain ⟨hc, htext⟩ := List.forall_mem_cons.mp h
      exact .cons (.unescaped hc) (ih htext)

/-- A member whose name needs no escape. -/
theorem Member.plain {name text : List Char} {value : Json}
    (hname : name.all isUnescaped = true) (hvalue : Value text value) :
    Member Value ('"' :: (name ++ '"' :: ':' :: text)) (name, value) := by
  have hmember := Member.compact (Quoted.plain (List.all_eq_true.mp hname)) hvalue
  rwa [List.cons_append, List.append_assoc, List.singleton_append] at hmember

/-- Only zero has decimal digits that begin with a zero. -/
theorem eq_zero_of_toDigits_head {n : ℕ} (h : (Nat.toDigits 10 n).head? = some '0') : n = 0 := by
  induction n using Nat.strong_induction_on with
  | _ n ih =>
      rcases Nat.lt_or_ge n 10 with hsmall | hlarge
      · rw [Nat.toDigits_of_lt_base hsmall] at h
        simpa using h
      · -- the first digit is that of the quotient, which is not zero
        have hquotient : (Nat.toDigits 10 (n / 10)).head? = some '0' := by
          rwa [Nat.toDigits_of_base_le (by decide) hlarge,
            List.head?_append_of_ne_nil _ Nat.toDigits_ne_nil] at h
        have hzero := ih (n / 10) (by omega) hquotient
        omega

/-- A natural number is spelled by its decimal digits. -/
theorem Value.decimal (n : ℕ) : Value (Nat.toDigits 10 n) (.num n 0) := by
  have hdigits : Digits (Nat.toDigits 10 n) :=
    ⟨Nat.toDigits_ne_nil, fun c hc => Nat.isDigit_of_mem_toDigits (by decide) (by decide) hc⟩
  have hpart : IntegerPart (Nat.toDigits 10 n) :=
    ⟨hdigits, fun hhead => by rw [eq_zero_of_toDigits_head hhead]; rfl⟩
  have hmagnitude := Magnitude.mk hpart .absent .absent
  simp only [List.append_nil, Nat.ofDigitChars_ten_toDigits, List.length_nil, Nat.cast_zero,
    sub_zero] at hmagnitude
  exact .number (.bare hmagnitude)

/-! ## Lists -/

section Chains

variable {α : Type} {Item : List Char → α → Prop}

/-- Items with a comma before each, except before the very first if the list starts
here. -/
inductive Chain (Item : List Char → α → Prop) : Bool → List Char → List α → Prop
  | nil {first : Bool} : Chain Item first [] []
  | start {text rest : List Char} {item : α} {items : List α} (hitem : Item text item)
      (hrest : Chain Item false rest items) : Chain Item true (text ++ rest) (item :: items)
  | next {text rest : List Char} {item : α} {items : List α} (hitem : Item text item)
      (hrest : Chain Item false rest items) :
      Chain Item false (',' :: (text ++ rest)) (item :: items)

theorem Chain.append {first : Bool} {text rest : List Char} {items more : List α}
    (h : Chain Item first text items) (hrest : Chain Item (first && items.isEmpty) rest more) :
    Chain Item first (text ++ rest) (items ++ more) := by
  induction h with
  | nil => simpa using hrest
  | start hitem _ ih =>
      rw [List.append_assoc]
      exact .start hitem (ih (by simpa using hrest))
  | next hitem _ ih =>
      rw [List.cons_append, List.append_assoc]
      exact .next hitem (ih (by simpa using hrest))

/-- The rest of a list behind its first item. -/
theorem Chain.separated {text rest : List Char} {item : α} {items : List α}
    (hitem : Item text item) (h : Chain Item false rest items) :
    Separated Item (text ++ rest) (item :: items) := by
  induction items generalizing text rest item with
  | nil =>
      cases h
      rw [List.append_nil]
      exact .last hitem
  | cons next items ih =>
      cases h with
      | next hnext hrest => exact .cons hitem (ih hnext hrest)

end Chains

theorem Value.chainedObject {text : List Char} {members : List (List Char × Json)}
    (h : Chain (Member Value) true text members) :
    Value ('{' :: (text ++ ['}'])) (.obj members) := by
  cases h with
  | nil => exact .emptyObject space_nil
  | start hmember hrest => exact .object (hrest.separated hmember)

theorem Value.chainedArray {text : List Char} {items : List Json}
    (h : Chain (Padded Value) true text items) : Value ('[' :: (text ++ [']'])) (.arr items) := by
  cases h with
  | nil => exact .emptyArray space_nil
  | start hitem hrest => exact .array (hrest.separated hitem)

end Json
