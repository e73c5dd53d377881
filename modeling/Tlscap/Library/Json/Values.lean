import Tlscap.Library.Json.Grammar

/-!
# Properties of values

Two properties that reach through all levels of a value: that no object names a
member twice, and that a scalar with a given text stands somewhere in it.
-/

namespace Json

/-! ## Distinct names -/

/-- No object at any depth names two members alike. -/
inductive NamesDistinct : Json → Prop
  | null : NamesDistinct .null
  | bool {value : Bool} : NamesDistinct (.bool value)
  | num {mantissa exponent : ℤ} : NamesDistinct (.num mantissa exponent)
  | str {value : List Char} : NamesDistinct (.str value)
  | arr {items : List Json} (hitems : ∀ item ∈ items, NamesDistinct item) :
      NamesDistinct (.arr items)
  | obj {members : List (List Char × Json)} (hnames : (members.map Prod.fst).Nodup)
      (hmembers : ∀ member ∈ members, NamesDistinct member.2) : NamesDistinct (.obj members)

theorem namesDistinct_arr {items : List Json} :
    NamesDistinct (.arr items) ↔ ∀ item ∈ items, NamesDistinct item := by
  constructor
  · intro h
    cases h with
    | arr hitems => exact hitems
  · exact .arr

theorem namesDistinct_obj {members : List (List Char × Json)} :
    NamesDistinct (.obj members) ↔
      (members.map Prod.fst).Nodup ∧ ∀ member ∈ members, NamesDistinct member.2 := by
  constructor
  · intro h
    cases h with
    | obj hnames hmembers => exact ⟨hnames, hmembers⟩
  · exact fun h => .obj h.1 h.2

/-! ## Scalars -/

/-- A string or a natural number with this text stands in the value, at some depth. -/
inductive Shows (text : List Char) : Json → Prop
  | str : Shows text (.str text)
  | num {n : ℕ} (h : Nat.toDigits 10 n = text) : Shows text (.num n 0)
  | arr {items : List Json} {item : Json} (hitem : item ∈ items) (h : Shows text item) :
      Shows text (.arr items)
  | obj {members : List (List Char × Json)} {member : List Char × Json}
      (hmember : member ∈ members) (h : Shows text member.2) : Shows text (.obj members)

variable {text : List Char}

theorem shows_str {value : List Char} : Shows text (.str value) ↔ value = text := by
  constructor
  · intro h
    cases h with
    | str => rfl
  · rintro rfl
    exact .str

theorem shows_num {n : ℕ} : Shows text (.num n 0) ↔ Nat.toDigits 10 n = text := by
  constructor
  · intro h
    cases h with
    | @num m h => exact h
  · exact .num

theorem shows_arr {items : List Json} :
    Shows text (.arr items) ↔ ∃ item ∈ items, Shows text item := by
  constructor
  · intro h
    cases h with
    | arr hitem h => exact ⟨_, hitem, h⟩
  · rintro ⟨item, hitem, h⟩
    exact .arr hitem h

theorem shows_obj {members : List (List Char × Json)} :
    Shows text (.obj members) ↔ ∃ member ∈ members, Shows text member.2 := by
  constructor
  · intro h
    cases h with
    | obj hmember h => exact ⟨_, hmember, h⟩
  · rintro ⟨member, hmember, h⟩
    exact .obj hmember h

end Json
