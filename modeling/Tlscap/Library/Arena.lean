import Mathlib.Data.List.Perm.Basic
import Mathlib.Data.List.Count

/-!
# Trees in an arena

Nodes that refer to each other by their place in a list: a node is a list of entries, and
some entries refer to another node.  Where a node only refers to later ones, and every node
behind a first one is referred to once, the nodes are a tree: depth first, every other entry
of every node is met exactly once (`Arena.Rooted.below_perm`).  What is found below a node
depends on the nodes there only (`Arena.fold_congr`).

## Strategy

The recursion is on the number of nodes, which bounds the depth as references go to later
nodes only (`Forward`); below a node there are fewer of them left.  What is met below some
nodes is then their own entries and what is below their children
(`flatMap_below_perm`), so that going through the levels meets all nodes.

A tree is grown by three operations, and each keeps `Rooted`:

* **A leaf** behind the entries of a node (`Rooted.push_leaf`).
* **A child**: an empty node at the end, and the entry that refers to it
  (`Rooted.spawn`).
* **Another tree**, behind all the nodes there are; the earlier ones do not refer to it
  (`Rooted.plant`).
-/

namespace Arena

/-! ## Folding what is below a node -/

section Fold

variable {ν β : Type*}

/-- Combines a node with what its children give.  A node only refers to later ones, so that
the number of nodes bounds the depth. -/
def fold (base : β) (combine : ν → (ℕ → β) → β) (lookup : ℕ → ν) : ℕ → ℕ → β
  | 0, _ => base
  | fuel + 1, address => combine (lookup address) (fold base combine lookup fuel)

/-- The same tree in two arenas, `place` saying where a node of the first is in the second,
gives the same, where the depths that are allowed are enough.  `children` are the nodes a
node refers to, and `Here` are the nodes the tree has. -/
theorem fold_congr {ν' : Type*} {base : β} {combine : ν → (ℕ → β) → β}
    {combine' : ν' → (ℕ → β) → β} {lookup : ℕ → ν} {lookup' : ℕ → ν'} (children : ν → List ℕ)
    (place : ℕ → ℕ) (Here : ℕ → Prop) {bound : ℕ}
    (hcombine : ∀ address, Here address → ∀ visit visit' : ℕ → β,
      (∀ child ∈ children (lookup address), visit child = visit' (place child)) →
        combine (lookup address) visit = combine' (lookup' (place address)) visit')
    (hchildren : ∀ address, Here address → ∀ child ∈ children (lookup address),
      address < child ∧ Here child)
    (hbound : ∀ address, Here address → address < bound)
    {fuel fuel' address : ℕ} (hhere : Here address)
    (hfuel : bound ≤ address + fuel) (hfuel' : bound ≤ address + fuel') :
    fold base combine lookup fuel address =
      fold base combine' lookup' fuel' (place address) := by
  have hlt := hbound address hhere
  induction fuel generalizing fuel' address with
  | zero => omega
  | succ fuel ih =>
      obtain ⟨more, rfl⟩ : ∃ more, fuel' = more + 1 := Nat.exists_eq_succ_of_ne_zero (by omega)
      rw [fold, fold]
      refine hcombine address hhere _ _ fun child hchild => ?_
      obtain ⟨hlater, hthere⟩ := hchildren address hhere child hchild
      exact ih hthere (by omega) (by omega) (hbound child hthere)

end Fold

/-! ## Nodes that are lists of entries -/

variable {ε : Type*} (child? : ε → Option ℕ)

/-- The entries of a node. -/
def node (arena : List (List ε)) (address : ℕ) : List ε := arena.getD address []

/-- The nodes a list of entries refers to. -/
def children (entries : List ε) : List ℕ := entries.filterMap child?

/-- The other entries. -/
def leaves (entries : List ε) : List ε := entries.filter fun entry => (child? entry).isNone

/-- A node's entries, in the place of each that refers to a node what is found there. -/
def expand (entries : List ε) (visit : ℕ → List ε) : List ε :=
  entries.flatMap fun entry =>
    match child? entry with
    | none => [entry]
    | some child => visit child

/-- The entries of the tree below a node that refer to no other node, depth first. -/
def below (arena : List (List ε)) (address : ℕ) : List ε :=
  fold [] (expand child?) (node arena) arena.length address

/-- A node refers to later nodes only. -/
def Forward (arena : List (List ε)) : Prop :=
  ∀ address < arena.length, ∀ child ∈ children child? (node arena address),
    address < child ∧ child < arena.length

/-- The nodes from `root` on are a tree with that root: each of the others is referred to
once. -/
structure Rooted (root : ℕ) (arena : List (List ε)) : Prop where
  forward : Forward child? arena
  root_lt : root < arena.length
  once : (children child? (arena.drop root).flatten).Perm
    (List.range' (root + 1) (arena.length - (root + 1)))

variable {child?} {arena : List (List ε)} {root : ℕ}

theorem node_of_le {address : ℕ} (h : arena.length ≤ address) : node arena address = [] := by
  rw [node, List.getD_eq_getElem?_getD, List.getElem?_eq_none h, Option.getD_none]

theorem expand_congr {entries : List ε} {visit visit' : ℕ → List ε}
    (h : ∀ child ∈ children child? entries, visit child = visit' child) :
    expand child? entries visit = expand child? entries visit' := by
  refine List.flatMap_congr fun entry hentry => ?_
  cases hchild : child? entry with
  | none => rfl
  | some child => exact h child (List.mem_filterMap.mpr ⟨entry, hentry, hchild⟩)

/-- A node with what is below its children in their places. -/
theorem below_eq (hforward : Forward child? arena) {address : ℕ} (hlt : address < arena.length) :
    below child? arena address = expand child? (node arena address) (below child? arena) := by
  unfold below
  obtain ⟨fuel, hfuel⟩ : ∃ fuel, arena.length = fuel + 1 :=
    Nat.exists_eq_succ_of_ne_zero (by omega)
  conv_lhs => rw [hfuel, fold]
  refine expand_congr fun child hchild => ?_
  have hlater := hforward address hlt child hchild
  refine fold_congr (children child?) id (· < arena.length) (fun _ _ _ _ => expand_congr)
    (fun other hother next hnext => ?_) (fun _ h => h) hlater.2 (by omega) (by omega)
  exact hforward other hother next hnext

/-- The entries of a node in a list, and what is below its children, up to order. -/
theorem expand_perm (entries : List ε) (visit : ℕ → List ε) :
    (expand child? entries visit).Perm
      (leaves child? entries ++ (children child? entries).flatMap visit) := by
  induction entries with
  | nil => exact .refl _
  | cons entry rest ih =>
      unfold leaves children expand at ih ⊢
      rw [List.flatMap_cons]
      cases hchild : child? entry with
      | none =>
          rw [List.filter_cons_of_pos (by rw [hchild]; rfl), List.filterMap_cons_none hchild]
          exact ih.cons entry
      | some child =>
          rw [List.filter_cons_of_neg (by rw [hchild]; exact Bool.false_ne_true),
            List.filterMap_cons_some hchild, List.flatMap_cons]
          exact (ih.append_left _).trans (List.perm_append_comm_assoc _ _ _)

theorem below_perm (hforward : Forward child? arena) (address : ℕ) :
    (below child? arena address).Perm
      (leaves child? (node arena address) ++
        (children child? (node arena address)).flatMap (below child? arena)) := by
  by_cases hlt : address < arena.length
  · rw [below_eq hforward hlt]
    exact expand_perm _ _
  · have hnil : below child? arena address = [] := by
      unfold below
      cases arena.length with
      | zero => rfl
      | succ fuel => rw [fold, node_of_le (by omega)]; rfl
    rw [hnil, node_of_le (by omega)]
    exact .refl _

/-- Some nodes and what is below their children, up to order. -/
theorem flatMap_below_perm (hforward : Forward child? arena) (addresses : List ℕ) :
    (addresses.flatMap (below child? arena)).Perm
      (leaves child? (addresses.flatMap (node arena)) ++
        (children child? (addresses.flatMap (node arena))).flatMap (below child? arena)) := by
  induction addresses with
  | nil => exact .refl _
  | cons address rest ih =>
      simp only [List.flatMap_cons, leaves, children, List.filter_append, List.filterMap_append,
        List.flatMap_append]
      refine ((below_perm hforward address).append ih).trans ?_
      simp only [leaves, children, List.append_assoc]
      refine List.Perm.append_left _ ?_
      rw [← List.append_assoc, ← List.append_assoc]
      exact List.Perm.append_right _ List.perm_append_comm

theorem flatMap_node (root : ℕ) (arena : List (List ε)) :
    (List.range' root (arena.length - root)).flatMap (node arena) = (arena.drop root).flatten := by
  have hnodes : (List.range' root (arena.length - root)).map (node arena) = arena.drop root := by
    refine List.ext_getElem (by simp) fun i hi hi' => ?_
    rw [List.length_drop] at hi'
    rw [List.getElem_map, List.getElem_range', List.getElem_drop, node,
      List.getD_eq_getElem?_getD, Nat.one_mul, List.getElem?_eq_getElem (by omega),
      Option.getD_some]
  rw [← hnodes, List.flatMap_def]

namespace Rooted

/-- **Everything is met once.**  Below the root of a tree are the entries of all its nodes
that refer to no other, each as often as it was put there. -/
theorem below_perm (h : Rooted child? root arena) :
    (below child? arena root).Perm (leaves child? (arena.drop root).flatten) := by
  have hall := flatMap_below_perm h.forward (List.range' root (arena.length - root))
  have hsplit : List.range' root (arena.length - root) =
      root :: List.range' (root + 1) (arena.length - (root + 1)) := by
    have := h.root_lt
    rw [show arena.length - root = arena.length - (root + 1) + 1 by omega, List.range'_succ]
  rw [flatMap_node, hsplit, List.flatMap_cons] at hall
  have hlater := h.once.flatMap_right (below child? arena)
  exact (List.perm_append_right_iff _).mp (hall.trans (hlater.append_left _))

end Rooted

/-! ## Growing a tree -/

/-- An entry behind the others of a node. -/
def push (arena : List (List ε)) (address : ℕ) (entry : ε) : List (List ε) :=
  arena.modify address (· ++ [entry])

section Growing

variable {address : ℕ} {entry : ε}

@[simp] theorem length_push : (push arena address entry).length = arena.length :=
  List.length_modify _ _ _

theorem node_push_self (hlt : address < arena.length) :
    node (push arena address entry) address = node arena address ++ [entry] := by
  simp only [node, push, List.getD_eq_getElem?_getD, List.getElem?_modify_eq,
    List.getElem?_eq_getElem hlt, Option.map_eq_map, Option.map_some, Option.getD_some]

theorem node_push_ne {other : ℕ} (hne : address ≠ other) :
    node (push arena address entry) other = node arena other := by
  simp only [node, push, List.getD_eq_getElem?_getD, List.getElem?_modify_ne _ _ hne]

theorem node_append_nil (other : ℕ) : node (arena ++ [[]]) other = node arena other := by
  simp only [node, List.getD_eq_getElem?_getD]
  rcases Nat.lt_trichotomy other arena.length with hlt | rfl | hgt
  · rw [List.getElem?_append_left hlt]
  · rw [List.getElem?_append_right (Nat.le_refl _), Nat.sub_self,
      List.getElem?_eq_none (Nat.le_refl _)]
    rfl
  · have hlength : (arena ++ [[]]).length = arena.length + 1 := List.length_append
    rw [List.getElem?_eq_none (l := arena) (Nat.le_of_lt hgt), List.getElem?_eq_none (by omega)]

variable (entry) in
/-- Every entry stays in its node, and the new one is added. -/
theorem flatten_push (hroot : root ≤ address) (hlt : address < arena.length) :
    ((push arena address entry).drop root).flatten.Perm
      ((arena.drop root).flatten ++ [entry]) := by
  obtain ⟨before, entries, behind, harena, hlength, hpush⟩ :=
    List.exists_of_modify (· ++ [entry]) hlt
  have hdrop : ∀ later : List (List ε), (before ++ later).drop root = before.drop root ++ later :=
    fun later => List.drop_append_of_le_length (hlength ▸ hroot)
  rw [push, hpush, harena, hdrop, hdrop]
  simp only [List.flatten_append, List.flatten_cons, List.append_assoc]
  refine List.Perm.append_left _ (List.Perm.append_left _ ?_)
  exact List.perm_append_comm

theorem leaves_push (hroot : root ≤ address) (hlt : address < arena.length) :
    (leaves child? ((push arena address entry).drop root).flatten).Perm
      (leaves child? (arena.drop root).flatten ++ leaves child? [entry]) := by
  have hperm := (flatten_push entry hroot hlt).filter fun entry => (child? entry).isNone
  rwa [List.filter_append] at hperm

theorem flatten_append_nil (hroot : root ≤ arena.length) :
    ((arena ++ [[]]).drop root).flatten = (arena.drop root).flatten := by
  rw [List.drop_append_of_le_length hroot, List.flatten_append]
  exact List.append_nil _

theorem Forward.push (hforward : Forward child? arena)
    (hchild : ∀ child, child? entry = some child → address < child ∧ child < arena.length) :
    Forward child? (push arena address entry) := by
  intro other hother child hmem
  rw [length_push] at hother ⊢
  by_cases hself : address = other
  · subst hself
    rw [node_push_self hother, children, List.filterMap_append, List.mem_append] at hmem
    rcases hmem with hmem | hmem
    · exact hforward address hother child hmem
    · obtain ⟨_, hentry, hsome⟩ := List.mem_filterMap.mp hmem
      rw [List.mem_singleton.mp hentry] at hsome
      exact hchild child hsome
  · rw [node_push_ne hself] at hmem
    exact hforward other hother child hmem

theorem Forward.append_nil (hforward : Forward child? arena) :
    Forward child? (arena ++ [[]]) := by
  intro other hother child hmem
  rw [node_append_nil] at hmem
  rw [List.length_append, List.length_singleton] at hother ⊢
  by_cases hlt : other < arena.length
  · have := hforward other hlt child hmem
    omega
  · rw [node_of_le (by omega)] at hmem
    exact absurd hmem List.not_mem_nil

namespace Rooted

/-- A new tree behind all the nodes there are. -/
theorem plant (hforward : Forward child? arena) : Rooted child? arena.length (arena ++ [[]]) where
  forward := hforward.append_nil
  root_lt := by rw [List.length_append, List.length_singleton]; omega
  once := by
    rw [List.drop_left, List.length_append, List.length_singleton, Nat.sub_self]
    exact .refl _

/-- An entry that refers to no node. -/
theorem push_leaf (h : Rooted child? root arena) (hleaf : child? entry = none)
    (hroot : root ≤ address) (hlt : address < arena.length) :
    Rooted child? root (push arena address entry) where
  forward := h.forward.push fun child hsome => by
    rw [hleaf] at hsome
    nomatch hsome
  root_lt := by rw [length_push]; exact h.root_lt
  once := by
    have hperm := (flatten_push entry hroot hlt).filterMap child?
    rw [List.filterMap_append, List.filterMap_cons_none hleaf, List.filterMap_nil,
      List.append_nil] at hperm
    rw [length_push]
    exact hperm.trans h.once

/-- A new node, with an entry that refers to it. -/
theorem spawn (h : Rooted child? root arena) (hchild : child? entry = some arena.length)
    (hroot : root ≤ address) (hlt : address < arena.length) :
    Rooted child? root (push (arena ++ [[]]) address entry) := by
  have hlength : (arena ++ [[]]).length = arena.length + 1 := by
    rw [List.length_append, List.length_singleton]
  refine ⟨h.forward.append_nil.push fun child hsome => ?_, ?_, ?_⟩
  · rw [hchild, Option.some.injEq] at hsome
    omega
  · have := h.root_lt
    rw [length_push]
    omega
  · have hlonger : address < (arena ++ [[]]).length := by omega
    have hperm := (flatten_push entry hroot hlonger).filterMap child?
    rw [flatten_append_nil (Nat.le_of_lt h.root_lt), List.filterMap_append,
      List.filterMap_cons_some hchild, List.filterMap_nil] at hperm
    have hcount : arena.length + 1 - (root + 1) = (arena.length - (root + 1)) + 1 := by
      have := h.root_lt
      omega
    rw [length_push, hlength, hcount, List.range'_concat]
    refine hperm.trans ((h.once.append_right _).trans ?_)
    rw [show root + 1 + 1 * (arena.length - (root + 1)) = arena.length by
      have := h.root_lt
      omega]

end Rooted

end Growing

end Arena
