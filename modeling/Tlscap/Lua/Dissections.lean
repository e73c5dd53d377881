import Tlscap.Lua.Tree
import Tlscap.Output.Agreement

/-!
# Dissections one after the other

The cells of one dissection are a tree, and are touched by no other dissection as long as
scripts only use the handles they got in the same call.  Then every value a script records
under a name is found under that name exactly once, at whatever depth it was recorded, and
later dissections change nothing of it (`dissections_recorded`).

### Strategy

All dissections work on one heap of cells.  A dissection gets a new cell for its root, and its
subtrees get the cells behind it, so it owns an end of the heap (`Grown`):

* **One call** records a value in a cell, records a subtree in a new cell behind all others,
  or leaves the entries as they are (`Request.perform_cases`).  Made on a handle of the
  dissection it leaves the cells of earlier ones alone, and keeps every subtree behind the
  cell that refers to it; so the cells are a tree and can be read to the bottom.
* **A script** makes one call after the other, and what it does with the replies does not
  matter (`Grown.of_run`).  What was recorded is what the calls recorded, in some order: a
  lookup goes through the tree, the calls go through time.
* **Later dissections** extend the heap (`CellHeap.Extends`), and what is found at a cell of
  the old part stays the same (`Extends.fields_eq`).

Values are counted with their multiplicity, as a permutation of two lists.  The example
nests a subtree and records one field both in and behind it.
-/

namespace Tlscap

open Arena

/-- The leaf of an entry with a name. -/
def namedLeaf (fieldName : Text) : Text × CellValue → Option FieldValue
  | (name, .leaf value) => if name = fieldName then some value.toFieldValue else none
  | (_, .tree _) => none

/-! ### The cells as an arena -/

namespace CellHeap

/-- The entries of every cell. -/
def levels (heap : CellHeap) : List (List (Text × CellValue)) := heap.map Cell.entries

variable {heap : CellHeap} {address : ℕ}

@[simp] theorem length_levels : heap.levels.length = heap.length := List.length_map _

theorem node_levels (address : ℕ) : node heap.levels address = (heap.cell address).entries := by
  simp only [node, levels, cell, List.getD_eq_getElem?_getD, List.getElem?_map]
  cases heap[address]? <;> rfl

@[simp] theorem length_record {name : Text} {value : CellValue} :
    (heap.record address name value).length = heap.length := List.length_modify _ _ _

theorem levels_record (name : Text) (value : CellValue) :
    (heap.record address name value).levels = push heap.levels address (name, value) := by
  refine List.ext_getElem? fun place => ?_
  simp only [levels, record, push, List.getElem?_map, List.getElem?_modify]
  cases heap[place]? with
  | none => rfl
  | some cell => split <;> rfl

theorem levels_append_empty : levels (heap ++ [({} : Cell)]) = heap.levels ++ [[]] :=
  List.map_append

theorem levels_modify {f : Cell → Cell} (hentries : ∀ cell, (f cell).entries = cell.entries) :
    levels (heap.modify address f) = heap.levels := by
  refine List.ext_getElem? fun place => ?_
  simp only [levels, List.getElem?_map, List.getElem?_modify]
  cases heap[place]? with
  | none => rfl
  | some cell =>
      split
      · exact congrArg some (hentries cell)
      · rfl

theorem cell_modify_ne {f : Cell → Cell} {other : ℕ} (hne : address ≠ other) :
    cell (heap.modify address f) other = heap.cell other := by
  simp only [cell, List.getD_eq_getElem?_getD, List.getElem?_modify_ne _ _ hne]

theorem cell_append {later : CellHeap} (hlt : address < heap.length) :
    cell (heap ++ later) address = heap.cell address := by
  simp only [cell, List.getD_eq_getElem?_getD, List.getElem?_append_left hlt]

/-- The lookup of a name meets what is below the cell, in the same order. -/
theorem valuesFor_fields (heap : CellHeap) (fieldName : Text) (address : ℕ) :
    (heap.fields address).valuesFor fieldName =
      (below subtree? heap.levels address).filterMap (namedLeaf fieldName) := by
  unfold fields below
  rw [length_levels]
  generalize heap.length = fuel
  induction fuel generalizing address with
  | zero => rfl
  | succ fuel ih =>
      rw [fold, fold, Cell.read, FrameFields.valuesFor_eq, FrameFields.entries, node_levels, expand,
        List.filterMap_flatMap, List.flatMap_map]
      refine List.flatMap_congr fun entry _ => ?_
      obtain ⟨name, value | child⟩ := entry
      · cases value <;>
          simp only [Leaf.toFieldValue, FrameFields.entryValuesFor, FrameFields.collectEntriesFor,
            subtree?, namedLeaf, List.nil_append, List.filterMap_cons, List.filterMap_nil] <;>
          by_cases hname : name = fieldName <;> simp [hname]
      · simp only [FrameFields.entryValuesFor, FrameFields.collectEntriesFor, subtree?]
        exact ih child

/-- The later heap has the cells of this one, as they are. -/
structure Extends (heap later : CellHeap) : Prop where
  length_le : heap.length ≤ later.length
  cell_eq : ∀ address < heap.length, later.cell address = heap.cell address

theorem Extends.refl (heap : CellHeap) : Extends heap heap := ⟨Nat.le_refl _, fun _ _ => rfl⟩

theorem Extends.trans {later last : CellHeap} (h : Extends heap later) (h' : Extends later last) :
    Extends heap last where
  length_le := Nat.le_trans h.length_le h'.length_le
  cell_eq address hlt := by
    rw [h'.cell_eq address (Nat.lt_of_lt_of_le hlt h.length_le), h.cell_eq address hlt]

/-- The cells a cell refers to. -/
def subtrees (cell : Cell) : List ℕ := children subtree? cell.entries

theorem read_congr {cell : Cell} {visit visit' : ℕ → FrameFields}
    (h : ∀ child ∈ subtrees cell, visit child = visit' child) :
    cell.read visit = cell.read visit' := by
  simp only [Cell.read, FrameFields.mk.injEq, and_true]
  refine List.map_congr_left fun entry hentry => ?_
  obtain ⟨name, value | child⟩ := entry
  · rfl
  · have hchild : child ∈ subtrees cell := List.mem_filterMap.mpr ⟨_, hentry, rfl⟩
    exact congrArg (fun fields => (name, FieldValue.tree fields)) (h child hchild)

/-- What is found at a cell stays the same where its heap is only extended. -/
theorem Extends.fields_eq {later : CellHeap} (h : Extends heap later)
    (hforward : Forward subtree? heap.levels) (hlt : address < heap.length) :
    later.fields address = heap.fields address := by
  symm
  refine fold_congr subtrees id (· < heap.length)
    (fun other hother visit visit' hvisit => ?_) (fun other hother child hchild => ?_)
    (fun _ hother => hother) hlt (Nat.le_add_left _ _)
    (Nat.le_trans h.length_le (Nat.le_add_left _ _))
  · rw [id_eq, h.cell_eq other hother]
    exact read_congr hvisit
  · rw [← length_levels] at hother ⊢
    exact hforward other hother child (by rwa [node_levels])

end CellHeap

/-! ### One call -/

namespace Request

/-- The value a call records, and its name. -/
def recorded : Request → List (Text × CellValue)
  | .add _ args littleEndian =>
    match addedBy args littleEndian with
    | some (.ok (.value name value)) => [(name, .leaf value)]
    | _ => []
  | _ => []

/-- What a call does to the cells: it records a value, or a subtree in a new cell, or it
leaves all entries as they are. -/
theorem perform_cases {heap after : CellHeap} {request : Request} {reply : Except Text Reply}
    (h : request.perform heap = some (after, reply)) :
    (∃ name value, request.recorded = [(name, .leaf value)] ∧
        after = heap.record request.this name (.leaf value)) ∨
      (∃ name, request.recorded = [] ∧
        after = CellHeap.record (heap ++ [({} : Cell)]) request.this name (.tree heap.length)) ∨
      ∃ f : Cell → Cell, request.recorded = [] ∧ (∀ cell, (f cell).entries = cell.entries) ∧
        after = heap.modify request.this f := by
  have hsame : ∀ {this : ℕ}, heap = heap.modify this id := (List.modify_id _ _).symm
  cases request with
  | add this args littleEndian =>
      simp only [perform, dispatchAdd, recorded, Option.map_eq_some_iff] at h ⊢
      obtain ⟨added, hadded, h⟩ := h
      rw [hadded]
      rcases added with message | (⟨name, value⟩ | name | _)
      · cases h
        exact .inr (.inr ⟨id, rfl, fun _ => rfl, hsame⟩)
      · cases h
        exact .inl ⟨name, value, rfl, rfl⟩
      · cases h
        exact .inr (.inl ⟨name, rfl, rfl⟩)
      · cases h
        exact .inr (.inr ⟨id, rfl, fun _ => rfl, hsame⟩)
  | setGenerated this | setHidden this | protocol this | info this =>
      cases h
      exact .inr (.inr ⟨id, rfl, fun _ => rfl, hsame⟩)
  | addExpertInfo this msg | setProtocol this value | setInfo this value =>
      cases h
      refine .inr (.inr ⟨_, rfl, ?_, rfl⟩)
      exact fun _ => rfl

end Request

/-- What some calls on the cells from `root` on have done: those are still a tree, with the
recorded values in it, and the cells before them are as they were. -/
structure Grown (root : ℕ) (heap after : CellHeap) (recorded : List (Text × CellValue)) :
    Prop where
  rooted : Rooted subtree? root after.levels
  leaves_perm : (leaves subtree? (after.levels.drop root).flatten).Perm
    (leaves subtree? (heap.levels.drop root).flatten ++ recorded)
  length_le : heap.length ≤ after.length
  cell_eq : ∀ address < root, after.cell address = heap.cell address

namespace Grown

variable {root : ℕ} {heap after : CellHeap}

theorem refl (h : Rooted subtree? root heap.levels) : Grown root heap heap [] where
  rooted := h
  leaves_perm := by rw [List.append_nil]
  length_le := Nat.le_refl _
  cell_eq _ _ := rfl

theorem trans {later : CellHeap} {recorded more : List (Text × CellValue)}
    (h : Grown root heap after recorded) (h' : Grown root after later more) :
    Grown root heap later (recorded ++ more) where
  rooted := h'.rooted
  leaves_perm := by
    rw [← List.append_assoc]
    exact h'.leaves_perm.trans (h.leaves_perm.append_right more)
  length_le := Nat.le_trans h.length_le h'.length_le
  cell_eq address hlt := (h'.cell_eq address hlt).trans (h.cell_eq address hlt)

/-- One call. -/
theorem of_perform {request : Request} {reply : Except Text Reply}
    (h : Rooted subtree? root heap.levels) (hroot : root ≤ request.this)
    (hlt : request.this < heap.length) (hperform : request.perform heap = some (after, reply)) :
    Grown root heap after request.recorded := by
  have hlt' : request.this < heap.levels.length := by rwa [CellHeap.length_levels]
  have hne : ∀ address < root, request.this ≠ address := fun address haddress => by omega
  rcases Request.perform_cases hperform with
    ⟨name, value, hrecorded, rfl⟩ | ⟨name, hrecorded, rfl⟩ | ⟨f, hrecorded, hentries, rfl⟩
  · -- a value is a leaf of the level
    rw [hrecorded]
    refine ⟨?_, ?_, ?_, fun address haddress => CellHeap.cell_modify_ne (hne address haddress)⟩
    · rw [CellHeap.levels_record]
      exact h.push_leaf rfl hroot hlt'
    · rw [CellHeap.levels_record]
      exact leaves_push hroot hlt'
    · rw [CellHeap.length_record]
  · -- a subtree is a new node and the entry that refers to it
    rw [hrecorded]
    have hlonger : (heap ++ [({} : Cell)]).length = heap.length + 1 := List.length_append
    refine ⟨?_, ?_, ?_, fun address haddress => ?_⟩
    · rw [CellHeap.levels_record, CellHeap.levels_append_empty]
      exact h.spawn (by rw [CellHeap.length_levels]; rfl) hroot hlt'
    · rw [CellHeap.levels_record, CellHeap.levels_append_empty]
      rw [← flatten_append_nil (Nat.le_of_lt h.root_lt)]
      exact leaves_push hroot (by rw [List.length_append]; omega)
    · rw [CellHeap.length_record, hlonger]
      omega
    · rw [CellHeap.record, CellHeap.cell_modify_ne (hne address haddress),
        CellHeap.cell_append (by omega)]
  · -- labels and columns are no entries
    rw [hrecorded]
    refine ⟨?_, ?_, ?_, fun address haddress => CellHeap.cell_modify_ne (hne address haddress)⟩
    · rw [CellHeap.levels_modify hentries]
      exact h
    · rw [CellHeap.levels_modify hentries, List.append_nil]
    · rw [List.length_modify]

/-- A whole script. -/
theorem of_run {τ : Type} {script : Script τ} {called : Called τ}
    (h : Rooted subtree? root heap.levels) (hrun : script.run heap = some called)
    (hown : ∀ request ∈ called.requests, root ≤ request.this) :
    Grown root heap called.heap (called.requests.flatMap Request.recorded) := by
  induction script generalizing heap called with
  | finish ret globals | raise message globals =>
      cases hrun
      exact refl h
  | call request next ih =>
      rw [Script.run] at hrun
      split at hrun
      · next hlt =>
          obtain ⟨⟨after, reply⟩, hperform, hrun⟩ := Option.bind_eq_some_iff.mp hrun
          obtain ⟨rest, hrest, rfl⟩ := Option.map_eq_some_iff.mp hrun
          have hfirst := of_perform h (hown request List.mem_cons_self) hlt hperform
          have hlater := ih reply hfirst.rooted hrest fun other hother =>
            hown other (List.mem_cons_of_mem _ hother)
          rw [List.flatMap_cons]
          exact hfirst.trans hlater
      · cases hrun

end Grown

/-! ### Whole dissections -/

namespace Dissection

variable (dissection : Dissection)

/-- Every call was made on a handle that the script got in the same dissection. -/
def OwnHandles : Prop := ∀ request ∈ dissection.requests, dissection.root ≤ request.this

/-- The values that were recorded under a name. -/
def valuesRecorded (fieldName : Text) : List FieldValue :=
  (dissection.requests.flatMap Request.recorded).filterMap (namedLeaf fieldName)

/-- What a dissection gave is still what its cells hold, with all that was recorded. -/
def Kept (heap : CellHeap) : Prop :=
  ∀ ret fields, dissection.result = .ok (ret, fields) →
    dissection.root < heap.length ∧ heap.fields dissection.root = fields ∧
      ∀ name, (fields.valuesFor name).Perm (dissection.valuesRecorded name)

theorem Kept.extend {dissection : Dissection} {heap later : CellHeap} (h : dissection.Kept heap)
    (hforward : Forward subtree? heap.levels) (hextends : heap.Extends later) :
    dissection.Kept later := by
  intro ret fields hresult
  obtain ⟨hlt, hfields, hvalues⟩ := h ret fields hresult
  refine ⟨Nat.lt_of_lt_of_le hlt hextends.length_le, ?_, hvalues⟩
  rw [hextends.fields_eq hforward hlt, hfields]

end Dissection

section Dissections

variable {τ : Type} {registry : DissectorRegistry τ}

theorem callDissector_kept {state after : CellHeap × τ} {port : UInt16} {plaintext : Bytes}
    {made : Option Dissection} (hforward : Forward subtree? state.1.levels)
    (hcall : callDissector registry state port plaintext = some (after, made))
    (hown : ∀ dissection ∈ made, dissection.OwnHandles) :
    Forward subtree? after.1.levels ∧ state.1.Extends after.1 ∧
      ∀ dissection ∈ made, dissection.Kept after.1 := by
  unfold callDissector at hcall
  split at hcall
  · cases hcall
    exact ⟨hforward, .refl _, fun _ h => nomatch h⟩
  · cases hcall
    refine ⟨hforward, .refl _, fun dissection h => ?_⟩
    cases h
    exact fun ret fields hresult => nomatch hresult
  · obtain ⟨called, hrun, hcalled⟩ := Option.map_eq_some_iff.mp hcall
    cases hcalled
    have hplanted : Rooted subtree? state.1.length
        (CellHeap.levels (state.1 ++ [({} : Cell)])) := by
      rw [CellHeap.levels_append_empty, ← CellHeap.length_levels]
      exact Rooted.plant hforward
    -- the call begins with an empty tree behind all cells, and can only make it grow
    have hgrown := Grown.of_run hplanted hrun (hown _ rfl)
    have hlonger : (state.1 ++ [({} : Cell)]).length = state.1.length + 1 := List.length_append
    have hlength : state.1.length < called.heap.length := by
      have := hgrown.length_le
      omega
    refine ⟨hgrown.rooted.forward, ⟨Nat.le_of_lt hlength, fun address hlt => ?_⟩,
      fun dissection h => ?_⟩
    · rw [hgrown.cell_eq address hlt, CellHeap.cell_append hlt]
    · cases h
      intro ret fields hresult
      obtain ⟨value, hvalue, hfields⟩ : ∃ value, called.outcome = .ok value ∧
          (value, called.heap.fields state.1.length) = (ret, fields) := by
        cases houtcome : called.outcome with
        | error message => rw [houtcome] at hresult; nomatch hresult
        | ok value =>
            rw [houtcome] at hresult
            exact ⟨value, rfl, Except.ok.inj hresult⟩
      cases hfields
      refine ⟨hlength, rfl, fun name => ?_⟩
      have hempty : leaves subtree?
          ((CellHeap.levels (state.1 ++ [({} : Cell)])).drop state.1.length).flatten = [] := by
        rw [CellHeap.levels_append_empty, ← CellHeap.length_levels, List.drop_left]
        rfl
      -- below the top level is all that was recorded, each value once
      have hperm := hgrown.rooted.below_perm.trans hgrown.leaves_perm
      rw [hempty, List.nil_append] at hperm
      rw [CellHeap.valuesFor_fields]
      exact hperm.filterMap _

theorem dissectAll_kept {state after : CellHeap × τ} {inputs : List (UInt16 × Bytes)}
    {dissections : List Dissection} (hforward : Forward subtree? state.1.levels)
    (hrun : dissectAll registry state inputs = some (after, dissections))
    (hown : ∀ dissection ∈ dissections, dissection.OwnHandles) :
    state.1.Extends after.1 ∧ ∀ dissection ∈ dissections, dissection.Kept after.1 := by
  induction inputs generalizing state dissections with
  | nil =>
      cases hrun
      exact ⟨.refl _, fun _ h => nomatch h⟩
  | cons input rest ih =>
      obtain ⟨port, plaintext⟩ := input
      rw [dissectAll] at hrun
      obtain ⟨⟨next, made⟩, hcall, hrun⟩ := Option.bind_eq_some_iff.mp hrun
      obtain ⟨⟨last, later⟩, hlater, hmade⟩ := Option.map_eq_some_iff.mp hrun
      cases hmade
      obtain ⟨hnext, hextends, hkept⟩ := callDissector_kept hforward hcall fun dissection h =>
        hown dissection (List.mem_append_left _ (Option.mem_toList.mpr h))
      obtain ⟨hrest, hkeptLater⟩ := ih hnext hlater fun dissection h =>
        hown dissection (List.mem_append_right _ h)
      refine ⟨hextends.trans hrest, fun dissection h => ?_⟩
      rcases List.mem_append.mp h with h | h
      · exact (hkept dissection (Option.mem_toList.mp h)).extend hnext hrest
      · exact hkeptLater dissection h

variable (registry) in
/-- **Nothing that is recorded gets lost.**  Where the scripts only use handles of their own
dissection, whatever they do with them, a name finds in the fields of each dissection every
value that was recorded under it, exactly once and at whatever depth, and nothing else; and
the cells still hold the same fields after all the dissections that followed. -/
theorem dissections_recorded {globals : τ} {after : CellHeap × τ}
    {inputs : List (UInt16 × Bytes)} {dissections : List Dissection}
    (hrun : dissectAll registry ([], globals) inputs = some (after, dissections))
    (hown : ∀ dissection ∈ dissections, dissection.OwnHandles) :
    ∀ dissection ∈ dissections, ∀ ret fields, dissection.result = .ok (ret, fields) →
      after.1.fields dissection.root = fields ∧
        ∀ name, (fields.valuesFor name).Perm (dissection.valuesRecorded name) := by
  intro dissection hmem ret fields hresult
  have hnone : Forward subtree? (CellHeap.levels []) := fun address hlt => nomatch hlt
  obtain ⟨-, hkept⟩ := dissectAll_kept hnone hrun hown
  exact (hkept dissection hmem ret fields hresult).2

end Dissections

/-! ### A dissector that nests -/

namespace Nesting

/-- The field for the length of a plaintext. -/
def lenField : FieldDef := ⟨"outer.len".toList, .uInt⟩

/-- The field within the subtree. -/
def innerField : FieldDef := ⟨"inner.a".toList, .bytes⟩

/-- The first of two bytes. -/
def innerRange : TvbRange := ⟨⟨[10, 20], by decide⟩, 0, 1⟩

/-- A value, a subtree with a value, and the same field once more behind it. -/
def script (root : ℕ) (plaintext : Bytes) : Script Unit :=
  .call (.add root [.field lenField, .number (UInt64.ofNat plaintext.length)] false) fun _ =>
    .call (.add root [.table (some "outer".toList), .other] false) fun
      | .ok (.treeItem sub) =>
          .call (.add sub [.field innerField, .tvbRange innerRange] true) fun _ =>
            .call (.add sub [.field lenField, .uInt64 7, .integer 3] false) fun _ =>
              .finish .other ()
      | _ => .raise [] ()

/-- The script is the dissector of one port. -/
def registry : DissectorRegistry Unit := fun port =>
  if port = 2222 then some (.ok fun _ plaintext root => script root plaintext) else none

/-- Plaintexts of that port, with one of another port between them. -/
def inputs : List (UInt16 × Bytes) := [(2222, [10, 20]), (443, [1]), (2222, [30])]

/-- The dissections of the plaintexts, with the cells and globals they leave. -/
def run : (CellHeap × Unit) × List Dissection :=
  (dissectAll registry ([], ()) inputs).getD (([], ()), [])

theorem run_eq : dissectAll registry ([], ()) inputs = some (run.1, run.2) := by
  have hsome : (dissectAll registry ([], ()) inputs).isSome = true := by decide +kernel
  obtain ⟨result, hresult⟩ := Option.isSome_iff_exists.mp hsome
  rw [run, hresult, Option.getD_some]

theorem ownHandles : ∀ dissection ∈ run.2, dissection.OwnHandles := by
  have hall : run.2.all fun dissection =>
      dissection.requests.all fun request => dissection.root ≤ request.this := by decide +kernel
  intro dissection hmem request hrequest
  exact of_decide_eq_true (List.all_eq_true.mp (List.all_eq_true.mp hall _ hmem) _ hrequest)

theorem dissections_recorded_nesting :
    run.2.map Dissection.root = [0, 2] ∧
      ∀ dissection ∈ run.2, ∀ ret fields, dissection.result = .ok (ret, fields) →
        run.1.1.fields dissection.root = fields ∧
          ∀ name, (fields.valuesFor name).Perm (dissection.valuesRecorded name) :=
  ⟨by decide +kernel, dissections_recorded registry run_eq ownHandles⟩

end Nesting

end Tlscap
