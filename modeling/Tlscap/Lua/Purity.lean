import Tlscap.Lua.Dissections

/-!
# Dissectors that keep nothing

A dissector that keeps nothing between its calls does the same for the same bytes: only the
places of its cells depend on what was dissected before.  Such a dissector is written here
with the numbers that handles have within one dissection, the top level being `0`, and is
placed at the cells its call gets.

## Strategy

Two runs of a dissector are compared through a heap of its own: the cells of a dissection
that is placed behind other cells are those of the dissection alone, with their handles
moved (`CellHeap.place`).

* **One call** on a placed handle does to the placed cells what it does to the dissection's
  own, and its reply is the placed reply (`Request.perform_place`).
* **A whole script** does too, by induction over its calls (`Script.run_placed`).
* **What is read back** are the values below the top level, which no placing changes
  (`CellHeap.fields_place`).

So a virtual machine that runs dissectors of this kind is pure (`isPure_of_placed`), as the
results about two orders of the same traffic ask for.
-/

namespace Tlscap

open Arena

/-! ### Placing a dissection -/

/-- A subtree keeps its place within the dissection. -/
def CellValue.shift (base : ℕ) : CellValue → CellValue
  | .leaf value => .leaf value
  | .tree address => .tree (base + address)

/-- A cell whose subtrees are `base` cells further on. -/
def Cell.shift (base : ℕ) (cell : Cell) : Cell :=
  { cell with entries := cell.entries.map fun entry => (entry.1, entry.2.shift base) }

/-- A reply with the handle that is `base` cells further on. -/
def Reply.shift (base : ℕ) : Reply → Reply
  | .treeItem handle => .treeItem (base + handle)
  | .text value => .text value
  | .nil => .nil

/-- The number a handle has within its dissection. -/
def Reply.unshift (base : ℕ) : Reply → Reply
  | .treeItem handle => .treeItem (handle - base)
  | .text value => .text value
  | .nil => .nil

/-- The request on the handle that is `base` cells further on. -/
def Request.shift (base : ℕ) : Request → Request
  | .add this args littleEndian => .add (base + this) args littleEndian
  | .setGenerated this => .setGenerated (base + this)
  | .setHidden this => .setHidden (base + this)
  | .addExpertInfo this msg => .addExpertInfo (base + this) msg
  | .protocol this => .protocol (base + this)
  | .setProtocol this value => .setProtocol (base + this) value
  | .info this => .info (base + this)
  | .setInfo this value => .setInfo (base + this) value

/-- The script with its own numbers of handles, at the cells from `base` on.  It leaves the
globals as they are. -/
def Script.placed {τ : Type} (base : ℕ) (globals : τ) : Script Unit → Script τ
  | .finish ret _ => .finish ret globals
  | .raise message _ => .raise message globals
  | .call request next =>
      .call (request.shift base) fun reply =>
        (next (reply.map (Reply.unshift base))).placed base globals

section Placing

variable {base : ℕ}

@[simp] theorem Reply.unshift_shift (reply : Reply) :
    (reply.shift base).unshift base = reply := by
  cases reply with
  | treeItem handle => simp only [Reply.shift, Reply.unshift, Nat.add_sub_cancel_left]
  | text value => rfl
  | nil => rfl

@[simp] theorem Request.this_shift (request : Request) :
    (request.shift base).this = base + request.this := by
  cases request <;> rfl

namespace CellHeap

variable (heap own : CellHeap)

/-- Some cells, behind those of a heap. -/
def place : CellHeap := heap ++ own.map (Cell.shift heap.length)

@[simp] theorem length_place : (place heap own).length = heap.length + own.length := by
  rw [place, List.length_append, List.length_map]

theorem cell_place (address : ℕ) :
    cell (place heap own) (heap.length + address) = (own.cell address).shift heap.length := by
  simp only [cell, place, List.getD_eq_getElem?_getD]
  rw [List.getElem?_append_right (Nat.le_add_right _ _), Nat.add_sub_cancel_left, List.getElem?_map]
  cases own[address]? <;> rfl

theorem modify_place {f f' : Cell → Cell}
    (hshift : ∀ cell, f (cell.shift heap.length) = (f' cell).shift heap.length) (address : ℕ) :
    List.modify (place heap own) (heap.length + address) f =
      place heap (own.modify address f') := by
  have hbehind : ∀ before behind : CellHeap, List.modify (before ++ behind)
      (before.length + address) f = before ++ behind.modify address f := by
    intro before behind
    induction before with
    | nil => rw [List.length_nil, Nat.zero_add]; rfl
    | cons cell before ih =>
        rw [List.cons_append, List.length_cons, Nat.add_right_comm, List.modify_succ_cons, ih]
        rfl
  have hmap : ∀ address, List.modify (own.map (Cell.shift heap.length)) address f =
      (List.modify own address f').map (Cell.shift heap.length) := by
    intro address
    induction own generalizing address with
    | nil => rw [List.map_nil, List.modify_nil, List.modify_nil, List.map_nil]
    | cons cell own ih =>
        cases address with
        | zero => rw [List.map_cons, List.modify_zero_cons, hshift, List.modify_zero_cons]; rfl
        | succ address =>
            rw [List.map_cons, List.modify_succ_cons, ih, List.modify_succ_cons, List.map_cons]
  rw [place, hbehind, hmap, place]

theorem record_place (address : ℕ) (name : Text) (value : CellValue) :
    (place heap own).record (heap.length + address) name (value.shift heap.length) =
      place heap (own.record address name value) := by
  refine modify_place heap own (fun cell => ?_) address
  simp only [Cell.shift, List.map_append, List.map_cons, List.map_nil]

theorem place_append_empty :
    place heap own ++ [({} : Cell)] = place heap (own ++ [({} : Cell)]) := by
  rw [place, place, List.map_append, List.append_assoc]
  rfl

theorem fields_place (hforward : Forward subtree? own.levels) (hlt : 0 < own.length) :
    (place heap own).fields heap.length = own.fields 0 := by
  symm
  refine fold_congr subtrees (heap.length + ·) (· < own.length)
    (fun other hother visit visit' hvisit => ?_) (fun other hother child hchild => ?_)
    (fun _ hother => hother) hlt (Nat.le_add_left _ _) ?_
  · rw [cell_place]
    simp only [Cell.read, Cell.shift, FrameFields.mk.injEq, and_true, List.map_map]
    refine List.map_congr_left fun entry hentry => ?_
    obtain ⟨name, value | child⟩ := entry
    · rfl
    · have hchild : child ∈ subtrees (own.cell other) :=
        List.mem_filterMap.mpr ⟨_, hentry, rfl⟩
      exact congrArg (fun fields => (name, FieldValue.tree fields)) (hvisit child hchild)
  · rw [← length_levels] at hother ⊢
    exact hforward other hother child (by rwa [node_levels])
  · rw [length_place]
    omega

end CellHeap

/-- A placed call does the same, at its place. -/
theorem Request.perform_place (heap own : CellHeap) (request : Request) :
    (request.shift heap.length).perform (heap.place own) =
      (request.perform own).map fun done =>
        (heap.place done.1, done.2.map (Reply.shift heap.length)) := by
  cases request with
  | add this args littleEndian =>
      simp only [perform, shift, dispatchAdd, Option.map_map]
      congr 1
      funext added
      rcases added with message | (⟨name, value⟩ | name | _)
      · rfl
      · exact congrArg (fun cells => (cells, Except.ok (Reply.treeItem (heap.length + this))))
          (CellHeap.record_place heap own this name (.leaf value))
      · have hrecord := CellHeap.record_place heap (own ++ [({} : Cell)]) this name
          (.tree own.length)
        simp only [Function.comp, CellHeap.place_append_empty, CellHeap.length_place]
        exact congrArg (fun cells => (cells, Except.ok (Reply.treeItem (heap.length + own.length))))
          hrecord
      · rfl
  | setGenerated this | setHidden this => rfl
  | addExpertInfo this msg | setProtocol this value | setInfo this value =>
      refine congrArg (fun cells => some (cells, Except.ok Reply.nil))
        (CellHeap.modify_place heap own (fun cell => ?_) this)
      rfl
  | protocol this | info this =>
      simp only [perform, shift, CellHeap.cell_place]
      rfl

/-- So does a placed script. -/
theorem Script.run_placed {τ : Type} (heap : CellHeap) (globals : τ) (script : Script Unit)
    (own : CellHeap) :
    (script.placed heap.length globals).run (heap.place own) =
      (script.run own).map fun called =>
        ⟨heap.place called.heap, globals, called.requests.map (Request.shift heap.length),
          called.outcome⟩ := by
  induction script generalizing own with
  | finish ret _ | raise message _ => rfl
  | call request next ih =>
      rw [placed, run, run, Request.this_shift, CellHeap.length_place]
      by_cases hlt : request.this < own.length
      · rw [if_pos hlt, if_pos (Nat.add_lt_add_left hlt _), Request.perform_place]
        cases request.perform own with
        | none => rfl
        | some done =>
            obtain ⟨after, reply⟩ := done
            have hreply : (reply.map (Reply.shift heap.length)).map (Reply.unshift heap.length) =
                reply := by
              cases reply with
              | error message => rfl
              | ok reply => exact congrArg Except.ok (Reply.unshift_shift reply)
            simp only [Option.map_some, Option.bind_some, hreply, ih, Option.map_map]
            rfl
      · rw [if_neg hlt, if_neg (by omega)]
        rfl

end Placing

/-! ### Pure virtual machines -/

/-- The virtual machine runs these dissectors; what it does where one panics is open. -/
structure LuaVm.Runs {τ : Type} (vm : LuaVm (CellHeap × τ)) (registry : DissectorRegistry τ) :
    Prop where
  hasDissectorForPort : ∀ state port, vm.hasDissectorForPort state port = (registry port).isSome
  call : ∀ {state port plaintext after dissection},
    callDissector registry state port plaintext = some (after, some dissection) →
      vm.call state port plaintext = (after, dissection.result)

/-- The dissectors that keep nothing, one for each port at most. -/
abbrev PlacedRegistry := UInt16 → Option (Bytes → Script Unit)

namespace PlacedRegistry

variable (scripts : PlacedRegistry)

/-- The dissectors, each at the cells its call gets. -/
def registry (τ : Type) : DissectorRegistry τ := fun port =>
  (scripts port).map fun script =>
    .ok fun globals plaintext root => (script plaintext).placed root globals

/-- No dissector panics. -/
def Safe : Prop :=
  ∀ port, ∀ script ∈ scripts port, ∀ plaintext, (script plaintext).run [{}] ≠ none

/-- What a dissection gives on its own. -/
def result (port : UInt16) (plaintext : Bytes) : Except Text (Option (FrameFields × ℕ)) :=
  match scripts port with
  | none => .ok none
  | some script =>
    match (script plaintext).run [{}] with
    | none => .ok none
    | some called => called.outcome.map fun ret =>
        some (called.heap.fields 0, LuaVm.consumed ret plaintext.length)

end PlacedRegistry

/-- A dissection at its place gives what it gives on its own. -/
theorem callDissector_placed {τ : Type} {script : Bytes → Script Unit} {scripts : PlacedRegistry}
    {port : UInt16} (hscript : scripts port = some script) (state : CellHeap × τ)
    {plaintext : Bytes} {called : Called Unit} (hrun : (script plaintext).run [{}] = some called) :
    ∃ after requests, callDissector (scripts.registry τ) state port plaintext =
      some (after, some ⟨state.1.length, requests,
        called.outcome.map fun ret => (ret, called.heap.fields 0)⟩) := by
  obtain ⟨heap, globals⟩ := state
  have hplaced := Script.run_placed heap globals (script plaintext) [{}]
  have hnone : Forward subtree? (CellHeap.levels []) := fun address hlt => nomatch hlt
  have hrooted : Rooted subtree? 0 (CellHeap.levels [{}]) := Rooted.plant hnone
  have hgrown := Grown.of_run hrooted hrun fun request _ => Nat.zero_le _
  rw [hrun, Option.map_some] at hplaced
  have hregistry : scripts.registry τ port =
      some (.ok fun globals plaintext root => (script plaintext).placed root globals) := by
    rw [PlacedRegistry.registry, hscript, Option.map_some]
  refine ⟨(heap.place called.heap, globals), called.requests.map (Request.shift heap.length), ?_⟩
  rw [callDissector, hregistry]
  change Option.map _ (Script.run _ (heap.place [{}])) = _
  rw [hplaced, Option.map_some]
  dsimp only
  rw [CellHeap.fields_place heap called.heap hgrown.rooted.forward hgrown.length_le]

/-- **A dissector that keeps nothing is a function of the port and the bytes.**  What was
dissected before it changes nothing of what it gives, though it works on the same heap. -/
theorem isPure_of_placed {τ : Type} {vm : LuaVm (CellHeap × τ)} {scripts : PlacedRegistry}
    (hruns : vm.Runs (scripts.registry τ)) (hsafe : scripts.Safe) : vm.IsPure scripts.result := by
  intro state port plaintext
  rw [LuaVm.dissect, hruns.hasDissectorForPort, PlacedRegistry.registry, PlacedRegistry.result]
  cases hscript : scripts port with
  | none => rfl
  | some script =>
      obtain ⟨called, hrun⟩ :=
        Option.ne_none_iff_exists'.mp (hsafe port script hscript plaintext)
      obtain ⟨after, requests, hcall⟩ := callDissector_placed hscript state hrun
      simp only [Option.map_some, Option.isSome_some, if_true, hruns.call hcall, hrun]
      cases called.outcome <;> rfl

namespace Nesting

/-- The same dissector, with the numbers handles have within one dissection. -/
def placedScripts : PlacedRegistry := fun port => if port = 2222 then some (script 0) else none

/-- A virtual machine that fails where a dissector panics. -/
def vm : LuaVm (CellHeap × Unit) where
  hasDissectorForPort _ port := (placedScripts.registry Unit port).isSome
  call state port plaintext :=
    match callDissector (placedScripts.registry Unit) state port plaintext with
    | some (after, some dissection) => (after, dissection.result)
    | _ => (state, .error "panicked".toList)
  gcCollect state := state

theorem vm_runs : vm.Runs (placedScripts.registry Unit) where
  hasDissectorForPort _ _ := rfl
  call hcall := by simp only [vm, hcall]

theorem safe : placedScripts.Safe := by
  intro port chosen hchosen plaintext
  unfold placedScripts at hchosen
  split at hchosen
  · obtain rfl := Option.some.inj hchosen
    have hsome : ((script 0 plaintext).run [{}]).isSome = true := rfl
    exact Option.isSome_iff_ne_none.mp hsome
  · nomatch hchosen

theorem isPure_nesting :
    placedScripts.Safe ∧ (placedScripts 2222).isSome ∧ vm.IsPure placedScripts.result :=
  ⟨safe, rfl, isPure_of_placed vm_runs safe⟩

end Nesting

end Tlscap
