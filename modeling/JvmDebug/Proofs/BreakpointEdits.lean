import JvmDebug.Proofs.SlotLoading

/-!
Sequences of operations on the breakpoints of one class. What the user is left with is the same
however the target answers: it is read off the sequence alone.
-/
namespace JvmDebug

open Op

/-- An operation on the breakpoints of a class, which go by the order in which they are made. -/
inductive Edit
  | add (kind : BreakpointKind) (condition : Option String)
  | setEnabled (n : Nat) (enabled : Bool)
  | remove (n : Nat)

namespace Edit

/-- Make an edit. The ids of the breakpoints made so far go in and come out. -/
def perform (className : String) (ids : List String) : Edit → Task Session (List String)
  | add kind condition => do
    match ← (Session.addBreakpoint className kind condition).outcome with
    | .ok b => return ids ++ [b.id]
    | .error _ => return ids
  | setEnabled n enabled => do
    if let some id := ids[n]? then
      let _ ← (Session.setEnabled id enabled).outcome
    return ids
  | remove n => do
    if let some id := ids[n]? then
      let _ ← (Session.removeBreakpoint id).outcome
    return ids

def performAll (className : String) (ids : List String) : List Edit → Task Session (List String)
  | [] => return ids
  | e :: es => do
    let ids ← e.perform className ids
    performAll className ids es

def made : Edit → Nat
  | add .. => 1
  | setEnabled .. | remove _ => 0

def madeAll : List Edit → Nat
  | [] => 0
  | e :: es => e.made + madeAll es

/-- The most requests an edit leads to: one for each location of a breakpoint, and a watch. -/
def cost (vm : Vm) (c : TypeId) : Edit → Nat
  | add kind _ => (vm.locationsOf c kind).eraseReps.length + 1
  | setEnabled .. | remove _ => 0

def costAll (vm : Vm) (c : TypeId) : List Edit → Nat
  | [] => 0
  | e :: es => e.cost vm c + costAll vm c es

end Edit

theorem Vm.SameCode.costAll {vm vm' : Vm} (h : vm.SameCode vm') (c : TypeId) (edits : List Edit) :
    Edit.costAll vm' c edits = Edit.costAll vm c edits := by
  induction edits with
  | nil => rfl
  | cons e edits ih => cases e <;> simp only [Edit.costAll, Edit.cost, h.locationsOf, ih]

def Scene.edit (className : String) (edits : List Edit) (c : Scene) : Scene :=
  let (_, session, vm) := (Edit.performAll className [] edits).run Vm.serve c.session c.vm
  { c with session, vm }

/-- What was asked for: how many breakpoints were made, and those that are left. -/
structure Plan where
  count : Nat := 0
  items : List Item := []

def Plan.edit (p : Plan) : Edit → Plan
  | .add kind condition => ⟨p.count + 1, p.items ++ [.made p.count kind condition]⟩
  | .setEnabled n enabled =>
    { p with items := p.items.map fun i => if i.number = n then { i with enabled } else i }
  | .remove n => { p with items := p.items.filter fun i => i.number ≠ n }

def Plan.ofSlots (count : Nat) (slots : List Slot) : Plan := ⟨count, slots.map Slot.item⟩

namespace Plan
variable (count : Nat) (slots : List Slot)

theorem edit_add (t : Slot) (kind : BreakpointKind) (condition : Option String)
    (ht : t.item = .made count kind condition) :
    (ofSlots count slots).edit (.add kind condition) = ofSlots (count + 1) (slots ++ [t]) := by
  rw [ofSlots, ofSlots, List.map_append, List.map_singleton, ht]
  rfl

theorem edit_setEnabled (n : Nat) (enabled : Bool) :
    (ofSlots count slots).edit (.setEnabled n enabled) =
      ofSlots count (slots.map (Slot.switchAt n enabled)) := by
  simp only [edit, ofSlots, List.map_map]
  congr 1
  refine List.map_congr_left fun t _ => ?_
  simp only [Function.comp_apply, Slot.switchAt]
  split <;> rfl

theorem edit_remove (n : Nat) :
    (ofSlots count slots).edit (.remove n) =
      ofSlots count (slots.filter fun t => t.item.number ≠ n) := by
  simp only [edit, ofSlots, List.filter_map]
  rfl

end Plan

def Session.idsMade (s₀ : Session) (count : Nat) : List String :=
  (List.range count).map s₀.nthId

theorem Session.getElem?_idsMade (s₀ : Session) (count n : Nat) :
    (s₀.idsMade count)[n]? = if n < count then some (s₀.nthId n) else none := by
  rw [idsMade, List.getElem?_map]
  by_cases hn : n < count
  · rw [if_pos hn, List.getElem?_range hn, Option.map_some]
  · rw [if_neg hn, List.getElem?_eq_none (by simpa using hn), Option.map_none]

/-! ## Edits by number -/

/-- What is asked for by number is made of the breakpoint with the number, if there has been one. -/
theorem Session.run_numbered {α : Type} (s₀ s : Session) (vm : Vm) (count n : Nat)
    (op : String → Op DebugError Session α) :
    (do
      if let some id := (s₀.idsMade count)[n]? then
        let _ ← (op id).outcome
      return s₀.idsMade count : Task Session (List String)).run Vm.serve s vm =
    (s₀.idsMade count,
      if n < count then ((op (s₀.nthId n)).outcome.run Vm.serve s vm).2 else (s, vm)) := by
  rw [Session.getElem?_idsMade]
  by_cases hn : n < count
  · simp only [if_pos hn, Routine.bind_eq, Routine.run_bind]
    rfl
  · simp only [if_neg hn]
    rfl

namespace Laid
variable {s₀ s : Session} {vm₀ vm : Vm} {info : TypeInfo} {total : Nat}
  {watch : Option RequestId} {slots : List Slot} {count room : Nat}

theorem number_ne (h : Laid s₀ vm₀ info watch slots count s vm) {n : Nat} (hn : ¬n < count) :
    ∀ t ∈ slots, t.item.number ≠ n :=
  fun t ht => ((h.below t ht).trans_le (Nat.le_of_not_lt hn)).ne

theorem perform_setEnabled (h : Laid s₀ vm₀ info watch slots count s vm) (hids : s₀.FreshIds total)
    (hcount : count ≤ total) (hroom : vm.Room room) (n : Nat) (enabled : Bool) :
    ∃ s' vm', ((Edit.setEnabled n enabled).perform info.name (s₀.idsMade count)).run Vm.serve s vm =
        (s₀.idsMade count, s', vm') ∧
      Laid s₀ vm₀ info watch (slots.map (Slot.switchAt n enabled)) count s' vm' ∧ vm'.Room room := by
  have hperform := Session.run_numbered s₀ s vm count n (Session.setEnabled · enabled)
  by_cases hn : n < count
  · obtain ⟨s', vm', hrun, hlaid, hroom'⟩ :=
      h.setEnabled hids hcount (hn.trans_le hcount) hroom enabled
    rw [if_pos hn] at hperform
    exact ⟨s', vm', hperform.trans (congrArg _ hrun), hlaid, hroom'⟩
  · rw [if_neg hn] at hperform
    exact ⟨s, vm, hperform, h.switched_of_notMem (h.number_ne hn) enabled, hroom⟩

theorem perform_remove (h : Laid s₀ vm₀ info watch slots count s vm) (hids : s₀.FreshIds total)
    (hcount : count ≤ total) (hroom : vm.Room room) (n : Nat) :
    ∃ s' vm', ((Edit.remove n).perform info.name (s₀.idsMade count)).run Vm.serve s vm =
        (s₀.idsMade count, s', vm') ∧
      Laid s₀ vm₀ info (if (slots.filter fun t => t.item.number ≠ n).isEmpty then none else watch)
        (slots.filter fun t => t.item.number ≠ n) count s' vm' ∧ vm'.Room room := by
  have hperform := Session.run_numbered s₀ s vm count n Session.removeBreakpoint
  by_cases hn : n < count
  · obtain ⟨s', vm', hrun, hlaid, hroom'⟩ := h.remove hids hcount (hn.trans_le hcount) hroom
    rw [if_pos hn] at hperform
    exact ⟨s', vm', hperform.trans (congrArg _ hrun), hlaid, hroom'⟩
  · rw [if_neg hn] at hperform
    exact ⟨s, vm, hperform, h.filtered_of_notMem (h.number_ne hn), hroom⟩

end Laid

/-! ## Stages -/

/-- A stage in the life of a class. Slots as `P` has them stay so under edits, which leave room for
`keep` more requests. -/
structure Stage (s₀ : Session) (vm₀ : Vm) (info : TypeInfo) (total : Nat)
    (P : Option RequestId → List Slot → Prop) (keep : List Slot → Nat) : Prop where
  switch {watch : Option RequestId} {slots : List Slot} (n : Nat) (enabled : Bool) :
    P watch slots → P watch (slots.map (Slot.switchAt n enabled))
  remove {watch : Option RequestId} {slots : List Slot} (n : Nat) : P watch slots →
    P (if (slots.filter fun t => t.item.number ≠ n).isEmpty then none else watch)
      (slots.filter fun t => t.item.number ≠ n)
  keep_switch (slots : List Slot) (n : Nat) (enabled : Bool) :
    keep (slots.map (Slot.switchAt n enabled)) = keep slots
  keep_remove (slots : List Slot) (n : Nat) :
    keep (slots.filter fun t => t.item.number ≠ n) ≤ keep slots
  add {watch : Option RequestId} {slots : List Slot} {count room : Nat} {s : Session} {vm : Vm}
    {kind : BreakpointKind} (condition : Option String) :
    Laid s₀ vm₀ info watch slots count s vm → P watch slots → count < total →
    vm₀.locationsOf info.id kind ≠ [] →
    vm.Room (room + Edit.cost vm₀ info.id (.add kind condition) + keep slots) →
    ∃ watch' t b s' vm', exec (Session.addBreakpoint info.name kind condition) s vm =
        (.ok b, s', vm') ∧ b.id = s₀.nthId count ∧ t.item = .made count kind condition ∧
      Laid s₀ vm₀ info watch' (slots ++ [t]) (count + 1) s' vm' ∧ P watch' (slots ++ [t]) ∧
      vm'.Room (room + keep (slots ++ [t]))

namespace Stage
variable {s₀ s : Session} {vm₀ vm : Vm} {info : TypeInfo} {total : Nat}
  {P : Option RequestId → List Slot → Prop} {keep : List Slot → Nat}
  {watch : Option RequestId} {slots : List Slot} {count room : Nat}

theorem step (stage : Stage s₀ vm₀ info total P keep) (hids : s₀.FreshIds total) (e : Edit)
    (h : Laid s₀ vm₀ info watch slots count s vm) (hP : P watch slots)
    (hcount : count + e.made ≤ total)
    (hlocations : ∀ kind condition, e = .add kind condition → vm₀.locationsOf info.id kind ≠ [])
    (hroom : vm.Room (room + e.cost vm₀ info.id + keep slots)) :
    ∃ watch' slots' s' vm', (e.perform info.name (s₀.idsMade count)).run Vm.serve s vm =
        (s₀.idsMade (count + e.made), s', vm') ∧
      Laid s₀ vm₀ info watch' slots' (count + e.made) s' vm' ∧ P watch' slots' ∧
      vm'.Room (room + keep slots') ∧
      Plan.ofSlots (count + e.made) slots' = (Plan.ofSlots count slots).edit e := by
  cases e with
  | add kind condition =>
    obtain ⟨watch', t, b, s', vm', hrun, hid, hitem, hlaid, hP', hroom'⟩ :=
      stage.add condition h hP hcount (hlocations kind condition rfl) hroom
    have houtcome : (Session.addBreakpoint info.name kind condition).outcome.run Vm.serve s vm =
        (.ok b, s', vm') := hrun
    refine ⟨watch', slots ++ [t], s', vm', ?_, hlaid, hP', hroom',
      (Plan.edit_add count slots t kind condition hitem).symm⟩
    simp only [Edit.perform, Routine.bind_eq, Routine.run_bind, houtcome]
    rw [hid]
    simp [Session.idsMade, Edit.made, List.range_succ, Routine.run]
  | setEnabled n enabled =>
    have hroom' : vm.Room (room + keep (slots.map (Slot.switchAt n enabled))) := by
      rw [stage.keep_switch]
      exact hroom
    obtain ⟨s', vm', hrun, hlaid, hroom''⟩ := h.perform_setEnabled hids hcount hroom' n enabled
    exact ⟨watch, _, s', vm', hrun, hlaid, stage.switch n enabled hP, hroom'',
      (Plan.edit_setEnabled count slots n enabled).symm⟩
  | remove n =>
    have hroom' : vm.Room (room + keep (slots.filter fun t => t.item.number ≠ n)) :=
      hroom.mono (Nat.add_le_add_left (stage.keep_remove slots n) _)
    obtain ⟨s', vm', hrun, hlaid, hroom''⟩ := h.perform_remove hids hcount hroom' n
    exact ⟨_, _, s', vm', hrun, hlaid, stage.remove n hP, hroom'',
      (Plan.edit_remove count slots n).symm⟩

theorem run (stage : Stage s₀ vm₀ info total P keep) (hids : s₀.FreshIds total) (edits : List Edit)
    (h : Laid s₀ vm₀ info watch slots count s vm) (hP : P watch slots)
    (hcount : count + Edit.madeAll edits ≤ total)
    (hlocations : ∀ kind condition, .add kind condition ∈ edits →
      vm₀.locationsOf info.id kind ≠ [])
    (hroom : vm.Room (Edit.costAll vm₀ info.id edits + keep slots)) :
    ∃ watch' slots' count' s' vm',
      (Edit.performAll info.name (s₀.idsMade count) edits).run Vm.serve s vm =
        (s₀.idsMade count', s', vm') ∧
      Laid s₀ vm₀ info watch' slots' count' s' vm' ∧ P watch' slots' ∧ count' ≤ total ∧
      vm'.Room (keep slots') ∧
      Plan.ofSlots count' slots' = edits.foldl Plan.edit (Plan.ofSlots count slots) := by
  induction edits generalizing watch slots count s vm with
  | nil =>
    rw [Edit.costAll, Nat.zero_add] at hroom
    exact ⟨watch, slots, count, s, vm, rfl, h, hP, hcount, hroom, rfl⟩
  | cons e edits ih =>
    rw [Edit.madeAll] at hcount
    rw [Edit.costAll, Nat.add_comm (e.cost vm₀ info.id)] at hroom
    obtain ⟨watch₁, slots₁, s₁, vm₁, hrun₁, hlaid₁, hP₁, hroom₁, hplan₁⟩ :=
      stage.step hids e h hP (by omega)
        (fun kind condition he => hlocations kind condition (he ▸ List.mem_cons_self)) hroom
    obtain ⟨watch₂, slots₂, count₂, s₂, vm₂, hrun₂, hlaid₂, hP₂, hcount₂, hroom₂, hplan₂⟩ :=
      ih hlaid₁ hP₁ (by omega)
        (fun kind condition hmem => hlocations kind condition (List.mem_cons_of_mem _ hmem)) hroom₁
    refine ⟨watch₂, slots₂, count₂, s₂, vm₂, ?_, hlaid₂, hP₂, hcount₂, hroom₂, ?_⟩
    · simp only [Edit.performAll, Routine.bind_eq, Routine.run_bind, hrun₁]
      exact hrun₂
    · rw [hplan₂, hplan₁, List.foldl_cons]

end Stage

end JvmDebug
