import JvmDebug.Proofs.Execution
import Mathlib.Data.List.Flatten
import Mathlib.Data.List.Nodup
import Mathlib.Data.List.Pairwise

/-!
The breakpoints of one class laid out in order, with the requests of each. A slot holds one
breakpoint; the tables of a session and the requests of its target are read off the slots, whether
the breakpoints wait for the class or are installed in it.
-/
namespace JvmDebug

/-- What a user has asked for: the breakpoint made as number `number`. -/
structure Item where
  number : Nat
  kind : BreakpointKind
  condition : Option String
  enabled : Bool

/-- A breakpoint with its requests on the target, none while it waits for its class. -/
structure Slot where
  item : Item
  block : Option (List (RequestId × Request)) := none

namespace Slot

def held (t : Slot) : List (RequestId × Request) := t.block.getD []

def requests (t : Slot) : List RequestId := t.held.map Prod.fst

theorem held_of_waiting {slots : List Slot} (h : ∀ t ∈ slots, t.block = none) :
    slots.flatMap held = [] := by
  refine List.flatMap_eq_nil_iff.2 fun t ht => ?_
  rw [held, h t ht]
  rfl

def switch (enabled : Bool) (t : Slot) : Slot where
  item := { t.item with enabled }
  block := t.block.map (·.map fun p => (p.1, { p.2 with enabled }))

@[simp] theorem switch_number (enabled : Bool) (t : Slot) :
    (t.switch enabled).item.number = t.item.number := rfl

theorem held_switch (enabled : Bool) (t : Slot) :
    (t.switch enabled).held = t.held.map fun p => (p.1, { p.2 with enabled }) := by
  obtain ⟨item, _ | block⟩ := t <;> rfl

theorem requests_switch (enabled : Bool) (t : Slot) :
    (t.switch enabled).requests = t.requests := by
  simp only [requests, held_switch, List.map_map, Function.comp_def]

def others (t : Slot) (slots : List Slot) : List Slot :=
  slots.filter fun u => u.item.number ≠ t.item.number

def switchAt (n : Nat) (enabled : Bool) (t : Slot) : Slot :=
  if t.item.number = n then t.switch enabled else t

def replaceIn (t t' : Slot) (slots : List Slot) : List Slot :=
  slots.map fun u => if u.item.number = t.item.number then t' else u

theorem replaceIn_switch {t : Slot} {slots : List Slot}
    (h : ∀ u ∈ slots, u.item.number = t.item.number → u = t) (enabled : Bool) :
    t.replaceIn (t.switch enabled) slots = slots.map (switchAt t.item.number enabled) := by
  refine List.map_congr_left fun u hu => ?_
  rw [switchAt]
  by_cases hn : u.item.number = t.item.number
  · rw [if_pos hn, if_pos hn, h u hu hn]
  · rw [if_neg hn, if_neg hn]

theorem replaceIn_append {t t' : Slot} {before after : List Slot}
    (h : ((before ++ t :: after).map fun u => u.item.number).Nodup) :
    t.replaceIn t' (before ++ t :: after) = before ++ t' :: after := by
  rw [List.map_append, List.map_cons, List.nodup_append'] at h
  obtain ⟨-, hafter, hdisjoint⟩ := h
  have hkeep (slots : List Slot) (hno : ∀ u ∈ slots, u.item.number ≠ t.item.number) :
      t.replaceIn t' slots = slots :=
    (List.map_congr_left fun u hu => if_neg (hno u hu)).trans (List.map_id _)
  rw [replaceIn, List.map_append, List.map_cons, if_pos rfl]
  congr 1
  · refine hkeep before fun u hu heq => hdisjoint (List.mem_map_of_mem hu) ?_
    rw [heq]
    exact List.mem_cons_self
  · congr 1
    refine hkeep after fun u hu heq => (List.nodup_cons.1 hafter).1 ?_
    exact List.mem_map.2 ⟨u, hu, heq⟩

end Slot

/-! ## Blocks of requests -/

section Blocks
variable {before : List (RequestId × Request)} {slots : List Slot} {t u : Slot}

def Apart (before : List (RequestId × Request)) (slots : List Slot) : Prop :=
  ((before ++ slots.flatMap Slot.held).map Prod.fst).Nodup

theorem Apart.notMem_of_before (h : Apart before slots) (ht : t ∈ slots) {p : RequestId × Request}
    (hp : p ∈ before) : p.1 ∉ t.requests := by
  rw [Apart, List.map_append] at h
  have hdisjoint := (List.nodup_append'.1 h).2.2
  intro hmem
  refine hdisjoint (List.mem_map_of_mem hp) ?_
  rw [List.map_flatMap]
  exact List.mem_flatMap.2 ⟨t, ht, hmem⟩

theorem Apart.notMem_of_slot (h : Apart before slots) (ht : t ∈ slots) (hu : u ∈ slots)
    (hne : u.item.number ≠ t.item.number) {p : RequestId × Request} (hp : p ∈ u.held) :
    p.1 ∉ t.requests := by
  rw [Apart, List.map_append, List.map_flatMap] at h
  have hpairs := (List.nodup_flatMap.1 (List.nodup_append'.1 h).2.1).2
  have hsymm : Std.Symm (Function.onFun List.Disjoint fun t : Slot => t.held.map Prod.fst) :=
    ⟨fun _ _ h => h.symm⟩
  have hut : u ≠ t := fun h => hne (h ▸ rfl)
  exact hpairs.forall hu ht hut (List.mem_map_of_mem hp)

theorem Apart.switch (h : Apart before slots) (ht : t ∈ slots)
    (hnumbers : ∀ u ∈ slots, u.item.number = t.item.number → u = t) (enabled : Bool) :
    (before ++ slots.flatMap Slot.held).map
        (fun p => if p.1 ∈ t.requests then (p.1, { p.2 with enabled }) else p) =
      before ++ (t.replaceIn (t.switch enabled) slots).flatMap Slot.held := by
  rw [Slot.replaceIn, List.map_append, List.map_flatMap, List.flatMap_map]
  congr 1
  · refine (List.map_congr_left fun p hp => ?_).trans (List.map_id _)
    exact if_neg (h.notMem_of_before ht hp)
  · refine List.flatMap_congr fun u hu => ?_
    by_cases hn : u.item.number = t.item.number
    · rw [if_pos hn, Slot.held_switch, hnumbers u hu hn]
      refine List.map_congr_left fun p hp => ?_
      exact if_pos (List.mem_map_of_mem hp)
    · rw [if_neg hn]
      refine (List.map_congr_left fun p hp => ?_).trans (List.map_id _)
      exact if_neg (h.notMem_of_slot ht hu hn hp)

theorem Apart.remove (h : Apart before slots) (ht : t ∈ slots)
    (hnumbers : ∀ u ∈ slots, u.item.number = t.item.number → u = t) :
    (before ++ slots.flatMap Slot.held).filter (fun p => p.1 ∉ t.requests) =
      before ++ (t.others slots).flatMap Slot.held := by
  have hbefore : before.filter (fun p => p.1 ∉ t.requests) = before :=
    List.filter_eq_self.2 fun p hp => decide_eq_true (h.notMem_of_before ht hp)
  have hheld (u : Slot) (hu : u ∈ slots) : u.held.filter (fun p => p.1 ∉ t.requests) =
      if u.item.number ≠ t.item.number then u.held else [] := by
    by_cases hn : u.item.number = t.item.number
    · rw [if_neg (not_not.2 hn), hnumbers u hu hn]
      refine List.filter_eq_nil_iff.2 fun p hp => ?_
      rw [decide_eq_true_iff, not_not]
      exact List.mem_map_of_mem hp
    · rw [if_pos hn]
      exact List.filter_eq_self.2 fun p hp => decide_eq_true (h.notMem_of_slot ht hu hn hp)
  rw [List.filter_append, hbefore, List.filter_flatMap, List.flatMap_congr hheld]
  congr 1
  clear h ht hnumbers hheld hbefore
  rw [Slot.others]
  induction slots with
  | nil => rfl
  | cons u slots ih =>
    rw [List.flatMap_cons, ih, List.filter_cons]
    by_cases hn : u.item.number = t.item.number <;> simp [hn]

end Blocks

end JvmDebug
