import JvmDebug.Proofs.KnownTypes
import Mathlib.Algebra.GroupWithZero.Nat

/-!
The variables that are visible in a frame. A variable is in scope from its index on, for as many
indices as its length says. The end of its range is a sum of two numbers from the wire and is
reckoned in 64 bits, so a variable whose range begins in time is hidden if the range goes on beyond
the last index that there is: `Work.visible_iff_no_wrap`.
-/
namespace JvmDebug.Wire

/-! ## Ranges -/

namespace VariableEntry
variable {v : VariableEntry} {index : UInt64}

/-- The range of the variable, reckoned without a limit. -/
def InScope (v : VariableEntry) (index : UInt64) : Prop :=
  v.index.toNat ≤ index.toNat ∧ index.toNat < v.index.toNat + v.length.toNat

instance (v : VariableEntry) (index : UInt64) : Decidable (v.InScope index) :=
  inferInstanceAs (Decidable (_ ∧ _))

/-- The end of the range has a number of 64 bits. -/
def Ends (v : VariableEntry) : Prop := v.index.toNat + v.length.toNat < 2 ^ 64

instance (v : VariableEntry) : Decidable v.Ends := inferInstanceAs (Decidable (_ < _))

theorem toNat_stop (v : VariableEntry) :
    (v.index + v.length.toUInt64).toNat = (v.index.toNat + v.length.toNat) % 2 ^ 64 := by
  rw [UInt64.toNat_add, UInt32.toNat_toUInt64]

/-- A range that has begun and does not end goes on at the index. -/
theorem inScope_of_not_ends (hends : ¬v.Ends) (hbegun : v.index ≤ index) : v.InScope index := by
  have hindex := index.toNat_lt
  refine ⟨UInt64.le_iff_toNat_le.1 hbegun, ?_⟩
  simp only [Ends] at hends
  omega

/-- The variable is taken to be live exactly if it is in scope and its range ends. -/
theorem isLive_iff : v.isLive index = true ↔ v.InScope index ∧ v.Ends := by
  have hindex := index.toNat_lt
  have hbegin := v.index.toNat_lt
  have hlength := v.length.toNat_lt
  rw [isLive, Bool.and_eq_true, decide_eq_true_iff, decide_eq_true_iff, UInt64.le_iff_toNat_le,
    UInt64.lt_iff_toNat_lt, toNat_stop]
  simp only [InScope, Ends]
  by_cases hends : v.index.toNat + v.length.toNat < 2 ^ 64
  · rw [Nat.mod_eq_of_lt hends]
    tauto
  · -- the sum comes round once, to less than the index where the range begins
    have hwrapped : (v.index.toNat + v.length.toNat) % 2 ^ 64 < v.index.toNat := by omega
    constructor
    · rintro ⟨hle, hlt⟩
      omega
    · exact fun h => absurd h.2 hends

end VariableEntry

/-! ## The variables of a table -/

namespace VariableTable
variable {t : VariableTable} {index : UInt64}

def toVariable (t : VariableTable) (v : VariableEntry) : Variable :=
  ⟨v.name, v.signature, v.slot, decide (v.slot.toNat < t.arguments.toNat)⟩

/-- The entries in scope at an index but those of `this`, in the order of the table. -/
def scope (t : VariableTable) (index : UInt64) : List VariableEntry :=
  t.entries.filter fun v => v.name ≠ "this" ∧ v.InScope index

def inScope (t : VariableTable) (index : UInt64) : List Variable := (t.scope index).map t.toVariable

/-- Of the variables in scope those are visible whose ranges end. -/
theorem visible_eq (t : VariableTable) (index : UInt64) :
    t.visible index = ((t.scope index).filter fun v => v.Ends).map t.toVariable := by
  have hlive (v : VariableEntry) : (v.name != "this" && v.isLive index) =
      (decide v.Ends && decide (v.name ≠ "this" ∧ v.InScope index)) := by
    rw [Bool.eq_iff_iff, Bool.and_eq_true, Bool.and_eq_true, bne_iff_ne, VariableEntry.isLive_iff,
      decide_eq_true_iff, decide_eq_true_iff]
    tauto
  rw [scope, List.filter_filter, visible, List.filter_congr fun v _ => hlive v]
  exact List.map_congr_left fun v _ => by simp only [toVariable, UInt32.lt_iff_toNat_lt]

/-- The variables in scope are the visible ones exactly if no range that has begun goes on beyond
the last index. -/
theorem visible_eq_inScope_iff : t.visible index = t.inScope index ↔
    ∀ v ∈ t.entries, v.name ≠ "this" → v.index ≤ index → v.Ends := by
  rw [visible_eq, inScope]
  constructor
  · intro heq v hv hname hbegun
    by_contra hends
    have hscope : v ∈ t.scope index :=
      List.mem_filter.2 ⟨hv, decide_eq_true ⟨hname, v.inScope_of_not_ends hends hbegun⟩⟩
    have hlength := congrArg List.length heq
    rw [List.length_map, List.length_map, List.length_filter_eq_length_iff] at hlength
    exact hends (of_decide_eq_true (hlength v hscope))
  · intro hends
    refine congrArg (List.map t.toVariable) (List.filter_eq_self.2 fun v hv => decide_eq_true ?_)
    obtain ⟨hmem, hscope⟩ := List.mem_filter.1 hv
    obtain ⟨hname, hscope⟩ := of_decide_eq_true hscope
    exact hends v hmem hname (UInt64.le_iff_toNat_le.2 hscope.1)

end VariableTable

/-! ## The answer of a target -/

namespace Work
variable {ω : Type} {serve : (c : Command) → ω → c.Reply × ω}

theorem run_attempt (c : Command) (s : TargetState) (x : ω) :
    (ExceptT.run (attempt c)).run serve s x = (.ok (serve c x).1, s, (serve c x).2) := rfl

theorem run_visibleVariables {f : Frame} {table : VariableTable} {x : ω}
    (h : (serve (.variableTable f.location.classId f.location.methodId) x).1 = .ok table)
    (t : ThreadId) (s : TargetState) :
    ((ExceptT.run (answer (.visibleVariables t f))).run serve s x).1 =
      .ok (table.visible f.location.index) := by
  show ((ExceptT.run (visibleVariables f)).run serve s x).1 = _
  rw [visibleVariables, run_andThen, run_attempt, h]
  rfl

/-- A machine tells the variables of a method. The target shows those but `this` whose ranges,
reckoned without a limit, hold the index of the frame, and of them those whose ranges end before
2^64: so it shows all of them, in the order of the table and as arguments if their slots are below
the number of arguments, exactly if no sum that it reckons comes round. -/
theorem visible_iff_no_wrap {f : Frame} {table : VariableTable} {x : ω}
    (h : (serve (.variableTable f.location.classId f.location.methodId) x).1 = .ok table)
    (t : ThreadId) (s : TargetState) :
    ∃ shown, ((ExceptT.run (answer (.visibleVariables t f))).run serve s x).1 = .ok shown ∧
      shown = ((table.scope f.location.index).filter fun v => v.Ends).map table.toVariable ∧
      (shown = table.inScope f.location.index ↔
        ∀ v ∈ table.entries, v.name ≠ "this" → v.index ≤ f.location.index → v.Ends) := by
  refine ⟨_, run_visibleVariables h t s, table.visible_eq _, ?_⟩
  exact VariableTable.visible_eq_inScope_iff

end Work

/-- A machine that tells one table of variables for every method. -/
def VariableTable.machine (t : VariableTable) : (c : Command) → Unit → c.Reply × Unit
  | .variableTable _ _, x => (.ok t, x)
  | _, x => (.error (.vm WireError.absentInformation), x)

/-- Where the code is in a method: at its index 40. -/
def middle : Frame := ⟨5, ⟨1, 300, 400, 40⟩⟩

/-- A parameter, a variable whose range is over, one whose range begins later, and one to the end
of what 64 bits can hold. -/
def fourVariables : VariableTable where
  arguments := 2
  entries := [⟨0, "this", "Lapp/Main;", 99, 0⟩, ⟨0, "a", "I", 99, 1⟩, ⟨4, "b", "J", 36, 2⟩,
    ⟨41, "c", "I", 5, 4⟩, ⟨30, "d", "I", 0xffffffff, 5⟩]

theorem visible_in_the_middle :
    (fourVariables.machine (.variableTable 300 400) ()).1 = .ok fourVariables ∧
      ((ExceptT.run (Work.answer (.visibleVariables 1 middle))).run fourVariables.machine {} ()).1 =
        .ok [⟨"a", "I", 1, true⟩, ⟨"d", "I", 5, false⟩] := by
  have hserved : (fourVariables.machine (.variableTable middle.location.classId
      middle.location.methodId) ()).1 = .ok fourVariables := rfl
  obtain ⟨shown, hrun, -, hall⟩ := Work.visible_iff_no_wrap hserved 1 {}
  refine ⟨hserved, ?_⟩
  rw [hrun, hall.2 (by decide)]
  decide

/-- The last index that there is. -/
def lastFrame : Frame := ⟨5, ⟨1, 300, 400, 0xffffffffffffffff⟩⟩

def lastVariable : VariableTable := ⟨0, [⟨0xffffffffffffffff, "a", "I", 1, 0⟩]⟩

/-- The variable in scope at the last index is not shown. -/
theorem last_variable_hidden :
    ((Command.variableTable 300 400).read {}).run
        ([0, 0, 0, 0, 0, 0, 0, 1, 255, 255, 255, 255, 255, 255, 255, 255,
          0, 0, 0, 1, 97, 0, 0, 0, 1, 73, 0, 0, 0, 1, 0, 0, 0, 0] : Bytes) = .ok lastVariable ∧
      lastVariable.inScope lastFrame.location.index = [⟨"a", "I", 0, false⟩] ∧
      ((ExceptT.run (Work.answer (.visibleVariables 1 lastFrame))).run
        lastVariable.machine {} ()).1 = .ok [] := by
  refine ⟨?_, by decide, ?_⟩
  · decide +kernel
  · rw [Work.run_visibleVariables rfl]
    decide

end JvmDebug.Wire
