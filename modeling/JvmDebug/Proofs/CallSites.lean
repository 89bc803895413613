import JvmDebug.Proofs.Evaluation
import Mathlib.Data.List.Pairwise

/-!
Where the calls of an expression are written, and what a log of its evaluation looks like. A log
notes every part of the expression that has been evaluated, in the order in which their evaluation
ended.
-/
namespace JvmDebug

/-- The way down to a part of an expression, by the number of the part at each step. -/
abbrev Site := List Nat

/-- What is inside comes before what is around it, what is on the left before what is on the right:
the order in which Java evaluates the parts of an expression. -/
def Site.precedes : Site → Site → Bool
  | [], _ => false
  | _ :: _, [] => true
  | i :: p, j :: q => i < j || (i == j && precedes p q)

theorem Site.not_precedes_self (p : Site) : ¬p.precedes p := by
  induction p with
  | nil => simp [precedes]
  | cons i p ih => simpa [precedes] using ih

theorem Site.precedes_asymm {p q : Site} (h : p.precedes q) : ¬q.precedes p := by
  induction p generalizing q with
  | nil => simp [precedes] at h
  | cons i p ih =>
    cases q with
    | nil => simp [precedes]
    | cons j q =>
      simp only [precedes, Bool.or_eq_true, Bool.and_eq_true, decide_eq_true_eq,
        beq_iff_eq] at h ⊢
      rcases h with hlt | ⟨rfl, h⟩
      · omega
      · simpa using ih h

structure Note where
  site : Site
  meaning : Meaning

def Note.under (i : Nat) (x : Note) : Note := { x with site := i :: x.site }

def BinaryOp.decidedBy : BinaryOp → Value → Bool
  | or, .boolean b => b
  | and, .boolean b => !b
  | _, _ => false

namespace Expr

/-- The parts of an expression from left to right. -/
def parts : Expr → List Expr
  | .literal _ | .name _ | .this => []
  | .field target _ => [target]
  | .call target _ args => target.toList ++ args
  | .index array i => [array, i]
  | .binary _ left right => [left, right]
  | .unary _ operand | .cast _ operand | .instanceOf operand _ => [operand]
  | .newObject _ args => args
  | .newArray _ size => [size]

def at? : Expr → Site → Option Expr
  | e, [] => some e
  | e, i :: p => e.parts[i]?.bind fun part => part.at? p

/-- The method that a call runs. -/
def called? : Expr → Option String
  | call _ method _ => some method
  | newObject .. => some "<init>"
  | _ => none

/-- The expression calls at the site. -/
def CallsAt (e : Expr) (p : Site) : Prop := ((e.at? p).bind called?).isSome

instance (e : Expr) (p : Site) : Decidable (e.CallsAt p) :=
  inferInstanceAs (Decidable ((e.at? p).bind called?).isSome)

def decidedBy : Expr → Meaning → Bool
  | binary op _ _, .value v => op.decidedBy v
  | _, _ => false

/-- The parts in the order of their evaluation. The names of a chain are resolved together, and of
a call the arguments are evaluated before the receiver. -/
def schedule (e : Expr) (decided : Bool) : List (Expr × Nat) :=
  match e with
  | .field target member => if (field target member).segments?.isSome then [] else [(target, 0)]
  | .call (some target) _ args => args.zipIdx 1 ++ [(target, 0)]
  | .binary _ left right => if decided then [(left, 0)] else [(left, 0), (right, 1)]
  | e => e.parts.zipIdx

theorem at?_cons {e part : Expr} {i : Nat} (h : e.parts[i]? = some part) (p : Site) :
    e.at? (i :: p) = part.at? p := by
  rw [at?, h, Option.bind_some]

theorem parts_of_schedule {e part : Expr} {decided : Bool} {i : Nat}
    (h : (part, i) ∈ e.schedule decided) : e.parts[i]? = some part := by
  cases e with
  | field target member =>
    simp only [schedule] at h
    split at h
    · cases h
    · cases List.mem_singleton.1 h
      rfl
  | call target method args =>
    cases target with
    | none => exact List.mem_zipIdx_iff_getElem?.1 h
    | some target =>
      rcases List.mem_append.1 h with h | h
      · obtain ⟨hi, hpart⟩ := List.mem_zipIdx_iff_le_and_getElem?_sub.1 h
        obtain ⟨k, rfl⟩ := Nat.exists_eq_add_of_le' hi
        simpa [parts] using hpart
      · cases List.mem_singleton.1 h
        rfl
  | binary op left right =>
    have hsub : (part, i) ∈ [left, right].zipIdx := by
      simp only [schedule] at h
      split at h
      · exact List.mem_cons.2 (.inl (List.mem_singleton.1 h))
      · exact h
    exact List.mem_zipIdx_iff_getElem?.1 hsub
  | _ => exact List.mem_zipIdx_iff_getElem?.1 h

/-- The site `p` is in an argument of a call and `q` in its receiver. -/
def Crosses (e : Expr) (p q : Site) : Prop :=
  ∃ r target method args i, e.at? r = some (call (some target) method args) ∧
    r ++ [i + 1] <+: p ∧ r ++ [0] <+: q

theorem Crosses.precedes {e : Expr} {p q : Site} (h : e.Crosses p q) : q.precedes p := by
  obtain ⟨r, target, method, args, i, -, ⟨p, rfl⟩, ⟨q, rfl⟩⟩ := h
  induction r with
  | nil => simp [Site.precedes]
  | cons j r ih => simpa [Site.precedes] using ih

theorem crosses_cons {e part : Expr} {i : Nat} (h : e.parts[i]? = some part) {p q : Site} :
    e.Crosses (i :: p) (i :: q) ↔ part.Crosses p q := by
  constructor
  · rintro ⟨r, target, method, args, k, hr, hp, hq⟩
    cases r with
    | nil =>
      have := (List.cons_prefix_cons.1 hp).1.trans (List.cons_prefix_cons.1 hq).1.symm
      cases this
    | cons j r =>
      obtain ⟨rfl, hinner⟩ := List.cons_prefix_cons.1 hp
      exact ⟨r, target, method, args, k, at?_cons h r ▸ hr, hinner,
        (List.cons_prefix_cons.1 hq).2⟩
  · rintro ⟨r, target, method, args, k, hr, hp, hq⟩
    exact ⟨i :: r, target, method, args, k, (at?_cons h r).trans hr,
      List.cons_prefix_cons.2 ⟨rfl, hp⟩, List.cons_prefix_cons.2 ⟨rfl, hq⟩⟩

/-- The site `p` is evaluated before `q`: in the order of Java, but for a receiver, which comes
after the arguments. -/
def Comes (e : Expr) (p q : Site) : Prop := e.Crosses p q ∨ p.precedes q ∧ ¬e.Crosses q p

def IsQualified (e : Expr) : Prop := ∃ target method args, e = call (some target) method args

theorem comes_cons {e : Expr} {i j : Nat} (h : i < j ∧ ¬(e.IsQualified ∧ i = 0) ∨
    e.IsQualified ∧ i ≠ 0 ∧ j = 0) (p q : Site) : e.Comes (i :: p) (j :: q) := by
  rcases h with ⟨hlt, hnot⟩ | ⟨⟨target, method, args, rfl⟩, hne, rfl⟩
  · refine .inr ⟨by simp [Site.precedes, hlt], ?_⟩
    rintro ⟨r, target, method, args, k, hr, hp, hq⟩
    cases r with
    | nil =>
      cases hr
      exact hnot ⟨⟨target, method, args, rfl⟩, (List.cons_prefix_cons.1 hq).1.symm⟩
    | cons n r =>
      have := (List.cons_prefix_cons.1 hp).1.symm.trans (List.cons_prefix_cons.1 hq).1
      omega
  · obtain ⟨k, rfl⟩ := Nat.exists_eq_succ_of_ne_zero hne
    exact .inl ⟨[], target, method, args, k, rfl, by simp, by simp⟩

theorem schedule_pairwise (e : Expr) (decided : Bool) :
    (e.schedule decided).Pairwise fun a b => a.2 < b.2 ∧ ¬(e.IsQualified ∧ a.2 = 0) ∨
      e.IsQualified ∧ a.2 ≠ 0 ∧ b.2 = 0 := by
  have hzip (l : List Expr) (n : Nat) : (l.zipIdx n).Pairwise fun a b => a.2 < b.2 := by
    rw [← List.pairwise_map (f := Prod.snd) (R := fun i j => i < j), List.zipIdx_map_snd]
    exact List.pairwise_lt_range' 1
  have hother (l : List Expr) (h : ¬e.IsQualified) : l.zipIdx.Pairwise fun a b =>
      a.2 < b.2 ∧ ¬(e.IsQualified ∧ a.2 = 0) ∨ e.IsQualified ∧ a.2 ≠ 0 ∧ b.2 = 0 :=
    (hzip l 0).imp fun hlt => .inl ⟨hlt, fun hq => h hq.1⟩
  cases e with
  | field target member =>
    simp only [schedule]
    split
    · exact .nil
    · exact List.pairwise_singleton _ _
  | call target method args =>
    cases target with
    | none => exact hother _ (by simp [IsQualified])
    | some target =>
      refine List.pairwise_append.2 ⟨(hzip _ 1).imp_of_mem fun ha _ hlt => .inl ⟨hlt, ?_⟩,
        List.pairwise_singleton _ _, fun a ha b hb => .inr ?_⟩
      · have := List.le_snd_of_mem_zipIdx ha
        omega
      · cases List.mem_singleton.1 hb
        have := List.le_snd_of_mem_zipIdx ha
        exact ⟨⟨target, method, args, rfl⟩, by omega, rfl⟩
  | binary op left right =>
    simp only [schedule]
    split
    · exact List.pairwise_singleton _ _
    · exact hother [left, right] (by simp [IsQualified])
  | _ => exact hother _ (by simp [IsQualified])

/-- The right operand in which the site lies was not needed: the left one decides. -/
def Skips (e : Expr) (l : List Note) (p : Site) : Prop :=
  ∃ r op left right v, e.at? r = some (binary op left right) ∧ r ++ [1] <+: p ∧
    ⟨r ++ [0], .value v⟩ ∈ l ∧ op.decidedBy v

/-- The sites of the calls in a log. -/
def callsIn (e : Expr) (l : List Note) : List Site := (l.map Note.site).filter fun p => e.CallsAt p

/-- The methods that the calls in a log run. -/
def namesIn (e : Expr) (l : List Note) : List String :=
  (e.callsIn l).filterMap fun p => (e.at? p).bind called?

end Expr

/-! ## Logs -/

/-- What is known of an evaluated part. -/
structure Evaluated where
  number : Nat
  expr : Expr
  meaning : Meaning
  log : List Note

def Evaluated.notes (x : Evaluated) : List Note := x.log.map (Note.under x.number)

/-- The log of a successful evaluation: those of the parts, and then the expression itself. -/
inductive Logged : Expr → Meaning → List Note → Prop
  | intro {e : Expr} (m : Meaning) (parts : List Evaluated)
      (hschedule : parts.map (fun x => (x.expr, x.number)) =
        e.schedule (parts.head?.any fun x => e.decidedBy x.meaning))
      (hlogs : ∀ x ∈ parts, Logged x.expr x.meaning x.log) :
      Logged e m (parts.flatMap Evaluated.notes ++ [⟨[], m⟩])

theorem mem_notes {x : Evaluated} {i : Nat} {p : Site} {m : Meaning} :
    ⟨i :: p, m⟩ ∈ x.notes ↔ x.number = i ∧ ⟨p, m⟩ ∈ x.log := by
  simp only [Evaluated.notes, List.mem_map, Note.under, Note.mk.injEq, List.cons.injEq]
  constructor
  · rintro ⟨⟨p', m'⟩, hmem, ⟨hi, rfl⟩, rfl⟩
    exact ⟨hi, hmem⟩
  · rintro ⟨rfl, hmem⟩
    exact ⟨⟨p, m⟩, hmem, ⟨rfl, rfl⟩, rfl⟩

theorem note_of_mem_notes {x : Evaluated} {n : Note} (h : n ∈ x.notes) :
    ∃ p, n.site = x.number :: p ∧ ⟨p, n.meaning⟩ ∈ x.log := by
  obtain ⟨n', hmem, rfl⟩ := List.mem_map.1 h
  exact ⟨n'.site, rfl, hmem⟩

theorem part_of_schedule {e : Expr} {parts : List Evaluated} {decided : Bool}
    (h : parts.map (fun x => (x.expr, x.number)) = e.schedule decided) {x : Evaluated}
    (hx : x ∈ parts) : e.parts[x.number]? = some x.expr := by
  have hmem : (x.expr, x.number) ∈ e.schedule decided := h ▸ List.mem_map.2 ⟨x, hx, rfl⟩
  exact Expr.parts_of_schedule hmem

namespace Logged
variable {e : Expr} {m : Meaning} {l : List Note}

theorem note_nil (h : Logged e m l) {m' : Meaning} : ⟨[], m'⟩ ∈ l ↔ m' = m := by
  obtain ⟨m, parts, -, -⟩ := h
  rw [List.mem_append, List.mem_singleton, Note.mk.injEq]
  constructor
  · rintro (h | ⟨-, rfl⟩)
    · obtain ⟨x, -, hx⟩ := List.mem_flatMap.1 h
      obtain ⟨p, hp, -⟩ := note_of_mem_notes hx
      cases hp
    · rfl
  · rintro rfl
    exact .inr ⟨rfl, rfl⟩

theorem ordered (h : Logged e m l) : (l.map Note.site).Pairwise e.Comes := by
  induction h with
  | @intro e m parts hschedule hlogs ih =>
    have hparts := e.schedule_pairwise (parts.head?.any fun x => e.decidedBy x.meaning)
    rw [← hschedule, List.pairwise_map] at hparts
    rw [List.pairwise_map, List.pairwise_append, List.pairwise_flatMap]
    refine ⟨⟨fun x hx => ?_, hparts.imp fun {a b} hab => ?_⟩,
      List.pairwise_singleton _ _, fun n hn n' hn' => ?_⟩
    · have hpart := part_of_schedule hschedule hx
      have hinner := ih x hx
      rw [List.pairwise_map] at hinner
      rw [Evaluated.notes, List.pairwise_map]
      refine hinner.imp fun {n n'} hnn => ?_
      rcases hnn with hcross | ⟨hbefore, hnot⟩
      · exact .inl ((Expr.crosses_cons hpart).2 hcross)
      · exact .inr ⟨by simpa [Note.under, Site.precedes] using hbefore,
          fun hcross => hnot ((Expr.crosses_cons hpart).1 hcross)⟩
    · intro n hn n' hn'
      obtain ⟨p, hp, -⟩ := note_of_mem_notes hn
      obtain ⟨q, hq, -⟩ := note_of_mem_notes hn'
      rw [hp, hq]
      exact Expr.comes_cons hab p q
    · obtain ⟨x, -, hx⟩ := List.mem_flatMap.1 hn
      obtain ⟨p, hp, -⟩ := note_of_mem_notes hx
      cases List.mem_singleton.1 hn'
      rw [hp]
      refine .inr ⟨rfl, ?_⟩
      rintro ⟨r, target, method, args, k, -, hpre, -⟩
      simp at hpre

theorem nodup (h : Logged e m l) : (l.map Note.site).Nodup := by
  refine h.ordered.imp fun {p q} hpq heq => ?_
  subst heq
  rcases hpq with hcross | ⟨hbefore, -⟩
  · exact p.not_precedes_self hcross.precedes
  · exact p.not_precedes_self hbefore

/-- The calls are made in the order of Java unless some call makes calls in an argument and in its
receiver. -/
theorem inOrder_iff (h : Logged e m l) :
    (e.callsIn l).Pairwise (fun p q => p.precedes q) ↔
      ∀ p ∈ e.callsIn l, ∀ q ∈ e.callsIn l, ¬e.Crosses p q := by
  have hcomes : (e.callsIn l).Pairwise e.Comes := h.ordered.sublist List.filter_sublist
  constructor
  · intro hpairs p hp q hq hcross
    have hne : p ≠ q := by
      rintro rfl
      exact p.not_precedes_self hcross.precedes
    let Meets (a b : Site) : Prop := a.precedes b ∧ e.Comes a b ∨ b.precedes a ∧ e.Comes b a
    have hsymm : Std.Symm Meets := ⟨fun _ _ => Or.symm⟩
    have hmeets : (e.callsIn l).Pairwise Meets := (hpairs.and hcomes).imp Or.inl
    rcases hmeets.forall hp hq hne with ⟨hbefore, -⟩ | ⟨hbefore, hcome⟩
    · exact Site.precedes_asymm hbefore hcross.precedes
    · rcases hcome with hback | ⟨-, hnot⟩
      · exact Site.precedes_asymm hbefore hback.precedes
      · exact hnot hcross
  · intro hnone
    refine hcomes.imp_of_mem fun {p q} hp hq hpq => ?_
    exact hpq.elim (fun hcross => (hnone p hp q hq hcross).elim) And.left

end Logged

/-! ## Names -/

theorem Expr.namesIn_eq (e : Expr) (l : List Note) :
    e.namesIn l = l.filterMap fun n => (e.at? n.site).bind called? := by
  rw [namesIn, callsIn, List.filterMap_filter, List.filterMap_map]
  congr 1
  funext n
  rw [Function.comp]
  split
  · rfl
  · next h =>
    exact (Option.not_isSome_iff_eq_none.1 fun hcalls => h (decide_eq_true hcalls)).symm

theorem Expr.namesIn_notes {e : Expr} {x : Evaluated} (h : e.parts[x.number]? = some x.expr) :
    e.namesIn x.notes = x.expr.namesIn x.log := by
  rw [namesIn_eq, namesIn_eq, Evaluated.notes, List.filterMap_map]
  congr 1
  funext n
  rw [Function.comp, Note.under, at?_cons h]

theorem Expr.namesIn_log {e : Expr} {parts : List Evaluated}
    (h : ∀ x ∈ parts, e.parts[x.number]? = some x.expr) (m : Meaning) :
    e.namesIn (parts.flatMap Evaluated.notes ++ [⟨[], m⟩]) =
      parts.flatMap (fun x => x.expr.namesIn x.log) ++ e.called?.toList := by
  have hparts : e.namesIn (parts.flatMap Evaluated.notes) =
      parts.flatMap fun x => x.expr.namesIn x.log := by
    rw [namesIn_eq, List.filterMap_flatMap]
    exact List.flatMap_congr fun x hx => by rw [← namesIn_eq, namesIn_notes (h x hx)]
  rw [namesIn_eq, List.filterMap_append, ← namesIn_eq, hparts]
  rfl

/-! ## Completeness -/

theorem callsAt_cons {e part : Expr} {i : Nat} (h : e.parts[i]? = some part) (p : Site) :
    e.CallsAt (i :: p) ↔ part.CallsAt p := by
  rw [Expr.CallsAt, Expr.at?_cons h, Expr.CallsAt]

/-- A chain of names has no calls. -/
theorem not_callsAt_of_segments {e : Expr} (h : e.segments?.isSome) (p : Site) : ¬e.CallsAt p := by
  induction p generalizing e with
  | nil => cases e <;> simp_all [Expr.CallsAt, Expr.at?, Expr.called?, Expr.segments?,
      Expr.reverseSegments?]
  | cons i p ih =>
    cases e with
    | name text => simp [Expr.CallsAt, Expr.at?, Expr.parts]
    | field target member =>
      have htarget : target.segments?.isSome := by
        simpa [Expr.segments?, Expr.reverseSegments?] using h
      cases i with
      | zero =>
        exact fun h => ih htarget ((callsAt_cons rfl p).1 h)
      | succ i => simp [Expr.CallsAt, Expr.at?, Expr.parts]
    | _ => simp [Expr.segments?, Expr.reverseSegments?] at h

theorem mem_schedule {e part : Expr} {i : Nat} (h : e.parts[i]? = some part)
    (hchain : ¬e.segments?.isSome) (decided : Bool) :
    (part, i) ∈ e.schedule decided ∨
      decided = true ∧ i = 1 ∧ ∃ op left right, e = .binary op left right := by
  cases e with
  | field target member =>
    rw [Expr.schedule, if_neg hchain]
    exact .inl (List.mem_zipIdx_iff_getElem? (l := [target]).2 h)
  | call target method args =>
    cases target with
    | none => exact .inl (List.mem_zipIdx_iff_getElem?.2 h)
    | some target =>
      refine .inl (List.mem_append.2 ?_)
      cases i with
      | zero =>
        obtain rfl : target = part := Option.some.inj h
        exact .inr (List.mem_singleton_self _)
      | succ i =>
        have hi : args[i]? = some part := by simpa [Expr.parts] using h
        exact .inl (List.mem_zipIdx_iff_le_and_getElem?_sub.2 ⟨by omega, by simpa using hi⟩)
  | binary op left right =>
    have hzip : (part, i) ∈ [(left, 0), (right, 1)] :=
      List.mem_zipIdx_iff_getElem? (l := [left, right]).2 h
    simp only [Expr.schedule]
    split
    · next hdecided =>
      rcases List.mem_cons.1 hzip with hleft | hright
      · exact .inl (List.mem_singleton.2 hleft)
      · cases List.mem_singleton.1 hright
        exact .inr ⟨hdecided, rfl, op, left, _, rfl⟩
    · exact .inl hzip
  | _ => exact .inl (List.mem_zipIdx_iff_getElem?.2 h)

theorem unique_number {e : Expr} {parts : List Evaluated} {decided : Bool}
    (h : parts.map (fun x => (x.expr, x.number)) = e.schedule decided) {x y : Evaluated}
    (hx : x ∈ parts) (hy : y ∈ parts) (hxy : x.number = y.number) : x = y := by
  have hnodup : (parts.map Evaluated.number).Nodup := by
    have hne := e.schedule_pairwise decided
    rw [← h, List.pairwise_map] at hne
    rw [List.Nodup, List.pairwise_map]
    exact hne.imp fun {a b} hab => by omega
  exact List.inj_on_of_nodup_map hnodup hx hy hxy

theorem head_of_binary {op : BinaryOp} {left right : Expr} {parts : List Evaluated} {decided : Bool}
    (h : parts.map (fun x => (x.expr, x.number)) = (Expr.binary op left right).schedule decided) :
    ∃ y rest, parts = y :: rest ∧ y.number = 0 ∧ (decided = true → rest = []) := by
  cases parts with
  | nil => cases decided <;> simp [Expr.schedule] at h
  | cons y rest => cases decided <;> simp_all [Expr.schedule]

section Parts
variable {e : Expr} {m : Meaning} {parts : List Evaluated} {x : Evaluated} {p : Site}

theorem mem_log_of_part {decided : Bool}
    (hschedule : parts.map (fun x => (x.expr, x.number)) = e.schedule decided) (hx : x ∈ parts)
    {m' : Meaning} :
    (⟨x.number :: p, m'⟩ : Note) ∈ parts.flatMap Evaluated.notes ++ [⟨[], m⟩] ↔
      ⟨p, m'⟩ ∈ x.log := by
  simp only [List.mem_append, List.mem_flatMap, mem_notes, List.mem_singleton, Note.mk.injEq,
    reduceCtorEq, false_and, or_false]
  refine ⟨fun ⟨y, hy, hnumber, hp⟩ => ?_, fun hp => ⟨x, hx, rfl, hp⟩⟩
  rwa [← unique_number hschedule hy hx hnumber]

theorem mem_sites_of_part {decided : Bool}
    (hschedule : parts.map (fun x => (x.expr, x.number)) = e.schedule decided) (hx : x ∈ parts) :
    x.number :: p ∈ List.map Note.site (parts.flatMap Evaluated.notes ++ [⟨[], m⟩]) ↔
      p ∈ x.log.map Note.site := by
  simp only [List.mem_map]
  constructor
  · rintro ⟨⟨_, m'⟩, hn, rfl⟩
    exact ⟨_, (mem_log_of_part hschedule hx).1 hn, rfl⟩
  · rintro ⟨⟨_, m'⟩, hn, rfl⟩
    exact ⟨_, (mem_log_of_part hschedule hx).2 hn, rfl⟩

/-- What is skipped of a part that was evaluated is skipped within the part. -/
theorem skips_part_iff
    (hschedule : parts.map (fun x => (x.expr, x.number)) =
      e.schedule (parts.head?.any fun x => e.decidedBy x.meaning))
    (hlogs : ∀ x ∈ parts, Logged x.expr x.meaning x.log) (hx : x ∈ parts) :
    e.Skips (parts.flatMap Evaluated.notes ++ [⟨[], m⟩]) (x.number :: p) ↔
      x.expr.Skips x.log p := by
  have hpart := part_of_schedule hschedule hx
  constructor
  · rintro ⟨r, op, left, right, v, hat, hpre, hnote, hdec⟩
    cases r with
    | nil =>
      -- the right operand of the whole expression would be skipped, but it was evaluated
      cases hat
      have hone : x.number = 1 := (List.cons_prefix_cons.1 hpre).1.symm
      obtain ⟨y, rest, rfl, hzero, hrest⟩ := head_of_binary hschedule
      have hmem : y ∈ y :: rest := List.mem_cons_self
      rw [List.nil_append, ← hzero] at hnote
      have hy : y.meaning = .value v :=
        ((hlogs y hmem).note_nil.1 ((mem_log_of_part hschedule hmem).1 hnote)).symm
      rw [hrest (by simp [Expr.decidedBy, hy, hdec]), List.mem_singleton] at hx
      rw [hx, hzero] at hone
      cases hone
    | cons j r =>
      obtain ⟨rfl, hinner⟩ := List.cons_prefix_cons.1 hpre
      rw [Expr.at?_cons hpart] at hat
      exact ⟨r, op, left, right, v, hat, hinner, (mem_log_of_part hschedule hx).1 hnote, hdec⟩
  · rintro ⟨r, op, left, right, v, hat, hpre, hnote, hdec⟩
    refine ⟨x.number :: r, op, left, right, v, ?_, ?_, (mem_log_of_part hschedule hx).2 hnote, hdec⟩
    · rw [Expr.at?_cons hpart, hat]
    · exact List.cons_prefix_cons.2 ⟨rfl, hpre⟩

/-- Where the left operand decides, the right one is skipped and leaves no note. -/
theorem skips_right {op : BinaryOp} {left right : Expr}
    (hschedule : parts.map (fun x => (x.expr, x.number)) = (Expr.binary op left right).schedule
      (parts.head?.any fun x => (Expr.binary op left right).decidedBy x.meaning))
    (hlogs : ∀ x ∈ parts, Logged x.expr x.meaning x.log)
    (hdecided : parts.head?.any (fun x => (Expr.binary op left right).decidedBy x.meaning)) :
    (Expr.binary op left right).Skips (parts.flatMap Evaluated.notes ++ [⟨[], m⟩]) (1 :: p) ∧
      1 :: p ∉ List.map Note.site (parts.flatMap Evaluated.notes ++ [⟨[], m⟩]) := by
  obtain ⟨y, rest, rfl, hzero, hrest⟩ := head_of_binary hschedule
  have hmem : y ∈ y :: rest := List.mem_cons_self
  obtain ⟨v, hy, hdec⟩ : ∃ v, y.meaning = .value v ∧ op.decidedBy v := by
    cases hy : y.meaning with
    | value v => exact ⟨v, rfl, by simpa [Expr.decidedBy, hy] using hdecided⟩
    | type c => simp [Expr.decidedBy, hy] at hdecided
  have hnote := (mem_log_of_part (m := m) hschedule hmem).2 ((hlogs y hmem).note_nil.2 hy.symm)
  refine ⟨⟨[], op, left, right, v, rfl, by simp, hzero ▸ hnote, hdec⟩, fun hsite => ?_⟩
  obtain ⟨n, hn, hsite⟩ := List.mem_map.1 hsite
  rw [hrest hdecided, List.flatMap_singleton, List.mem_append, List.mem_singleton] at hn
  rcases hn with hn | rfl
  · obtain ⟨q, hq, -⟩ := note_of_mem_notes hn
    rw [hq, hzero] at hsite
    cases hsite
  · cases hsite

end Parts

/-- Every call is made, unless it is in a right operand that is not needed. -/
theorem Logged.mem_iff {e : Expr} {m : Meaning} {l : List Note} (h : Logged e m l) {p : Site}
    (hp : e.CallsAt p) : p ∈ l.map Note.site ↔ ¬e.Skips l p := by
  induction h generalizing p with
  | @intro e m parts hschedule hlogs ih =>
    cases p with
    | nil => simp [Expr.Skips]
    | cons i p =>
      obtain ⟨part, hpart⟩ : ∃ part, e.parts[i]? = some part := by
        cases hi : e.parts[i]? with
        | none => simp [Expr.CallsAt, Expr.at?, hi] at hp
        | some part => exact ⟨part, rfl⟩
      have hchain : ¬e.segments?.isSome := fun h => not_callsAt_of_segments h _ hp
      rcases mem_schedule hpart hchain (parts.head?.any fun x => e.decidedBy x.meaning) with
        hin | ⟨hdecided, rfl, op, left, right, rfl⟩
      · rw [← hschedule] at hin
        obtain ⟨x, hx, hxi⟩ := List.mem_map.1 hin
        obtain ⟨rfl, rfl⟩ := Prod.mk.inj hxi
        rw [mem_sites_of_part hschedule hx, skips_part_iff hschedule hlogs hx]
        exact ih x hx ((callsAt_cons hpart p).1 hp)
      · obtain ⟨hskips, hsite⟩ := skips_right (m := m) (p := p) hschedule hlogs hdecided
        exact iff_of_false hsite (not_not_intro hskips)

end JvmDebug
