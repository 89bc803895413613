import JvmDebug.Proofs.CursorSteps

/-!
The parser is safe on every text. With a cursor over the characters it ends after a number of steps
that is linear in the text, never leaves the characters and never cuts outside of them, and the
position of an error is one the cursor had. Blanks before the text only shift that position, and
blanks behind the text do not matter to what parses.
-/
namespace JvmDebug
namespace Grammar
open Text

/-! ## The number of steps -/

namespace Machine

/-- What the step leaves to be done exceeds the frames by no more than an operand does. -/
def Progress.Light (stack : List Pending) : Progress → Prop
  | .more m => m.weight ≤ stack.length + 7
  | .finished _ => True

theorem openArguments_light (callee : Callee) (stack : List Pending) (s : Rest) :
    Progress.Light stack (openArguments callee stack s) := by
  unfold openArguments
  split <;> simp [Progress.Light, weight]

theorem afterName_light (callee : Callee) (e : Expr) (stack : List Pending) (s : Rest) :
    Progress.Light stack (afterName callee e stack s) := by
  unfold afterName
  split
  · exact openArguments_light callee stack _
  · simp [Progress.Light, weight]

theorem afterNew_light (stack : List Pending) (s : Rest) :
    Progress.Light stack (afterNew stack s) := by
  unfold afterNew
  split
  · trivial
  · split
    · simp [Progress.Light, weight]
    · exact openArguments_light _ stack _
    · trivial

theorem afterLiteral_light (stack : List Pending) (read : Read Literal) :
    Progress.Light stack (afterLiteral stack read) := by
  unfold afterLiteral
  split
  · trivial
  · simp [Progress.Light, weight]

theorem afterWord_light (stack : List Pending) (name : String) (s : Rest) :
    Progress.Light stack (afterWord stack name s) := by
  unfold afterWord
  split
  case h_5 => exact afterNew_light stack s
  case h_6 => exact afterName_light _ _ stack s
  all_goals simp [Progress.Light, weight]

theorem primary_light (stack : List Pending) (s : Rest) :
    Progress.Light stack (primary stack s) := by
  unfold primary
  split
  · trivial
  · simp [Progress.Light, weight]
  · exact afterLiteral_light stack _
  · exact afterLiteral_light stack _
  · split
    · exact afterLiteral_light stack _
    · split
      · exact afterWord_light stack _ _
      · trivial

theorem operand_light (stack : List Pending) (s : Rest) :
    Progress.Light stack (operand stack s) := by
  unfold operand
  split
  · simp [Progress.Light, weight]
  split
  · split <;> simp [Progress.Light, weight]
  split
  · simp [Progress.Light, weight]
  split
  · simp [Progress.Light, weight]
  · exact primary_light stack _

theorem postfixed_light (e : Expr) (stack : List Pending) (s : Rest) :
    Progress.Light stack (postfixed e stack s) := by
  unfold postfixed
  split
  · split
    · trivial
    · exact afterName_light _ _ stack _
  split <;> simp [Progress.Light, weight]

theorem close_light (e : Expr) (stack : List Pending) (s : Rest) :
    Progress.Light stack (close e stack s) := by
  unfold close
  split
  case h_4 =>
    split
    · simp [Progress.Light, weight]
    · split
      · simp [Progress.Light, weight]
      · trivial
  case h_5 => split <;> trivial
  all_goals
    split
    · simp [Progress.Light, weight]
    · trivial

theorem climb_weight {e : Expr} {level : Nat} {stack : List Pending} {s : Rest} {m : Machine}
    (h : climb e level stack s = .more m) : m.weight ≤ stack.length + level + 7 := by
  unfold climb at h
  split at h
  · cases h; simp [weight]
  · cases h; simp [weight]
  split at h
  · split at h
    · cases h; simp [weight]
    · cases h
  split at h
  · cases h; simp [weight]; omega
  split at h
  · split at h
    · cases h; simp [weight]; omega
    · cases h; simp [weight]; omega
  · cases h; simp [weight]; omega
  · have hlight := close_light e stack s
    rw [h] at hlight
    exact hlight

theorem step_weight {m n : Machine} (h : n.step = .more m) : m.weight ≤ n.weight + 7 := by
  obtain ⟨mode, stack, s⟩ := n
  cases mode with
  | operand =>
    have hlight := operand_light stack s
    rw [show operand stack s = .more m from h] at hlight
    exact hlight
  | postfixed e =>
    have hlight := postfixed_light e stack s
    rw [show postfixed e stack s = .more m from h] at hlight
    exact hlight.trans (by simp [weight])
  | climb e level => exact climb_weight h

/-- Every step lowers it: a character that is read outweighs what the step adds. -/
def potential (n : Machine) : Nat := 8 * n.rest.length + n.weight

theorem step_potential {m n : Machine} (h : n.step = .more m) : m.potential < n.potential := by
  have hweight := step_weight h
  unfold potential
  rcases step_below h with hread | ⟨hsame, hlighter⟩ <;> omega

theorem run_congr {m n : Machine} (h : m.step = n.step) : m.run = n.run := by
  cases hn : n.step with
  | more k =>
    exact (Reaches.head (h.trans hn) .refl).run_eq.trans (Reaches.head hn .refl).run_eq.symm
  | finished r => exact (run_finished (h.trans hn)).trans (run_finished hn).symm

theorem run_more {m n : Machine} (h : n.step = .more m) : n.run = m.run :=
  (Reaches.head h .refl).run_eq

end Machine

/-! ## Runs -/

namespace Cursor

variable {chars w : List Char} {m : State} {n : Machine}

/-- The two parsers come together to their last step. -/
theorem Matches.last (h : Matches chars w m n) : ∃ k ≤ n.potential, ∃ m',
    after chars k m = some m' ∧ Agrees chars w (step chars m') (.finished n.run) := by
  fun_induction Machine.run n generalizing m with
  | case1 n n' hstep ih =>
    have hagree := step_agrees h
    rw [hstep] at hagree
    generalize hmove : step chars m = move at hagree
    cases hagree with
    | @more m₁ _ hnext =>
      obtain ⟨k, hk, m', hafter, hlast⟩ := ih hnext
      -- The step that was taken is paid for by what it lowers the potential.
      refine ⟨k + 1, by have := Machine.step_potential hstep; omega, m', ?_, hlast⟩
      rw [after, hmove]
      exact hafter
  | case2 n r hstep =>
    have hagree := step_agrees h
    rw [hstep] at hagree
    exact ⟨0, Nat.zero_le _, m, rfl, hagree⟩

/-- Wherever the parser with a cursor comes to, the other one comes to the same place. -/
theorem Matches.after (h : Matches chars w m n) {k : Nat} {m' : State}
    (hafter : after chars k m = some m') : ∃ n', Matches chars w m' n' := by
  induction k generalizing m n with
  | zero =>
    obtain rfl : m = m' := Option.some.inj hafter
    exact ⟨n, h⟩
  | succ k ih =>
    have hagree := step_agrees h
    generalize hmove : step chars m = move at hagree
    generalize n.step = progress at hagree
    rw [Cursor.after, hmove] at hafter
    cases hagree with
    | more hnext => exact ih hnext hafter
    | finished | fault => cases hafter

theorem Agrees.inside {p : Progress} (h : Agrees chars w (.error .outside) p) : False := by
  cases h with
  | fault h => exact h

theorem Blames.eq_fault {stop : Stop} {f : Fault} (h : Blames chars [] stop f) :
    stop = .fault ⟨f.kind.message, chars.length - f.remaining⟩ ∧ f.remaining ≤ chars.length := by
  cases stop with
  | outside => exact h.elim
  | fault e =>
    obtain ⟨message, position⟩ := e
    obtain ⟨rfl, hposition⟩ := h rfl
    simp only at hposition
    refine ⟨?_, by omega⟩
    rw [← hposition, Nat.add_sub_cancel]

/-- Two texts that one cursor cannot tell apart parse alike. -/
theorem ok_iff {w₁ w₂ : List Char} {n₁ n₂ : Machine} (h₁ : Matches chars w₁ m n₁)
    (h₂ : Matches chars w₂ m n₂) (e : Expr) : n₁.run = .ok e ↔ n₂.run = .ok e := by
  -- The step of the cursor says which kind of step both machines take.
  fun_induction Machine.run n₁ generalizing m n₂ with
  | case1 n₁ n₁' hstep ih =>
    have hagree₁ := step_agrees h₁
    have hagree₂ := step_agrees h₂
    rw [hstep] at hagree₁
    generalize step chars m = move at hagree₁ hagree₂
    cases hagree₁ with
    | more hnext₁ =>
      generalize hstep₂ : n₂.step = progress at hagree₂
      cases hagree₂ with
      | more hnext₂ =>
        rw [Machine.run_more hstep₂]
        exact ih hnext₁ hnext₂
  | case2 n₁ r hstep =>
    have hagree₁ := step_agrees h₁
    have hagree₂ := step_agrees h₂
    rw [hstep] at hagree₁
    generalize step chars m = move at hagree₁ hagree₂
    generalize hstep₂ : n₂.step = progress at hagree₂
    cases hagree₁ with
    | finished e' =>
      cases hagree₂ with
      | finished => rw [run_finished hstep₂]
    | fault hfault =>
      cases hagree₂ with
      | fault => simp [run_finished hstep₂]

end Cursor

/-! ## Blanks around the text -/

theorem operand_congr {s t : Rest} (stack : List Pending) (h : skipBlanks s = skipBlanks t) :
    Machine.operand stack s = Machine.operand stack t := by
  simp only [Machine.operand, eatOperator?, eat?, Machine.castPrefix?, h]

theorem run_blanks {w : List Char} (hw : ∀ c ∈ w, isBlank c = true) (s : Rest) :
    (start (w ++ s)).run = (start s).run :=
  Machine.run_congr (operand_congr [] (skipBlanks_append hw))

theorem matches_start {w : List Char} (hw : ∀ c ∈ w, isBlank c = true) (s : Rest) :
    Cursor.Matches (s ++ w) w Cursor.start (start s) :=
  ⟨rfl, rfl, Cursor.stands_start hw⟩

theorem matches_start_nil (s : Rest) : Cursor.Matches s [] Cursor.start (start s) := by
  simpa using matches_start (w := []) (by simp) s

/-- The characters that remain at an error are some of the text. -/
theorem remaining_le {s : Rest} {f : Fault} (h : (start s).run = .error f) :
    f.remaining ≤ s.length := by
  obtain ⟨k, -, m, -, hlast⟩ := (matches_start_nil s).last
  rw [h] at hlast
  generalize Cursor.step s m = move at hlast
  cases hlast with
  | fault hfault => exact hfault.eq_fault.2

end Grammar

/-! ## The whole parser -/

open Grammar Text

/-- What the parser does on a text, and on the text with blanks around it. -/
structure ParsesSafely (source : String) : Prop where
  /-- The parser with a cursor comes to an end, and with the same result. -/
  finishes : ∃ k ≤ 8 * source.length, ∃ m,
    Cursor.after source.toList k Cursor.start = some m ∧
      Cursor.step source.toList m = ((parse source).mapError .fault).map .finished
  /-- In no step is the cursor behind the end or are characters cut out that are not there. -/
  inside : ∀ k m, Cursor.after source.toList k Cursor.start = some m →
    m.pos ≤ source.length ∧ Cursor.step source.toList m ≠ .error .outside
  position : ∀ f, parse source = .error f → f.position ≤ source.length
  indented : ∀ w : String, (∀ c ∈ w.toList, isBlank c = true) →
    parse (w ++ source) = (parse source).mapError fun f => ⟨f.message, f.position + w.length⟩
  followed : ∀ w : String, (∀ c ∈ w.toList, isBlank c = true) →
    ∀ e, parse (source ++ w) = .ok e ↔ parse source = .ok e

theorem parse_eq_ok {source : String} {e : Expr} :
    parse source = .ok e ↔ (Grammar.start source.toList).run = .ok e := by
  unfold parse
  cases (Grammar.start source.toList).run <;> simp [Except.mapError]

theorem parse_finishes (source : String) : ∃ k ≤ 8 * source.length, ∃ m,
    Cursor.after source.toList k Cursor.start = some m ∧
      Cursor.step source.toList m = ((parse source).mapError .fault).map .finished := by
  obtain ⟨k, hk, m, hafter, hlast⟩ := (matches_start_nil source.toList).last
  refine ⟨k, ?_, m, hafter, ?_⟩
  · simpa [Machine.potential, Grammar.start, Machine.weight, String.length_toList] using hk
  · unfold parse
    generalize (Grammar.start source.toList).run = result at hlast
    generalize Cursor.step source.toList m = move at hlast
    cases hlast with
    | finished e => rfl
    | fault hfault =>
      obtain ⟨rfl, -⟩ := hfault.eq_fault
      rfl

theorem parse_inside {source : String} {k : Nat} {m : Cursor.State}
    (h : Cursor.after source.toList k Cursor.start = some m) :
    m.pos ≤ source.length ∧ Cursor.step source.toList m ≠ .error .outside := by
  obtain ⟨n, hmatch⟩ := (matches_start_nil source.toList).after h
  refine ⟨by simpa [String.length_toList] using hmatch.rest.le_length, fun houtside => ?_⟩
  have hagree := Cursor.step_agrees hmatch
  rw [houtside] at hagree
  exact hagree.inside

theorem parse_position {source : String} {f : SyntaxError} (h : parse source = .error f) :
    f.position ≤ source.length := by
  unfold parse at h
  cases hrun : (Grammar.start source.toList).run with
  | ok e => simp [hrun, Except.mapError] at h
  | error g =>
    rw [hrun] at h
    cases h
    exact (Nat.sub_le _ _).trans_eq String.length_toList

theorem parse_indented {w : String} (hw : ∀ c ∈ w.toList, isBlank c = true) (source : String) :
    parse (w ++ source) = (parse source).mapError fun f => ⟨f.message, f.position + w.length⟩ := by
  unfold parse
  rw [String.toList_append, run_blanks hw]
  cases hrun : (Grammar.start source.toList).run with
  | ok e => rfl
  | error f =>
    have hle := remaining_le hrun
    simp only [Except.mapError, List.length_append, String.length_toList] at hle ⊢
    congr 2
    omega

theorem parse_followed {w : String} (hw : ∀ c ∈ w.toList, isBlank c = true) (source : String)
    (e : Expr) : parse (source ++ w) = .ok e ↔ parse source = .ok e := by
  rw [parse_eq_ok, parse_eq_ok, String.toList_append]
  exact Cursor.ok_iff (matches_start_nil _) (matches_start hw _) e

theorem parse_safe (source : String) : ParsesSafely source where
  finishes := parse_finishes source
  inside _ _ h := parse_inside h
  position _ h := parse_position h
  indented _ hw := parse_indented hw source
  followed _ hw e := parse_followed hw source e

end JvmDebug
