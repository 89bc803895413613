import JvmDebug.Proofs.EnclosedReaders
import JvmDebug.Proofs.TypeNameRuns

/-!
An expression in parentheses. The parser reads it as it reads the expression alone, down to the
closing parenthesis, unless the whole of it can be read as the type of a cast.
-/
namespace JvmDebug
namespace Grammar
open Text

/-! ## Order on the stack -/

namespace Machine

/-- Below an operand that waits for its right side, nothing waits for an operand of its level or of
a higher one. -/
def Ordered : List Pending → Prop
  | .right op _ :: stack => Admits op.level stack ∧ Ordered stack
  | _ :: stack => Ordered stack
  | [] => True

def Mode.Fits (stack : List Pending) : Mode → Prop
  | .climb _ level => level ≤ 6 ∧ Admits level stack
  | _ => True

structure InOrder (m : Machine) : Prop where
  stack : Ordered m.stack
  mode : Mode.Fits m.stack m.mode

/-- The parser goes on in order or stops with a fault. -/
def Progress.InOrder : Progress → Prop
  | .more m => m.InOrder
  | .finished (.error _) => True
  | .finished (.ok _) => False

/-- The machine has come to the end of its text with an expression that nothing waits for. -/
structure Ended (m : Machine) (e : Expr) : Prop where
  mode : m.mode = .climb e 0
  stack : m.stack = []
  rest : skipBlanks m.rest = []

variable {stack : List Pending}

theorem admits_six (stack : List Pending) : Admits 6 stack := by
  cases stack with
  | nil => trivial
  | cons pending stack =>
    cases pending with
    | right op left => exact Nat.lt_succ_of_le op.level_le
    | unary | cast => exact Nat.le_refl 6
    | group | subscript | newArray | argument => trivial

theorem openArguments_inOrder (callee : Callee) (h : Ordered stack) (s : Rest) :
    Progress.InOrder (openArguments callee stack s) := by
  unfold openArguments
  split <;> exact ⟨h, trivial⟩

theorem afterName_inOrder (callee : Callee) (e : Expr) (h : Ordered stack) (s : Rest) :
    Progress.InOrder (afterName callee e stack s) := by
  unfold afterName
  split
  · exact openArguments_inOrder callee h _
  · exact ⟨h, trivial⟩

theorem afterNew_inOrder (h : Ordered stack) (s : Rest) :
    Progress.InOrder (afterNew stack s) := by
  unfold afterNew
  split
  · trivial
  · split
    · exact ⟨h, trivial⟩
    · exact openArguments_inOrder _ h _
    · trivial

theorem afterWord_inOrder (name : String) (h : Ordered stack) (s : Rest) :
    Progress.InOrder (afterWord stack name s) := by
  unfold afterWord
  split
  · exact ⟨h, trivial⟩
  · exact ⟨h, trivial⟩
  · exact ⟨h, trivial⟩
  · exact ⟨h, trivial⟩
  · exact afterNew_inOrder h s
  · exact afterName_inOrder _ _ h s

theorem afterLiteral_inOrder (h : Ordered stack) (read : Read Literal) :
    Progress.InOrder (afterLiteral stack read) := by
  unfold afterLiteral
  split
  · trivial
  · exact ⟨h, trivial⟩

theorem primary_inOrder (h : Ordered stack) (s : Rest) :
    Progress.InOrder (primary stack s) := by
  unfold primary
  split
  · trivial
  · exact ⟨h, trivial⟩
  · exact afterLiteral_inOrder h _
  · exact afterLiteral_inOrder h _
  · split
    · exact afterLiteral_inOrder h _
    · split
      · exact afterWord_inOrder _ h _
      · trivial

theorem operand_inOrder (h : Ordered stack) (s : Rest) :
    Progress.InOrder (operand stack s) := by
  unfold operand
  split
  · exact ⟨h, trivial⟩
  · split
    · split
      · exact ⟨h, Nat.le_refl 6, admits_six stack⟩
      · exact ⟨h, trivial⟩
    · split
      · exact ⟨h, trivial⟩
      · split
        · exact ⟨h, trivial⟩
        · exact primary_inOrder h _

theorem postfixed_inOrder (e : Expr) (h : Ordered stack) (s : Rest) :
    Progress.InOrder (postfixed e stack s) := by
  unfold postfixed
  split
  · split
    · trivial
    · exact afterName_inOrder _ _ h _
  · split
    · exact ⟨h, trivial⟩
    · exact ⟨h, Nat.le_refl 6, admits_six stack⟩

theorem close_inOrder (e : Expr) (hall : TakesAll stack) (h : Ordered stack) (s : Rest) :
    Progress.InOrder (close e stack s) ∨ Ended ⟨.climb e 0, stack, s⟩ e := by
  unfold close
  split
  · left
    split
    · exact ⟨h, trivial⟩
    · trivial
  · left
    split
    · exact ⟨h, trivial⟩
    · trivial
  · left
    split
    · exact ⟨h, trivial⟩
    · trivial
  · left
    split
    · exact ⟨h, trivial⟩
    · split
      · exact ⟨h, trivial⟩
      · trivial
  · next hgroup hsubscript hnewArray hargument =>
    split
    · next hs =>
      cases stack with
      | nil => exact .inr ⟨rfl, rfl, hs⟩
      | cons pending below =>
        cases pending with
        | right | unary | cast => exact hall.elim
        | group => exact (hgroup _ rfl).elim
        | subscript => exact (hsubscript _ _ rfl).elim
        | newArray => exact (hnewArray _ _ rfl).elim
        | argument => exact (hargument _ _ _ rfl).elim
    · exact .inl trivial

theorem admits_of_takesAll (level : Nat) (h : TakesAll stack) : Admits level stack := by
  cases stack with
  | nil => trivial
  | cons pending below =>
    cases pending with
    | right | unary | cast => exact h.elim
    | group | subscript | newArray | argument => trivial

theorem climb_inOrder (e : Expr) {level : Nat} (hlevel : level ≤ 6) (hadmits : Admits level stack)
    (h : Ordered stack) (s : Rest) :
    Progress.InOrder (climb e level stack s) ∨ Ended ⟨.climb e level, stack, s⟩ e := by
  have all (hall : TakesAll stack) :
      Progress.InOrder (climb e level stack s) ∨ Ended ⟨.climb e level, stack, s⟩ e := by
    rw [climb_of_takesAll e level hall]
    split
    · left
      split
      · exact ⟨h, hlevel, hadmits⟩
      · trivial
    · split
      · next op r hop =>
        obtain ⟨rfl, -⟩ := operator?_spec hop
        exact .inl ⟨⟨hadmits, h⟩, trivial⟩
      · cases level with
        | zero => exact close_inOrder e hall h s
        | succ level => exact .inl ⟨h, Nat.le_of_succ_le hlevel, admits_of_takesAll level hall⟩
  cases stack with
  | nil => exact all trivial
  | cons pending below =>
    cases pending with
    | group | subscript | newArray | argument => exact all trivial
    | unary | cast =>
      obtain rfl : level = 6 := Nat.le_antisymm hlevel hadmits
      exact .inl ⟨h, Nat.le_refl 6, admits_six below⟩
    | right op left =>
      left
      obtain ⟨level, rfl⟩ := Nat.exists_eq_succ_of_ne_zero (Nat.ne_zero_of_lt hadmits)
      simp only [climb]
      split
      · split
        · exact ⟨h, hlevel, hadmits⟩
        · trivial
      · split
        · next op' r hop =>
          obtain ⟨hlevel', -⟩ := operator?_spec hop
          exact ⟨⟨hlevel' ▸ hadmits, h⟩, trivial⟩
        · split
          · next heq => exact ⟨h.2, Nat.le_of_succ_le hlevel, heq ▸ h.1⟩
          · next hne =>
            exact ⟨h, Nat.le_of_succ_le hlevel, Nat.lt_of_le_of_ne (Nat.le_of_lt_succ hadmits) hne⟩

theorem inOrder_start (s : Rest) : (start s).InOrder := ⟨trivial, trivial⟩

/-- A machine in order stays so, and only at the end of its text it gives an expression. -/
theorem step_inOrder {m : Machine} (h : m.InOrder) :
    Progress.InOrder m.step ∨ ∃ e, m.Ended e := by
  obtain ⟨mode, stack, s⟩ := m
  cases mode with
  | operand => exact .inl (operand_inOrder h.stack s)
  | postfixed e => exact .inl (postfixed_inOrder e h.stack s)
  | climb e level => exact (climb_inOrder e h.mode.1 h.mode.2 h.stack s).imp_right fun hend => ⟨e, hend⟩

/-! ## The parser between parentheses -/

/-- The machine with more frames below its own, and a closing parenthesis and more behind its text. -/
def enclose (below : List Pending) (k : Rest) (m : Machine) : Machine :=
  ⟨m.mode, m.stack ++ below, m.rest ++ ')' :: k⟩

variable (below : List Pending) (k : Rest)

/-- A step that leads to an expression is taken in parentheses as well. -/
def Carries (alone within : Progress) : Prop :=
  match alone with
  | .more m => (∃ e, m.run = .ok e) → within = .more (m.enclose below k)
  | .finished _ => True

theorem openArguments_carries (callee : Callee) (stack : List Pending) (s : Rest) :
    Carries below k (openArguments callee stack s)
      (openArguments callee (stack ++ below) (s ++ ')' :: k)) := by
  unfold openArguments
  rw [skipBlanks_enclosed]
  cases hs : skipBlanks s with
  | nil =>
    rintro ⟨e, hrun⟩
    rw [run_operand_blank _ rfl] at hrun
    cases hrun
  | cons c r =>
    by_cases hc : c = ')'
    · subst hc
      exact fun _ => rfl
    · simp [hc, Carries, enclose]

theorem afterName_carries (callee : Callee) (e : Expr) (stack : List Pending) (s : Rest) :
    Carries below k (afterName callee e stack s)
      (afterName callee e (stack ++ below) (s ++ ')' :: k)) := by
  cases s with
  | nil => exact fun _ => rfl
  | cons c r =>
    by_cases hc : c = '('
    · subst hc
      exact openArguments_carries below k callee stack r
    · simp [afterName, hc, Carries, enclose]

theorem afterNew_carries (stack : List Pending) (s : Rest) :
    Carries below k (afterNew stack s) (afterNew (stack ++ below) (s ++ ')' :: k)) := by
  have hread := readTypeName_enclosed k s
  unfold afterNew
  cases h : readTypeName s with
  | error => trivial
  | ok p =>
    obtain ⟨typeName, r⟩ := p
    simp only [hread.of_ok h, skipBlanks_enclosed]
    cases skipBlanks r with
    | nil => trivial
    | cons c q =>
      by_cases hbracket : c = '['
      · subst hbracket
        exact fun _ => rfl
      · by_cases hopen : c = '('
        · subst hopen
          exact openArguments_carries below k _ stack q
        · simp [hbracket, hopen, Carries]

theorem afterWord_carries (name : String) (stack : List Pending) (s : Rest) :
    Carries below k (afterWord stack name s) (afterWord (stack ++ below) name (s ++ ')' :: k)) := by
  unfold afterWord
  split
  · exact fun _ => rfl
  · exact fun _ => rfl
  · exact fun _ => rfl
  · exact fun _ => rfl
  · exact afterNew_carries below k stack s
  · exact afterName_carries below k _ _ stack s

theorem afterLiteral_carries (stack : List Pending) {alone within : Read Literal}
    (h : ∀ l r, alone = .ok (l, r) → within = .ok (l, r ++ ')' :: k)) :
    Carries below k (afterLiteral stack alone) (afterLiteral (stack ++ below) within) := by
  cases alone with
  | error => trivial
  | ok p =>
    obtain ⟨l, r⟩ := p
    rw [h l r rfl]
    exact fun _ => rfl

theorem primary_carries (stack : List Pending) (s : Rest) :
    Carries below k (primary stack s) (primary (stack ++ below) (s ++ ')' :: k)) := by
  cases s with
  | nil => trivial
  | cons c r =>
    by_cases hgroup : c = '('
    · subst hgroup
      exact fun _ => rfl
    by_cases hstring : c = '"'
    · subst hstring
      refine afterLiteral_carries below k stack fun l q hread => ?_
      obtain ⟨⟨text, t⟩, hbody, hl⟩ := exists_of_map_eq_ok hread
      cases hl
      exact congrArg (Except.map _) (readStringBody_enclosed k hbody)
    by_cases hchar : c = '\''
    · subst hchar
      refine afterLiteral_carries below k stack fun l q hread => ?_
      obtain ⟨⟨unit, t⟩, hbody, hl⟩ := exists_of_map_eq_ok hread
      cases hl
      exact congrArg (Except.map _) (readCharBody_enclosed k hbody)
    by_cases hname : isNameStart c = true
    · have hpart : isNamePart ')' = false := by decide
      rw [List.cons_append, primary_word stack hname, primary_word _ hname,
        takeWhile_enclosed k hpart, dropWhile_enclosed k hpart]
      exact afterWord_carries below k _ stack _
    rw [List.cons_append, primary.eq_5 _ _ _ hgroup hstring hchar,
      primary.eq_5 _ _ _ hgroup hstring hchar, startsWith_enclosed k (by decide), if_neg hname,
      if_neg hname]
    split
    · exact afterLiteral_carries below k stack fun l q hread => readNumber_enclosed k hread
    · trivial

/-- Ahead of a closing parenthesis there can be the type of a cast that was none before: a type name
that goes on to the end of the text. -/
theorem castPrefix?_enclosed (s : Rest) :
    castPrefix? (s ++ ')' :: k) = (castPrefix? s).map (fun (t, r) => (t, r ++ ')' :: k)) ∨
      castPrefix? s = none ∧ ∃ r typeName q, skipBlanks s = '(' :: r ∧
        readTypeName r = .ok (typeName, q) ∧ skipBlanks q = [] := by
  unfold castPrefix?
  rw [skipBlanks_enclosed]
  cases hs : skipBlanks s with
  | nil => exact .inl rfl
  | cons c r =>
    by_cases hopen : c = '('
    · subst hopen
      have hread := readTypeName_enclosed k r
      cases h : readTypeName r with
      | error f =>
        obtain ⟨f', hf⟩ := hread.of_error h
        simp [hf, h]
      | ok p =>
        obtain ⟨typeName, q⟩ := p
        simp only [List.cons_append, hread.of_ok h, h, skipBlanks_enclosed]
        split
        · exact .inl rfl
        · cases hq : skipBlanks q with
          | nil => exact .inr ⟨rfl, r, typeName, q, rfl, h, hq⟩
          | cons d t =>
            left
            by_cases hclose : d = ')'
            · subst hclose
              rfl
            · simp [hclose]
    · simp [hopen]

theorem operand_carries (stack : List Pending) (s : Rest) :
    Carries below k (operand stack s) (operand (stack ++ below) (s ++ ')' :: k)) := by
  unfold operand
  rw [eatOperator?_enclosed k (by decide), eat?_enclosed k (by decide), eat?_enclosed k (by decide)]
  cases eatOperator? "!" s with
  | some r => exact fun _ => rfl
  | none =>
    cases eat? "-" s with
    | some r =>
      simp only [Option.map_none, Option.map_some, readLeast?_enclosed]
      cases readLeast? r with
      | some p => exact fun _ => rfl
      | none => exact fun _ => rfl
    | none =>
      cases eat? "+" s with
      | some r => exact fun _ => rfl
      | none =>
        simp only [Option.map_none]
        rcases castPrefix?_enclosed k s with hcast | ⟨hnone, r, typeName, q, hs, hread, hq⟩
        · rw [hcast, skipBlanks_enclosed]
          cases castPrefix? s with
          | some p => exact fun _ => rfl
          | none => exact primary_carries below k stack (skipBlanks s)
        · rw [hnone, hs]
          rintro ⟨e, hrun⟩
          obtain ⟨f, hf⟩ := run_typeName_open stack hread hq
          cases hf.symm.trans hrun

theorem postfixed_carries (e : Expr) (stack : List Pending) (s : Rest) :
    Carries below k (postfixed e stack s) (postfixed e (stack ++ below) (s ++ ')' :: k)) := by
  unfold postfixed
  rw [eat?_enclosed k (by decide), eat?_enclosed k (by decide)]
  cases eat? "." s with
  | some r =>
    have hread := readName_enclosed k r
    cases h : readName r with
    | error =>
      simp only [h]
      trivial
    | ok p =>
      obtain ⟨name, q⟩ := p
      simp only [Option.map_some, h, hread.of_ok h]
      exact afterName_carries below k _ _ stack q
  | none =>
    cases eat? "[" s with
    | some r => exact fun _ => rfl
    | none => exact fun _ => rfl

theorem expect_carries (e : Expr) (c : Char) (s : Rest) :
    Carries below k
      (match expect c s with
        | .ok r => .more ⟨.postfixed e, stack, r⟩
        | .error f => .finished (.error f))
      (match expect c (s ++ ')' :: k) with
        | .ok r => .more ⟨.postfixed e, stack ++ below, r⟩
        | .error f => .finished (.error f)) := by
  cases h : expect c s with
  | error => trivial
  | ok r =>
    rw [expect_enclosed k h]
    exact fun _ => rfl

theorem close_carries (e : Expr) (pending : Pending) (stack : List Pending) (s : Rest) :
    Carries below k (close e (pending :: stack) s)
      (close e (pending :: stack ++ below) (s ++ ')' :: k)) := by
  cases pending with
  | right | unary | cast =>
    simp only [close]
    split <;> trivial
  | group => exact expect_carries below k _ ')' s
  | subscript => exact expect_carries below k _ ']' s
  | newArray => exact expect_carries below k _ ']' s
  | argument callee before =>
    simp only [List.cons_append, close]
    rw [eat?_enclosed k (by decide)]
    cases eat? "," s with
    | some r => exact fun _ => rfl
    | none => exact expect_carries below k _ ')' s

theorem takesAll_append (hbelow : TakesAll below) (hall : TakesAll stack) :
    TakesAll (stack ++ below) := by
  cases stack with
  | nil => exact hbelow
  | cons pending stack =>
    cases pending with
    | right | unary | cast => exact hall.elim
    | group | subscript | newArray | argument => trivial

theorem instanceOf_carries (e : Expr) (level : Nat) (s : Rest) :
    Carries below k
      (match readTypeName s with
        | .ok (typeName, r) => .more ⟨.climb (.instanceOf e typeName) level, stack, r⟩
        | .error f => .finished (.error f))
      (match readTypeName (s ++ ')' :: k) with
        | .ok (typeName, r) => .more ⟨.climb (.instanceOf e typeName) level, stack ++ below, r⟩
        | .error f => .finished (.error f)) := by
  have hread := readTypeName_enclosed k s
  cases h : readTypeName s with
  | error => trivial
  | ok p =>
    rw [hread.of_ok h]
    exact fun _ => rfl

theorem climb_carries (hbelow : TakesAll below) (e : Expr) {level : Nat} (hlevel : level ≤ 6)
    (hadmits : Admits level stack) (s : Rest) :
    Carries below k (climb e level stack s) (climb e level (stack ++ below) (s ++ ')' :: k)) := by
  have hword : (if level = 3 then eatWord? "instanceof" (s ++ ')' :: k) else none) =
      (if level = 3 then eatWord? "instanceof" s else none).map (· ++ ')' :: k) := by
    rw [eatWord?_enclosed k (by decide)]
    split <;> rfl
  have all (hall : TakesAll stack) :
      Carries below k (climb e level stack s) (climb e level (stack ++ below) (s ++ ')' :: k)) := by
    rw [climb_of_takesAll e level hall, climb_of_takesAll e level (takesAll_append below hbelow hall),
      hword, operator?_enclosed]
    cases if level = 3 then eatWord? "instanceof" s else none with
    | some r => exact instanceOf_carries below k e _ r
    | none =>
      cases operator? level s with
      | some p => exact fun _ => rfl
      | none =>
        cases level with
        | succ level => exact fun _ => rfl
        | zero =>
          cases stack with
          | nil =>
            simp only [close]
            split <;> trivial
          | cons pending stack => exact close_carries below k e pending stack s
  cases stack with
  | nil => exact all trivial
  | cons pending stack =>
    cases pending with
    | group | subscript | newArray | argument => exact all trivial
    | unary | cast =>
      obtain rfl : level = 6 := Nat.le_antisymm hlevel hadmits
      exact fun _ => rfl
    | right op left =>
      obtain ⟨level, rfl⟩ := Nat.exists_eq_succ_of_ne_zero (Nat.ne_zero_of_lt hadmits)
      simp only [List.cons_append, climb]
      rw [hword, operator?_enclosed]
      cases if level.succ = 3 then eatWord? "instanceof" s else none with
      | some r => exact instanceOf_carries below k e _ r
      | none =>
        cases operator? level.succ s with
        | some p => exact fun _ => rfl
        | none =>
          simp only [Option.map_none]
          split
          · exact fun _ => rfl
          · exact fun _ => rfl

theorem step_carries (hbelow : TakesAll below) {m : Machine} (h : m.InOrder) :
    Carries below k m.step (m.enclose below k).step := by
  obtain ⟨mode, stack, s⟩ := m
  cases mode with
  | operand => exact operand_carries below k stack s
  | postfixed e => exact postfixed_carries below k e stack s
  | climb e level => exact climb_carries below k hbelow e h.mode.1 h.mode.2 s

theorem Ended.step_eq {m : Machine} {e : Expr} (h : m.Ended e) : m.step = .finished (.ok e) := by
  obtain ⟨mode, stack, s⟩ := m
  obtain ⟨rfl, rfl, hs⟩ := h
  have hstops : Stops s := by simp [Stops, lead?, hs]
  have hall : TakesAll [] := trivial
  simp [hstops.step_eq hall, close, hs]

/-- By induction on the run: in parentheses it takes the same steps, and ends before the closing
parenthesis. -/
theorem reaches_enclose (hbelow : TakesAll below) {m : Machine} (h : m.InOrder) {e : Expr}
    (hrun : m.run = .ok e) :
    ∃ r, skipBlanks r = [] ∧ Reaches (m.enclose below k) ⟨.climb e 0, below, r ++ ')' :: k⟩ := by
  fun_induction Machine.run m with
  | case1 m n hstep ih =>
    have hcarries := step_carries below k hbelow h
    rw [hstep] at hcarries
    have hnext : n.InOrder := by
      rcases step_inOrder h with hnext | ⟨e', hend⟩
      · rwa [hstep] at hnext
      · cases hstep.symm.trans hend.step_eq
    obtain ⟨r, hr, hreach⟩ := ih hnext hrun
    exact ⟨r, hr, hreach.head (hcarries ⟨e, hrun⟩)⟩
  | case2 m result hstep =>
    subst hrun
    rcases step_inOrder h with hnext | ⟨e', hend⟩
    · rw [hstep] at hnext
      exact hnext.elim
    · cases hstep.symm.trans hend.step_eq
      obtain ⟨mode, stack, s⟩ := m
      obtain ⟨rfl, rfl, hs⟩ := hend
      exact ⟨s, hs, .refl⟩

/-- A text that is an expression alone is the same operand in a group. -/
theorem reaches_group (stack : List Pending) {s : Rest} {e : Expr} (h : (start s).run = .ok e) :
    Reaches ⟨.operand, .group :: stack, s ++ ')' :: k⟩ ⟨.postfixed e, stack, k⟩ := by
  have hall : TakesAll (.group :: stack) := trivial
  obtain ⟨r, hr, hreach⟩ := reaches_enclose (.group :: stack) k hall (inOrder_start s) h
  have hclose : skipBlanks (r ++ ')' :: k) = ')' :: k := by rw [skipBlanks_enclosed, hr]; rfl
  have hstops : Stops (r ++ ')' :: k) := by simp [Stops, lead?, hclose]
  refine hreach.tail ?_
  rw [hstops.step_eq hall, close, expect_eq_ok hclose]

end Machine

/-- The text is a type name and no reserved word, so that in parentheses it is the type of a cast. -/
def IsCast (source : String) : Prop :=
  ∃ typeName, WritesType typeName source ∧ typeName ∉ reserved

theorem not_isCast_of_readTypeName {source typeName : String} {r : Rest}
    (h : readTypeName source.toList = .ok (typeName, r)) (hr : skipBlanks r ≠ []) :
    ¬IsCast source := by
  rintro ⟨name, hwrites, -⟩
  obtain ⟨q, hread, hq⟩ := writesType_iff.1 hwrites
  cases h.symm.trans hread
  exact hr hq

theorem castPrefix?_between {source : String} {e : Expr} (h : (start source.toList).run = .ok e) :
    Machine.castPrefix? ('(' :: (source.toList ++ [')'])) = none ∧ ¬IsCast source ∨
      ∃ typeName, Machine.castPrefix? ('(' :: (source.toList ++ [')'])) = some (typeName, []) ∧
        IsCast source := by
  have hskip : skipBlanks ('(' :: (source.toList ++ [')'])) = _ := skipBlanks_cons _ (by decide)
  have hread := readTypeName_enclosed [] source.toList
  have notCast (hno : ∀ typeName q, readTypeName source.toList = .ok (typeName, q) →
      typeName ∈ reserved) : ¬IsCast source := by
    rintro ⟨typeName, hwrites, hfree⟩
    obtain ⟨q, hq, -⟩ := writesType_iff.1 hwrites
    exact hfree (hno typeName q hq)
  unfold Machine.castPrefix?
  rw [hskip]
  simp only
  cases htype : readTypeName source.toList with
  | error f =>
    obtain ⟨f', hf⟩ := hread.of_error htype
    exact .inl ⟨by rw [hf], notCast fun _ _ hq => by cases htype.symm.trans hq⟩
  | ok p =>
    obtain ⟨typeName, q⟩ := p
    rw [hread.of_ok htype]
    simp only [skipBlanks_enclosed]
    by_cases hfree : typeName ∈ reserved
    · refine .inl ⟨if_pos hfree, notCast fun _ _ hq => ?_⟩
      cases htype.symm.trans hq
      exact hfree
    · rw [if_neg (by exact hfree)]
      cases hq : skipBlanks q with
      | nil => exact .inr ⟨typeName, rfl, typeName, writesType_iff.2 ⟨q, htype, hq⟩, hfree⟩
      | cons d t =>
        by_cases hclose : d = ')'
        · subst hclose
          obtain ⟨f, hf⟩ := Machine.run_typeName_closed htype hq
          cases hf.symm.trans h
        · exact .inl ⟨by simp [hclose], not_isCast_of_readTypeName htype (by simp [hq])⟩

theorem run_between {source : String} {e : Expr} (h : (start source.toList).run = .ok e) :
    (¬IsCast source → (start ('(' :: (source.toList ++ [')']))).run = .ok e) ∧
      (IsCast source →
        (start ('(' :: (source.toList ++ [')']))).run = fail (.expectedExpression none) []) := by
  have hskip : skipBlanks ('(' :: (source.toList ++ [')'])) = _ := skipBlanks_cons _ (by decide)
  have hoperand := Machine.operand_of_lead []
    (s := '(' :: (source.toList ++ [')'])) (by simp [lead?, hskip])
  rcases castPrefix?_between h with ⟨hnone, hnot⟩ | ⟨typeName, hcast, his⟩
  · refine ⟨fun _ => ?_, fun his => absurd his hnot⟩
    have hopen : (start ('(' :: (source.toList ++ [')']))).step =
        .more ⟨.operand, [.group], source.toList ++ [')']⟩ := by
      rw [hnone, hskip] at hoperand
      exact hoperand
    have hblank : Machine.Stops [] := by simp [Machine.Stops, lead?, skipBlanks]
    have hall : Machine.TakesAll [] := trivial
    have hgroup := (Machine.reaches_group [] [] h).head hopen
    have hcomplete : Machine.step ⟨.postfixed e, [], []⟩ = .more ⟨.climb e 6, [], []⟩ := rfl
    have hbottom := (hgroup.tail hcomplete).trans (hblank.reaches hall e 6)
    have hend : Machine.Ended ⟨.climb e 0, [], []⟩ e := ⟨rfl, rfl, rfl⟩
    exact (Reaches.run_eq hbottom).trans (run_finished hend.step_eq)
  · refine ⟨fun hnot => absurd his hnot, fun _ => ?_⟩
    have hopen : (start ('(' :: (source.toList ++ [')']))).step =
        .more ⟨.operand, [.cast typeName], []⟩ := by
      rw [hcast] at hoperand
      exact hoperand
    exact (Reaches.run_eq (.single hopen)).trans (Machine.run_operand_blank _ rfl)

end Grammar

open Grammar

theorem run_of_parse {source : String} {e : Expr} (h : parse source = .ok e) :
    (start source.toList).run = .ok e := by
  unfold parse at h
  cases hrun : (start source.toList).run with
  | error f => simp [hrun, Except.mapError] at h
  | ok e' => simpa [hrun, Except.mapError] using h

/-- In parentheses an expression stays what it is, unless its text is a type name and no reserved
word. Then the parentheses are the prefix of a cast, which lacks its operand. -/
theorem parse_parenthesized {source : String} {e : Expr} (h : parse source = .ok e) :
    (parse ("(" ++ source ++ ")") = .ok e ↔ ¬IsCast source) ∧
      (IsCast source → parse ("(" ++ source ++ ")") =
        .error ⟨"Expected expression, got end of input", source.length + 2⟩) := by
  have htext : ("(" ++ source ++ ")").toList = '(' :: (source.toList ++ [')']) := by
    simp
  have hlength : ("(" ++ source ++ ")").toList.length = source.length + 2 := by
    simp [htext, String.length]
  have hmessage : (FaultKind.expectedExpression none).message =
      "Expected expression, got end of input" := by decide +kernel
  obtain ⟨hgroup, hcast⟩ := run_between (run_of_parse h)
  rw [← htext] at hgroup hcast
  have herror (his : IsCast source) : parse ("(" ++ source ++ ")") =
      .error ⟨"Expected expression, got end of input", source.length + 2⟩ := by
    rw [parse, hcast his, hlength, fail, Except.mapError, hmessage]
    rfl
  refine ⟨⟨fun hok his => ?_, fun hnot => ?_⟩, herror⟩
  · rw [herror his] at hok
    cases hok
  · rw [parse, hgroup hnot]
    rfl

theorem parse_parenthesized_sum :
    let e : Expr := .binary .add (.name "a") (.literal (.int 1))
    parse "a + 1" = .ok e ∧ parse ("(" ++ "a + 1" ++ ")") = .ok e := by
  intro e
  have hreach : Reaches (start "a + 1".toList) ⟨.climb e 0, [], []⟩ := by
    repeat first
      | exact .refl
      | refine Reaches.head rfl ?_
  have hparse : parse "a + 1" = .ok e := by
    rw [parse, hreach.run_eq, run_finished rfl]
    rfl
  have hread : readTypeName "a + 1".toList = .ok ("a", " + 1".toList) := by decide +kernel
  exact ⟨hparse, (parse_parenthesized hparse).1.2 (not_isCast_of_readTypeName hread (by decide))⟩

/-- A field of `this` is a type name for the parser, for only the whole name is compared with the
reserved words. -/
theorem parentheses_not_transparent :
    ¬∀ source e, parse source = .ok e →
      (¬∃ typeName, WritesType typeName source ∧
        ∀ word ∈ reserved, .word word ∉ typeTokens typeName.toList) →
      parse ("(" ++ source ++ ")") = .ok e := by
  intro h
  have hreach : Reaches (start "this.x".toList) ⟨.climb (.field .this "x") 0, [], []⟩ := by
    repeat first
      | exact .refl
      | refine Reaches.head rfl ?_
  have hrun : (start "this.x".toList).run = .ok (.field .this "x") :=
    hreach.run_eq.trans (run_finished rfl)
  have hparse : parse "this.x" = .ok (.field .this "x") := by
    rw [parse, hrun]
    rfl
  have hread : readTypeName "this.x".toList = .ok ("this.x", []) := by decide +kernel
  have hwrites : WritesType "this.x" "this.x" := writesType_iff.2 ⟨[], hread, rfl⟩
  have hcast : IsCast "this.x" := ⟨"this.x", hwrites, by decide⟩
  have hword : .word "this" ∈ typeTokens "this.x".toList := by
    have hsplit : "this.x".toList = "this".toList ++ ".x".toList := by decide
    rw [hsplit, typeTokens_name (by decide +kernel) (by decide +kernel)]
    exact List.mem_cons_self
  have hok := run_of_parse <| h "this.x" _ hparse <| by
    rintro ⟨typeName, hname, hfree⟩
    obtain ⟨r, hread', -⟩ := writesType_iff.1 hname
    cases hread.symm.trans hread'
    exact hfree "this" (by decide) hword
  cases hok.symm.trans ((run_between hrun).2 hcast)

end JvmDebug
