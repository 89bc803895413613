import JvmDebug.Proofs.CursorReaders

/-!
The parser with a cursor takes the steps of the parser over the remaining characters: the two stand
at the same place, come to the same place, and end with the same expression or with a fault at the
same place.
-/
namespace JvmDebug.Grammar.Cursor
open Text

variable {chars w : List Char} {pos : Nat} {s : Rest}

/-! ## Steps -/

/-- The two parsers stand at the same place. -/
structure Matches (chars w : List Char) (m : State) (n : Machine) : Prop where
  mode : m.mode = n.mode
  stack : m.stack = n.stack
  rest : Stands chars w m.pos n.rest

inductive Agrees (chars w : List Char) : Except Stop Move → Progress → Prop
  | more {m : State} {n : Machine} (h : Matches chars w m n) :
      Agrees chars w (.ok (.more m)) (.more n)
  | finished (e : Expr) : Agrees chars w (.ok (.finished e)) (.finished (.ok e))
  | fault {stop : Stop} {f : Fault} (h : Blames chars w stop f) :
      Agrees chars w (.error stop) (.finished (.error f))

theorem Stands.goesOn (mode : Mode) (stack : List Pending) (h : Stands chars w pos s) :
    Agrees chars w (.ok (.more ⟨mode, stack, pos⟩)) (.more ⟨mode, stack, s⟩) :=
  .more ⟨rfl, rfl, h⟩

theorem Stands.stops (kind : FaultKind) (h : Stands chars w pos s) :
    Agrees chars w (Cursor.fail kind pos) (.finished (Grammar.fail kind s)) :=
  .fault (h.blames kind)

theorem openArguments_agrees (callee : Callee) (stack : List Pending) (h : Stands chars w pos s) :
    Agrees chars w (openArguments chars callee stack pos)
      (Machine.openArguments callee stack s) := by
  unfold Machine.openArguments
  split
  · next r hs =>
    obtain ⟨hclose, hnext⟩ := h.first hs
    simp only [openArguments, if_pos hclose]
    exact hnext.goesOn _ _
  · next hclose =>
    simp only [openArguments, if_neg (h.not_first (by decide) hclose)]
    exact h.skipBlanks.1.goesOn _ _

theorem afterName_agrees (callee : Callee) (e : Expr) (stack : List Pending)
    (h : Stands chars w pos s) :
    Agrees chars w (afterName chars callee e stack pos) (Machine.afterName callee e stack s) := by
  unfold Machine.afterName
  split
  · rw [afterName, if_pos h.cons.1]
    exact openArguments_agrees callee stack h.cons.2
  · next hopen =>
    rw [afterName, if_neg (h.not_at (by decide) hopen)]
    exact h.goesOn _ _

theorem afterNew_agrees (stack : List Pending) (h : Stands chars w pos s) :
    Agrees chars w (afterNew chars stack pos) (Machine.afterNew stack s) := by
  unfold Machine.afterNew
  obtain ⟨typeName, stop, r, hread, hread', hr⟩ | ⟨stop, f, hread, hread', hf⟩ :=
    (readTypeName_reads h).cases
  · rw [afterNew, hread]
    simp only [hread']
    -- The cases of the remaining characters decide what the cursor sees.
    split
    · next q hq =>
      obtain ⟨hbracket, hnext⟩ := hr.first hq
      show Agrees chars w (if _ then _ else _) _
      rw [if_pos hbracket]
      exact hnext.goesOn _ _
    · next q hq =>
      obtain ⟨hopen, hnext⟩ := hr.first hq
      show Agrees chars w (if _ then _ else if _ then _ else _) _
      rw [if_neg (by simp [hopen]), if_pos hopen]
      exact openArguments_agrees _ stack hnext
    · next hbracket hopen =>
      show Agrees chars w (if _ then _ else if _ then _ else _) _
      rw [if_neg (hr.not_first (by decide) hbracket), if_neg (hr.not_first (by decide) hopen)]
      exact hr.skipBlanks.1.stops _
  · rw [afterNew, hread, hread']
    exact .fault hf

theorem afterWord_agrees (stack : List Pending) (name : String) (h : Stands chars w pos s) :
    Agrees chars w (afterWord chars stack name pos) (Machine.afterWord stack name s) := by
  unfold Machine.afterWord
  split
  · exact h.goesOn _ _
  · exact h.goesOn _ _
  · exact h.goesOn _ _
  · exact h.goesOn _ _
  · exact afterNew_agrees stack h
  · next htrue hfalse hnull hthis hnew =>
    rw [afterWord.eq_6 _ _ _ _ htrue hfalse hnull hthis hnew]
    exact afterName_agrees _ _ stack h

theorem afterLiteral_agrees (stack : List Pending) {read : Except Stop (Literal × Nat)}
    {read' : Read Literal} (h : Reads chars w read read') :
    Agrees chars w (afterLiteral stack read) (Machine.afterLiteral stack read') := by
  obtain ⟨l, stop, r, rfl, rfl, hr⟩ | ⟨stop, f, rfl, rfl, hf⟩ := h.cases
  · exact hr.goesOn _ _
  · exact .fault hf

theorem primary_agrees (stack : List Pending) (h : Stands chars w pos s)
    (hend : chars[pos]? = s.head?) :
    Agrees chars w (primary chars stack pos) (Machine.primary stack s) := by
  cases s with
  | nil =>
    rw [primary, hend]
    exact h.stops _
  | cons c r =>
    obtain ⟨hat, hnext⟩ := h.cons
    by_cases hgroup : c = '('
    · subst hgroup
      rw [primary, hat]
      exact hnext.goesOn _ _
    by_cases hstring : c = '"'
    · subst hstring
      rw [primary, hat]
      exact afterLiteral_agrees stack
        ((readStringBody_reads h hnext).map fun t => Literal.string (String.ofList t))
    by_cases hchar : c = '\''
    · subst hchar
      rw [primary, hat]
      exact afterLiteral_agrees stack ((readCharBody_reads h hnext).map Literal.char)
    rw [primary_plain hat hgroup hstring hchar]
    by_cases hname : isNameStart c = true
    · have hdigit := isDigit_of_isNameStart hname
      have hdot : c ≠ '.' := by
        rintro rfl
        exact absurd hname (by decide)
      have hword : Grammar.readName (c :: r) =
          .ok (String.ofList (c :: r.takeWhile isNamePart), r.dropWhile isNamePart) := by
        rw [Grammar.readName, skipBlanks_cons r (solid_nameStart c hname)]
        exact if_pos hname
      rw [Machine.primary_word stack hname, if_neg (by simp [hdigit, hdot]), if_pos hname]
      obtain ⟨name, stop, t, hread, hread', ht⟩ | ⟨stop, f, -, hread', -⟩ :=
        (readName_reads h).cases
      · cases hread'.symm.trans hword
        rw [hread]
        exact afterWord_agrees stack _ ht
      · cases hread'.symm.trans hword
    · rw [Machine.primary.eq_5 _ _ _ hgroup hstring hchar, hnext.isAt_eq solid_digit, if_neg hname,
        if_neg hname]
      split
      · exact afterLiteral_agrees stack (readNumber_reads h)
      · exact h.stops _

theorem castPrefix?_cases (h : Stands chars w pos s) : ∃ found,
    castPrefix? chars pos = .ok found ∧
      Option.Rel (Found chars w) found (Machine.castPrefix? s) := by
  unfold Machine.castPrefix?
  split
  · next r hs =>
    obtain ⟨hopen, hnext⟩ := h.first hs
    simp only [castPrefix?, if_pos hopen]
    obtain ⟨typeName, stop, t, hread, hread', ht⟩ | ⟨stop, f, hread, hread', hf⟩ :=
      (readTypeName_reads hnext).cases
    · simp only [hread, hread']
      by_cases hfree : typeName ∈ reserved
      · rw [if_neg fun hand => hand.1 hfree, if_pos (by exact hfree)]
        exact ⟨none, rfl, .none⟩
      · have hlisted : typeName ∉ ["true", "false", "null", "this", "new"] := hfree
        rw [if_neg hlisted]
        by_cases hclose : chars[skip chars isBlank stop]? = some ')'
        · obtain ⟨q, hq⟩ := ht.skipBlanks.1.exists_of_at (by decide) hclose
          rw [if_pos ⟨hfree, hclose⟩, hq]
          exact ⟨_, rfl, .some ⟨rfl, (ht.first hq).2⟩⟩
        · rw [if_neg fun hand => hclose hand.2]
          split
          · next q hq => exact absurd (ht.first hq).1 hclose
          · exact ⟨none, rfl, .none⟩
    · simp only [hread, hread']
      cases stop with
      | outside => exact hf.elim
      | fault e => exact ⟨none, rfl, .none⟩
  · next hopen =>
    simp only [castPrefix?, if_neg (h.not_first (by decide) hopen)]
    exact ⟨none, rfl, .none⟩

theorem operand_agrees (stack : List Pending) (h : Stands chars w pos s) :
    Agrees chars w (operand chars stack pos) (Machine.operand stack s) := by
  unfold operand Machine.operand
  obtain ⟨p, r, hp, hr, hs⟩ | ⟨hp, hr⟩ := rel_cases (eatOperator?_rel "!" (by decide) h)
  · rw [hp, hr]
    exact hs.goesOn _ _
  rw [hp, hr]
  obtain ⟨p, r, hp, hr, hs⟩ | ⟨hp, hr⟩ := rel_cases (eat?_rel "-" (by decide) h)
  · rw [hp, hr]
    obtain ⟨found, hleast, hrel⟩ := exists_readLeast? hs
    simp only [hleast]
    obtain ⟨⟨l, q⟩, ⟨-, t⟩, rfl, ht, rfl, hs⟩ | ⟨rfl, ht⟩ := rel_cases hrel
    · rw [ht]
      exact hs.goesOn _ _
    · rw [ht]
      exact hs.goesOn _ _
  rw [hp, hr]
  obtain ⟨p, r, hp, hr, hs⟩ | ⟨hp, hr⟩ := rel_cases (eat?_rel "+" (by decide) h)
  · rw [hp, hr]
    exact hs.goesOn _ _
  rw [hp, hr]
  obtain ⟨found, hcast, hrel⟩ := castPrefix?_cases h
  simp only [hcast]
  obtain ⟨⟨typeName, q⟩, ⟨-, t⟩, rfl, ht, rfl, hs⟩ | ⟨rfl, ht⟩ := rel_cases hrel
  · rw [ht]
    exact hs.goesOn _ _
  · rw [ht]
    obtain ⟨hskip, hend⟩ := h.skipBlanks
    exact primary_agrees stack hskip hend

theorem postfixed_agrees (e : Expr) (stack : List Pending) (h : Stands chars w pos s) :
    Agrees chars w (postfixed chars e stack pos) (Machine.postfixed e stack s) := by
  unfold postfixed Machine.postfixed
  obtain ⟨p, r, hp, hr, hs⟩ | ⟨hp, hr⟩ := rel_cases (eat?_rel "." (by decide) h)
  · rw [hp, hr]
    obtain ⟨name, stop, t, hread, hread', ht⟩ | ⟨stop, f, hread, hread', hf⟩ :=
      (readName_reads hs).cases
    · simp only [hread, hread']
      exact afterName_agrees _ _ stack ht
    · simp only [hread, hread']
      exact .fault hf
  rw [hp, hr]
  obtain ⟨p, r, hp, hr, hs⟩ | ⟨hp, hr⟩ := rel_cases (eat?_rel "[" (by decide) h)
  · rw [hp, hr]
    exact hs.goesOn _ _
  · rw [hp, hr]
    exact h.goesOn _ _

theorem afterClosing_agrees (c : Char) (e : Expr) (stack : List Pending)
    (h : Stands chars w pos s) :
    Agrees chars w (afterClosing chars c e stack pos)
      (match Grammar.expect c s with
        | .ok r => .more ⟨.postfixed e, stack, r⟩
        | .error f => .finished (.error f)) := by
  obtain ⟨stop, r, hread, hread', hr⟩ | ⟨stop, f, hread, hread', hf⟩ := expect_cases c h
  · rw [afterClosing, hread, hread']
    exact hr.goesOn _ _
  · rw [afterClosing, hread, hread']
    exact .fault hf

theorem close_agrees (e : Expr) (stack : List Pending) (h : Stands chars w pos s) :
    Agrees chars w (close chars e stack pos) (Machine.close e stack s) := by
  have hbottom : Agrees chars w (close chars e [] pos) (Machine.close e [] s) := by
    obtain ⟨hskip, hend⟩ := h.skipBlanks
    simp only [close, Machine.close, hend]
    cases hs : Text.skipBlanks s with
    | nil => exact .finished e
    | cons c r =>
      rw [hs] at hskip
      exact hskip.stops _
  cases stack with
  | nil => exact hbottom
  | cons pending stack =>
    cases pending with
    | right | unary | cast => exact hbottom
    | group | subscript | newArray => exact afterClosing_agrees _ _ stack h
    | argument callee before =>
      unfold close Machine.close
      obtain ⟨p, r, hp, hr, hs⟩ | ⟨hp, hr⟩ := rel_cases (eat?_rel "," (by decide) h)
      · rw [hp, hr]
        exact hs.goesOn _ _
      · rw [hp, hr]
        exact afterClosing_agrees _ _ stack h

theorem descend_agrees (e : Expr) (level : Nat) (stack : List Pending) (h : Stands chars w pos s) :
    Agrees chars w (descend chars e level stack pos)
      (match stack, level with
        | .right op left :: stack, level + 1 =>
          if op.level = level then .more ⟨.climb (.binary op left e) level, stack, s⟩
          else .more ⟨.climb e level, .right op left :: stack, s⟩
        | stack, level + 1 => .more ⟨.climb e level, stack, s⟩
        | stack, 0 => Machine.close e stack s) := by
  cases level with
  | zero =>
    have hclose := close_agrees e stack h
    rcases stack with - | ⟨pending, stack⟩
    · exact hclose
    · cases pending <;> exact hclose
  | succ level =>
    rcases stack with - | ⟨pending, stack⟩
    · exact h.goesOn _ _
    · cases pending with
      | right op left =>
        simp only [descend]
        split <;> exact h.goesOn _ _
      | group | unary | cast | subscript | newArray | argument => exact h.goesOn _ _

theorem climb_agrees (e : Expr) (level : Nat) (stack : List Pending) (h : Stands chars w pos s) :
    Agrees chars w (climb chars e level stack pos) (Machine.climb e level stack s) := by
  unfold Machine.climb
  split
  · exact h.goesOn _ _
  · exact h.goesOn _ _
  · next hunary hcast =>
    rw [climb.eq_3 _ _ _ _ _ hunary hcast, goOn]
    have hword : Option.Rel (Stands chars w)
        (if level = 3 then eatWord? chars "instanceof" pos else none)
        (if level = 3 then Grammar.eatWord? "instanceof" s else none) := by
      split
      · exact eatWord?_rel _ (by decide) h
      · exact .none
    obtain ⟨p, r, hp, hr, hs⟩ | ⟨hp, hr⟩ := rel_cases hword
    · rw [hp, hr]
      obtain ⟨typeName, stop, t, hread, hread', ht⟩ | ⟨stop, f, hread, hread', hf⟩ :=
        (readTypeName_reads hs).cases
      · simp only [hread, hread']
        exact ht.goesOn _ _
      · simp only [hread, hread']
        exact .fault hf
    rw [hp, hr]
    obtain ⟨⟨op, p⟩, ⟨-, r⟩, hp, hr, rfl, hs⟩ | ⟨hp, hr⟩ := rel_cases (operator?_rel level h)
    · rw [hp, hr]
      exact hs.goesOn _ _
    · rw [hp, hr]
      exact descend_agrees e level stack h

theorem step_agrees {m : State} {n : Machine} (h : Matches chars w m n) :
    Agrees chars w (step chars m) n.step := by
  obtain ⟨mode, stack, pos⟩ := m
  obtain ⟨mode', stack', s⟩ := n
  obtain ⟨rfl, rfl, hs⟩ := h
  cases mode with
  | operand => exact operand_agrees stack hs
  | postfixed e => exact postfixed_agrees e stack hs
  | climb e level => exact climb_agrees e level stack hs

end JvmDebug.Grammar.Cursor
