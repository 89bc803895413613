import JvmDebug.Proofs.ParserSteps

/-!
The parser on a whole written expression: from the mode before an operand it comes to the mode after
it, with the stack it had and with the text behind the expression left.
-/
namespace JvmDebug.Grammar
open Text

/-! ## The first token of an expression -/

theorem typeTokens_head {typeName : String} (h : IsTypeName typeName) :
    ∃ name ts, typeTokens typeName.toList = .word name :: ts := by
  obtain ⟨first, names, count, hfirst, -, htext⟩ := h
  rw [htext, List.append_assoc, typeTokens_name hfirst
    (startsWith_qualifiers names (startsWith_dimensions count))]
  exact ⟨first, _, rfl⟩

theorem Token.ofLiteral_start (l : Literal) : (Token.ofLiteral l).isStart = true := by
  cases l with
  | boolean b => cases b <;> rfl
  | null | char | int | long | float | double | string => rfl

theorem inPlace_starts {e : Expr} (place : Nat) {tokens : List Token} (h : Starts tokens) :
    Starts (e.inPlace place tokens) := by
  unfold Expr.inPlace
  split
  · exact ⟨.mark '(', tokens ++ [.mark ')'], rfl, rfl⟩
  · exact h

theorem starts_tokens {kind : Literal → Prop} {e : Expr} (h : e.Sound kind) : Starts e.tokens := by
  induction h with
  | @literal l => exact ⟨.ofLiteral l, [], by rw [Expr.tokens], Token.ofLiteral_start l⟩
  | name | this | plainCall | unary | cast | newObject | newArray =>
    rw [Expr.tokens]
    exact ⟨_, _, rfl, rfl⟩
  | field _ _ ih | call _ _ _ ih | index _ _ ih | binary _ _ ih | instanceOf _ _ ih =>
    rw [Expr.tokens]
    simpa only [List.append_assoc] using (inPlace_starts _ ih).append _

theorem isGroup_inPlace {e : Expr} {place : Nat} {tokens ts : List Token}
    (h : isGroup (tokens ++ ts) = true) : isGroup (e.inPlace place tokens ++ ts) = true := by
  unfold Expr.inPlace
  split
  · rfl
  · exact h

theorem goesOn_index {tokens : List Token} (h : Starts tokens) :
    goesOn (.mark '[' :: tokens) = true := by
  obtain ⟨token, ts, rfl, hstart⟩ := h
  cases token with
  | mark c =>
    obtain rfl : c = '(' := by simpa [Token.isStart] using hstart
    rfl
  | word | call | literal | sign | operator => rfl

/-- An expression of an operator is no type, and of the others one that goes on is none. -/
theorem isGroup_tokens {kind : Literal → Prop} {e : Expr} (h : e.Sound kind) {ts : List Token}
    (hts : e.level < 7 ∨ goesOn ts = true) : isGroup (e.tokens ++ ts) = true := by
  induction h generalizing ts with
  | @literal l =>
    have hgo : goesOn ts = true := hts.resolve_left (Nat.lt_irrefl 7)
    rw [Expr.tokens]
    cases l with
    | boolean b => cases b <;> exact hgo
    | null => exact hgo
    | char | int | long | float | double | string => rfl
  | name | this =>
    rw [Expr.tokens]
    exact hts.resolve_left (Nat.lt_irrefl 7)
  | plainCall | unary | cast =>
    rw [Expr.tokens]
    rfl
  | field _ _ ih =>
    rw [Expr.tokens, List.append_assoc]
    exact isGroup_inPlace (ih (.inr (hts.resolve_left (Nat.lt_irrefl 7))))
  | call _ _ _ ih =>
    rw [Expr.tokens, List.append_assoc, List.append_assoc]
    exact isGroup_inPlace (ih (.inr rfl))
  | index _ hindex ih =>
    rw [Expr.tokens, List.append_assoc, List.append_assoc]
    exact isGroup_inPlace (ih (.inr (goesOn_index ((starts_tokens hindex).append _))))
  | binary _ _ ih | instanceOf _ _ ih =>
    rw [Expr.tokens, List.append_assoc]
    exact isGroup_inPlace (ih (.inr rfl))
  | newObject htype | newArray htype =>
    obtain ⟨name, rest, htokens⟩ := typeTokens_head htype
    rw [Expr.tokens, htokens]
    rfl

/-! ## Runs -/

def Reaches : Machine → Machine → Prop := Relation.ReflTransGen fun m n => m.step = .more n

theorem Reaches.head {m n k : Machine} (h : m.step = .more n) (hreach : Reaches n k) :
    Reaches m k :=
  Relation.ReflTransGen.head h hreach

theorem Reaches.run_eq {m n : Machine} (h : Reaches m n) : m.run = n.run := by
  induction h with
  | refl => rfl
  | tail _ hstep ih =>
    rw [ih, Machine.run]
    split
    · next heq => cases hstep.symm.trans heq; rfl
    · next heq => cases hstep.symm.trans heq

theorem run_finished {m : Machine} {r : Except Fault Expr} (h : m.step = .finished r) :
    m.run = r := by
  rw [Machine.run]
  split
  · next heq => cases h.symm.trans heq
  · next heq => cases h.symm.trans heq; rfl

/-- Where the parser stands behind an operand at a place of a level. -/
def ready (place : Nat) (e : Expr) : Mode := if place = 7 then .postfixed e else .climb e place

theorem ready_of_lt {place : Nat} {e : Expr} (h : place < 7) : ready place e = .climb e place :=
  if_neg (Nat.ne_of_lt h)

/-- From the mode before an operand the parser comes to the end of the tokens of one. -/
def ReadsAs (place : Nat) (e : Expr) (tokens : List Token) : Prop :=
  ∀ stack ts s, Laid (tokens ++ ts) s → Follows place ts → Machine.Admits place stack →
    ∃ r, Reaches ⟨.operand, stack, s⟩ ⟨ready place e, stack, r⟩ ∧ Laid ts r

theorem Machine.Admits.mono {p q : Nat} {stack : List Pending} (h : Admits p stack) (hpq : p ≤ q) :
    Admits q stack := by
  cases stack with
  | nil => trivial
  | cons pending stack =>
    cases pending with
    | right | unary | cast => exact Nat.le_trans h hpq
    | group | subscript | newArray | argument => trivial

theorem Machine.admits_seven (stack : List Pending) : Admits 7 stack := by
  cases stack with
  | nil => trivial
  | cons pending stack =>
    cases pending with
    | right op left =>
      have := op.level_le
      show op.level < 7
      omega
    | unary | cast => exact Nat.le_succ 6
    | group | subscript | newArray | argument => trivial

theorem ReadsAs.descend {place : Nat} {e : Expr} {tokens : List Token}
    (h : ReadsAs (place + 1) e tokens) (hplace : place < 7) : ReadsAs place e tokens := by
  intro stack ts s hs hfollows hadmits
  obtain ⟨r, hreach, hr⟩ :=
    h stack ts s hs (hfollows.mono (Nat.le_succ _)) (hadmits.mono (Nat.le_succ _))
  refine ⟨r, hreach.tail ?_, hr⟩
  rcases Nat.lt_or_eq_of_le (Nat.le_of_lt_succ hplace) with hlower | rfl
  · rw [ready_of_lt hplace, ready_of_lt (Nat.succ_lt_succ hlower)]
    exact Machine.climb_down stack hr hfollows hadmits hlower
  · exact Machine.postfixed_end stack hr hfollows

theorem ReadsAs.lower {p q : Nat} {e : Expr} {tokens : List Token} (h : ReadsAs q e tokens)
    (hpq : p ≤ q) (hq : q ≤ 7) : ReadsAs p e tokens := by
  induction q, hpq using Nat.le_induction with
  | base => exact h
  | succ q hpq ih => exact ih (h.descend hq) (Nat.le_of_succ_le hq)

theorem ReadsAs.grouped {e : Expr} {tokens : List Token} (h : ReadsAs 0 e tokens)
    (hgroup : ∀ ts, isGroup (tokens ++ ts) = true) : ReadsAs 7 e (grouped tokens) := by
  intro stack ts s hs hfollows hadmits
  rw [Grammar.grouped, List.cons_append, List.cons_append, List.append_assoc] at hs
  obtain ⟨q, hopen, hq⟩ := Machine.operand_group stack hs (hgroup _)
  obtain ⟨r, hreach, hr⟩ := h (.group :: stack) _ q hq (by simp [Follows, Token.binds]) trivial
  obtain ⟨t, hclose, ht⟩ := Machine.climb_group stack hr
  exact ⟨t, (hreach.head (m := ⟨.operand, stack, s⟩) hopen).tail hclose, ht⟩

theorem level_le (e : Expr) : e.level ≤ 7 := by
  cases e with
  | binary op => exact Nat.le_trans op.level_le (by omega)
  | literal | name | this | field | call | index | unary | cast | instanceOf | newObject | newArray =>
    simp [Expr.level]

theorem ReadsAs.inPlace {kind : Literal → Prop} {e : Expr} (hsound : e.Sound kind)
    (h : ReadsAs e.level e e.tokens) (place : Nat) (hplace : place ≤ 7) :
    ReadsAs place e (e.inPlace place e.tokens) := by
  unfold Expr.inPlace
  split
  · next hlower =>
    have hgroup : ∀ ts, isGroup (e.tokens ++ ts) = true := fun ts =>
      isGroup_tokens hsound (.inl (by omega))
    exact ((h.lower (Nat.zero_le _) (level_le e)).grouped hgroup).lower hplace (Nat.le_refl 7)
  · next hlevel => exact h.lower (Nat.not_lt.1 hlevel) (level_le e)

/-! ## Expressions -/

theorem reads_arguments {callee : Callee} {args : List Expr}
    (h : ∀ a ∈ args, ReadsAs 0 a a.tokens) (before : List Expr) {stack : List Pending}
    {ts : List Token} {s : Rest} (hne : args ≠ [])
    (hs : Laid (Expr.tokens.argumentTokens args ++ .mark ')' :: ts) s) :
    ∃ r, Reaches ⟨.operand, .argument callee before :: stack, s⟩
      ⟨.postfixed (callee.apply (before.reverse ++ args)), stack, r⟩ ∧ Laid ts r := by
  induction args generalizing before s with
  | nil => contradiction
  | cons a args ih =>
    have ha := h a List.mem_cons_self (.argument callee before :: stack)
    cases args with
    | nil =>
      obtain ⟨q, hreach, hq⟩ := ha _ s hs (by simp [Follows, Token.binds]) trivial
      obtain ⟨r, hclose, hr⟩ := Machine.climb_lastArgument stack hq
      rw [List.reverse_cons] at hclose
      exact ⟨r, hreach.tail hclose, hr⟩
    | cons b args =>
      rw [Expr.tokens.argumentTokens, List.append_assoc] at hs
      · obtain ⟨q, hreach, hq⟩ := ha _ s hs (by simp [Follows, Token.binds]) trivial
        obtain ⟨t, hcomma, ht⟩ := Machine.climb_argument stack hq
        obtain ⟨r, hrest, hr⟩ := ih (fun b hb => h b (List.mem_cons_of_mem a hb))
          (a :: before) (by simp) ht
        rw [List.reverse_cons, List.append_assoc, List.singleton_append] at hrest
        exact ⟨r, (hreach.tail hcomma).trans hrest, hr⟩
      · simp

theorem starts_arguments {kind : Literal → Prop} {args : List Expr}
    (h : ∀ a ∈ args, a.Sound kind) (hne : args ≠ []) :
    Starts (Expr.tokens.argumentTokens args) := by
  cases args with
  | nil => contradiction
  | cons a args =>
    have ha := starts_tokens (h a List.mem_cons_self)
    cases args with
    | nil => exact ha
    | cons b args =>
      rw [Expr.tokens.argumentTokens]
      · exact ha.append _
      · simp

theorem reads_opened {kind : Literal → Prop} {callee : Callee} {args : List Expr}
    (hsound : ∀ a ∈ args, a.Sound kind) (h : ∀ a ∈ args, ReadsAs a.level a a.tokens)
    {stack : List Pending} {ts : List Token} {m : Machine} {s : Rest}
    (hm : m.step = Machine.openArguments callee stack s)
    (hs : Laid (Expr.tokens.argumentTokens args ++ .mark ')' :: ts) s) :
    ∃ r, Reaches m ⟨.postfixed (callee.apply args), stack, r⟩ ∧ Laid ts r := by
  by_cases hne : args = []
  · subst hne
    obtain ⟨r, hopen, hr⟩ := Machine.openArguments_none stack hs
    exact ⟨r, .single (hm.trans hopen), hr⟩
  · obtain ⟨q, hopen, hq⟩ :=
      Machine.openArguments_some stack hs ((starts_arguments hsound hne).append _)
    obtain ⟨r, hreach, hr⟩ := reads_arguments
      (fun a ha => (h a ha).lower (Nat.zero_le _) (level_le a)) [] hne hq
    exact ⟨r, hreach.head (hm.trans hopen), hr⟩

theorem reads_literal (l : Literal) : ReadsAs 7 (.literal l) [.ofLiteral l] := by
  intro stack ts s hs hfollows hadmits
  have word {name : String} (hs : Laid (.word name :: ts) s)
      (hname : ∀ r, Machine.afterWord stack name r = .more ⟨.postfixed (.literal l), stack, r⟩) :
      ∃ r, Reaches ⟨.operand, stack, s⟩ ⟨.postfixed (.literal l), stack, r⟩ ∧ Laid ts r := by
    obtain ⟨r, hstep, hr, -⟩ := Machine.operand_word stack hs hfollows
    exact ⟨r, .single (hstep.trans (hname r)), hr⟩
  have literal (hs : Laid (.literal l :: ts) s) :
      ∃ r, Reaches ⟨.operand, stack, s⟩ ⟨.postfixed (.literal l), stack, r⟩ ∧ Laid ts r := by
    obtain ⟨r, hstep, hr⟩ := Machine.operand_literal stack hs
    exact ⟨r, .single hstep, hr⟩
  cases l with
  | null => exact word hs fun r => rfl
  | boolean b => cases b <;> exact word hs fun r => rfl
  | char | int | long | float | double | string => exact literal hs

/-- By induction on the expression: an operand is read with its own frame on the stack, or before
its operator, and the rest of the expression from there. -/
theorem reads {kind : Literal → Prop} {e : Expr} (h : e.Sound kind) :
    ReadsAs e.level e e.tokens := by
  induction h with
  | @literal l =>
    rw [Expr.tokens]
    exact reads_literal l
  | @name text hname hfree =>
    intro stack ts s hs hfollows hadmits
    rw [Expr.tokens] at hs
    obtain ⟨r, hstep, hr, hopen⟩ := Machine.operand_word stack hs hfollows
    rw [Machine.afterWord_of_free stack hfree, Machine.afterName_of_not_open stack hopen] at hstep
    exact ⟨r, .single hstep, hr⟩
  | this =>
    intro stack ts s hs hfollows hadmits
    rw [Expr.tokens] at hs
    obtain ⟨r, hstep, hr, -⟩ := Machine.operand_word stack hs hfollows
    exact ⟨r, .single hstep, hr⟩
  | @field target member htarget hname ih =>
    intro stack ts s hs hfollows hadmits
    rw [Expr.tokens, List.append_assoc] at hs
    obtain ⟨q, hreach, hq⟩ := ih.inPlace htarget 7 (Nat.le_refl 7) stack _ s hs
      (by simp [Follows, Token.binds]) (Machine.admits_seven stack)
    obtain ⟨r, hstep, hr⟩ := Machine.postfixed_field stack hq hfollows
    exact ⟨r, hreach.tail hstep, hr⟩
  | @plainCall method args hname hfree hargs ih =>
    intro stack ts s hs hfollows hadmits
    rw [Expr.tokens, List.cons_append, List.cons_append, List.append_assoc] at hs
    obtain ⟨q, hstep, hq⟩ := Machine.operand_call stack hfree hs
    exact reads_opened hargs ih (m := ⟨.operand, stack, s⟩) hstep hq
  | @call target method args htarget hname hargs ih ihargs =>
    intro stack ts s hs hfollows hadmits
    rw [Expr.tokens, List.append_assoc, List.append_assoc] at hs
    obtain ⟨q, hreach, hq⟩ := ih.inPlace htarget 7 (Nat.le_refl 7) stack _ s hs
      (by simp [Follows, Token.binds]) (Machine.admits_seven stack)
    obtain ⟨t, hstep, ht⟩ := Machine.postfixed_call stack hq
    obtain ⟨r, hrest, hr⟩ :=
      reads_opened hargs ihargs (m := ⟨.postfixed target, stack, q⟩) hstep ht
    exact ⟨r, hreach.trans hrest, hr⟩
  | @index array i harray hindex ih ihindex =>
    intro stack ts s hs hfollows hadmits
    rw [Expr.tokens, List.append_assoc, List.append_assoc] at hs
    obtain ⟨q, hreach, hq⟩ := ih.inPlace harray 7 (Nat.le_refl 7) stack _ s hs
      (by simp [Follows, Token.binds]) (Machine.admits_seven stack)
    obtain ⟨t, hopen, ht⟩ := Machine.postfixed_index stack hq
    obtain ⟨u, hrest, hu⟩ := ihindex.lower (Nat.zero_le _) (level_le i) (.subscript array :: stack)
      _ t ht (by simp [Follows, Token.binds]) trivial
    obtain ⟨r, hclose, hr⟩ := Machine.climb_subscript stack hu
    exact ⟨r, ((hreach.tail hopen).trans hrest).tail hclose, hr⟩
  | @binary op left right hleft hright ih ihright =>
    intro stack ts s hs hfollows hadmits
    have hlevel := op.level_le
    rw [Expr.tokens, List.append_assoc] at hs
    obtain ⟨q, hreach, hq⟩ := ih.inPlace hleft op.level (by omega) stack _ s hs
      (by simp [Follows, Token.binds]) hadmits
    obtain ⟨t, hop, ht⟩ := Machine.climb_operator (e := left) stack hq
      ((inPlace_starts _ (starts_tokens hright)).append ts)
    obtain ⟨r, hrest, hr⟩ := ihright.inPlace hright (op.level + 1) (by omega)
      (.right op left :: stack) ts t ht (hfollows.mono (Nat.le_succ _)) (Nat.lt_succ_self _)
    have hclose := Machine.climb_right stack left (e := right) hr hfollows
    rw [ready_of_lt (by omega)] at hreach hrest
    rw [← ready_of_lt (by omega)] at hclose
    exact ⟨r, ((hreach.tail hop).trans hrest).tail hclose, hr⟩
  | @unary op operand hoperand ih =>
    intro stack ts s hs hfollows hadmits
    rw [Expr.tokens] at hs
    obtain ⟨q, hsign, hq⟩ := Machine.operand_sign stack hs
      ((inPlace_starts 6 (starts_tokens hoperand)).append ts)
    obtain ⟨r, hreach, hr⟩ := ih.inPlace hoperand 6 (by omega) (.unary op :: stack) ts q
      hq hfollows (Nat.le_refl 6)
    exact ⟨r, (hreach.head (m := ⟨.operand, stack, s⟩) hsign).tail (Machine.climb_sign stack op operand), hr⟩
  | @cast typeName operand htype hfree hoperand ih =>
    intro stack ts s hs hfollows hadmits
    rw [Expr.tokens, List.append_assoc] at hs
    obtain ⟨q, hcast, hq⟩ := Machine.operand_cast stack htype hfree hs
    obtain ⟨r, hreach, hr⟩ := ih.inPlace hoperand 6 (by omega) (.cast typeName :: stack)
      ts q hq hfollows (Nat.le_refl 6)
    exact ⟨r, (hreach.head (m := ⟨.operand, stack, s⟩) hcast).tail (Machine.climb_cast stack typeName operand), hr⟩
  | @instanceOf operand typeName hoperand htype ih =>
    intro stack ts s hs hfollows hadmits
    rw [Expr.tokens, List.append_assoc] at hs
    obtain ⟨q, hreach, hq⟩ := ih.inPlace hoperand 3 (by omega) stack _ s hs
      (by simp [Follows, Token.binds]) hadmits
    obtain ⟨r, hstep, hr⟩ := Machine.climb_instanceOf stack htype hq hfollows
    exact ⟨r, hreach.tail hstep, hr⟩
  | @newObject typeName args htype hargs ih =>
    intro stack ts s hs hfollows hadmits
    rw [Expr.tokens, List.append_assoc, List.append_assoc] at hs
    obtain ⟨q, hstep, hq⟩ := Machine.operand_newObject stack htype hs
    exact reads_opened hargs ih (m := ⟨.operand, stack, s⟩) hstep hq
  | @newArray elementType size htype hsize ih =>
    intro stack ts s hs hfollows hadmits
    rw [Expr.tokens, List.append_assoc, List.append_assoc] at hs
    obtain ⟨q, hopen, hq⟩ :=
      Machine.operand_newArray stack htype ((starts_tokens hsize).append _) hs
    obtain ⟨t, hreach, ht⟩ := ih.lower (Nat.zero_le _) (level_le size) (.newArray elementType :: stack)
      _ q hq (by simp [Follows, Token.binds]) trivial
    obtain ⟨r, hclose, hr⟩ := Machine.climb_newArray stack ht
    exact ⟨r, (hreach.head (m := ⟨.operand, stack, s⟩) hopen).tail hclose, hr⟩

theorem parse_of_written {kind : Literal → Prop} {e : Expr} {text : String} (h : e.Sound kind)
    (htext : e.Written text) : parse text = .ok e := by
  have hs : Laid (e.tokens ++ []) text.toList := by rwa [List.append_nil]
  obtain ⟨r, hreach, hr⟩ := (reads h).lower (Nat.zero_le _) (level_le e) [] [] text.toList hs
    (by simp [Follows]) trivial
  have hrun : (start text.toList).run = .ok e := by
    rw [start, hreach.run_eq]
    exact run_finished (Machine.climb_finish hr)
  rw [parse, hrun]
  rfl

end JvmDebug.Grammar
