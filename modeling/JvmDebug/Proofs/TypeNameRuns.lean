import JvmDebug.Proofs.ParserImage

/-!
Texts of a type name, and what the parser makes of one that stands where an operand begins: fields
of fields, where it would be the type of a cast between parentheses.
-/
namespace JvmDebug.Grammar
open Text

/-! ## Texts of a type name -/

theorem laid_name {s r : Rest} {name : String} (h : readName s = .ok (name, r)) {tokens : List Token}
    (hr : Laid tokens r) : Laid (.word name :: tokens) s := by
  have hname := readName_isName h
  unfold readName at h
  split at h
  · next c q hs =>
    split at h
    · cases h
      have htext : s = s.takeWhile isBlank ++ (c :: q.takeWhile isNamePart) ++
          q.dropWhile isNamePart := by
        rw [List.append_assoc, List.cons_append, List.takeWhile_append_dropWhile, ← hs, skipBlanks,
          List.takeWhile_append_dropWhile]
      have hapart : startsWith isNamePart (q.dropWhile isNamePart) = false := by
        cases hrest : q.dropWhile isNamePart with
        | nil => rfl
        | cons d t =>
          have := List.head?_dropWhile_not isNamePart q
          simpa [hrest, startsWith] using this
      have hspelled := Token.Spelled.word hname
      rw [String.toList_ofList] at hspelled
      rw [htext]
      exact .cons (fun _ hc => List.mem_takeWhile_imp hc) hspelled (fun _ => hapart) hr
    · cases h
  · cases h

theorem laid_mark {m : Char} (hm : m ∈ marks) {s r : Rest} (hs : skipBlanks s = m :: r)
    {tokens : List Token} (hr : Laid tokens r) : Laid (.mark m :: tokens) s := by
  have htext : s = s.takeWhile isBlank ++ [m] ++ r := by
    rw [List.append_assoc, List.singleton_append, ← hs, skipBlanks, List.takeWhile_append_dropWhile]
  rw [htext]
  exact .cons (fun _ hc => List.mem_takeWhile_imp hc) (.mark hm) (fun h => nomatch h) hr

theorem laid_qualifiers (s : Rest) :
    ∃ names, (∀ name ∈ names, IsName name) ∧ (readQualifiers s).1 = qualifiers names ∧
      ∀ tokens, Laid tokens (readQualifiers s).2 → Laid (qualifierTokens names ++ tokens) s := by
  fun_induction readQualifiers s with
  | case1 s r hs c t hr hc found rest heq ih =>
    obtain ⟨names, hnames, htext, hlaid⟩ := ih
    rw [heq] at htext hlaid
    refine ⟨String.ofList (c :: t.takeWhile isNamePart) :: names,
      List.forall_mem_cons.2 ⟨isName_takeWhile t hc, hnames⟩, by simp [qualifiers, show found = _ from htext],
      fun tokens htokens => laid_mark (by decide) hs ?_⟩
    refine laid_name (r := t.dropWhile isNamePart) ?_ (hlaid tokens htokens)
    simp [readName, hr, hc]
  | case2 | case3 | case4 => exact ⟨[], by simp, rfl, fun _ h => h⟩

theorem laid_dimensions (s : Rest) :
    ∃ count, (readDimensions s).1 = dimensions count ∧
      ∀ tokens, Laid tokens (readDimensions s).2 → Laid (dimensionTokens count ++ tokens) s := by
  fun_induction readDimensions s with
  | case1 s r hs t hr pairs rest heq ih =>
    obtain ⟨count, htext, hlaid⟩ := ih
    rw [heq] at htext hlaid
    exact ⟨count + 1, congrArg ('[' :: ']' :: ·) htext,
      fun tokens htokens => laid_mark (by decide) hs (laid_mark (by decide) hr (hlaid tokens htokens))⟩
  | case2 | case3 => exact ⟨0, rfl, fun _ h => h⟩

theorem laid_typeName {s r : Rest} {typeName : String} (h : readTypeName s = .ok (typeName, r))
    {tokens : List Token} (hr : Laid tokens r) : Laid (typeTokens typeName.toList ++ tokens) s := by
  unfold readTypeName at h
  split at h
  · cases h
  · next first q hfirst =>
    cases h
    obtain ⟨names, hnames, hqualifiers, hlaid⟩ := laid_qualifiers q
    obtain ⟨count, hcount, hlaid'⟩ := laid_dimensions (readQualifiers q).2
    rw [String.toList_ofList, hqualifiers, hcount, List.append_assoc,
      typeTokens_name (readName_isName hfirst) (startsWith_qualifiers _ (startsWith_dimensions _)),
      typeTokens_qualifiers hnames, List.cons_append, List.append_assoc]
    exact laid_name hfirst (hlaid _ (hlaid' _ hr))

/-- The text is the type name, with blanks around its names, dots and brackets as one likes. -/
def WritesType (typeName source : String) : Prop :=
  IsTypeName typeName ∧ Laid (typeTokens typeName.toList) source.toList

theorem writesType_iff {typeName source : String} :
    WritesType typeName source ↔
      ∃ r, readTypeName source.toList = .ok (typeName, r) ∧ skipBlanks r = [] := by
  constructor
  · rintro ⟨htype, hlaid⟩
    obtain ⟨r, hread, hr⟩ := readTypeName_laid htype ((List.append_nil (typeTokens _)).symm ▸ hlaid)
      fun s hs => by simp [EndsType, lead?, Laid.ended hs]
    exact ⟨r, hread, hr.ended⟩
  · rintro ⟨r, hread, hr⟩
    refine ⟨readTypeName_isTypeName hread, ?_⟩
    rw [← List.append_nil (typeTokens _)]
    exact laid_typeName hread (.nil (List.dropWhile_eq_nil_iff.1 hr))

/-! ## A type name where an operand begins -/

namespace Machine

variable {stack : List Pending}

theorem climb_of_takesAll (e : Expr) (level : Nat) (h : TakesAll stack) (s : Rest) :
    climb e level stack s =
      match if level = 3 then eatWord? "instanceof" s else none with
      | some r =>
        match readTypeName r with
        | .ok (typeName, r) => .more ⟨.climb (.instanceOf e typeName) level, stack, r⟩
        | .error f => .finished (.error f)
      | none =>
        match operator? level s with
        | some (op, r) => .more ⟨.operand, .right op e :: stack, r⟩
        | none =>
          match level with
          | level + 1 => .more ⟨.climb e level, stack, s⟩
          | 0 => close e stack s := by
  cases stack with
  | nil => cases level <;> rfl
  | cons pending below =>
    cases pending with
    | right | unary | cast => exact h.elim
    | group | subscript | newArray | argument => cases level <;> rfl

/-- Nothing stands here that an operand could go on with. -/
def Stops (s : Rest) : Prop := ∀ c ∈ lead? s, c = ')'

theorem Stops.lead {s : Rest} (h : Stops s) {c : Char} (hc : c ≠ ')') : c ∉ lead? s :=
  fun hlead => hc (h c hlead)

theorem Stops.operator?_eq_none {s : Rest} (h : Stops s) (level : Nat) :
    operator? level s = none := by
  refine Machine.operator?_eq_none fun op _ c hc hlead => ?_
  obtain ⟨d, r, hsymbol, hmark, -⟩ := symbol_lead op
  obtain rfl : d = c := by simpa [hsymbol] using hc
  exact hmark (h d hlead ▸ by decide)

theorem Stops.reaches {s : Rest} (h : Stops s) (hall : TakesAll stack) (e : Expr) (level : Nat) :
    Reaches ⟨.climb e level, stack, s⟩ ⟨.climb e 0, stack, s⟩ := by
  induction level with
  | zero => exact .refl
  | succ level ih =>
    refine ih.head ?_
    have hword : eatWord? "instanceof" s = none := eatWord?_eq_none (h.lead (by decide))
    simp [step, climb_of_takesAll e _ hall, hword, h.operator?_eq_none]

theorem Stops.step_eq {s : Rest} (h : Stops s) (hall : TakesAll stack) (e : Expr) :
    step ⟨.climb e 0, stack, s⟩ = close e stack s := by
  simp [step, climb_of_takesAll e _ hall, h.operator?_eq_none]

/-- The parser takes the names behind a dot for fields, down to where the type name has no more. -/
theorem reaches_qualifiers (stack : List Pending) (e : Expr) {s : Rest} (hopen : '(' ∉ lead? (readQualifiers s).2) :
    ∃ e', Reaches ⟨.postfixed e, stack, s⟩ ⟨.postfixed e', stack, (readQualifiers s).2⟩ := by
  fun_induction readQualifiers s generalizing e with
  | case1 s r hs c t hr hc found rest heq ih =>
    rw [heq] at ih
    have hdot : eat? "." s = some r := eat?_eq_some hs
    have hname : readName r = .ok (String.ofList (c :: t.takeWhile isNamePart),
        t.dropWhile isNamePart) := by simp [readName, hr, hc]
    have hnot : startsWith (· == '(') (t.dropWhile isNamePart) = false := by
      cases hrest : t.dropWhile isNamePart with
      | nil => rfl
      | cons d q =>
        refine Bool.eq_false_iff.2 fun hd => ?_
        obtain rfl : d = '(' := by simpa [startsWith] using hd
        rw [hrest, readQualifiers_of_lead (by simp [lead?_open])] at heq
        cases heq
        exact hopen (lead?_open q)
    obtain ⟨e', hreach⟩ := ih (.field e (String.ofList (c :: t.takeWhile isNamePart))) hopen
    refine ⟨e', hreach.head ?_⟩
    simp only [step, postfixed, hdot, hname]
    exact afterName_of_not_open stack hnot
  | case2 | case3 | case4 => exact ⟨e, .refl⟩

/-- The parser asks for an operand between the brackets of a type name; behind a type name without
brackets the operand is complete. -/
theorem reaches_dimensions (stack : List Pending) (e : Expr) {s : Rest} (hdot : '.' ∉ lead? s)
    (hstops : Stops (readDimensions s).2) :
    (∃ f, (⟨.postfixed e, stack, s⟩ : Machine).run = .error f) ∨
      (readDimensions s).2 = s ∧ Reaches ⟨.postfixed e, stack, s⟩ ⟨.climb e 6, stack, s⟩ := by
  have hnone : eat? "." s = none := eat?_eq_none (c := '.') rfl hdot
  by_cases hbrackets : ∃ r t, skipBlanks s = '[' :: r ∧ skipBlanks r = ']' :: t
  · obtain ⟨r, t, hs, hr⟩ := hbrackets
    have hopen : eat? "[" s = some r := eat?_eq_some hs
    have hindex : step ⟨.postfixed e, stack, s⟩ = .more ⟨.operand, .subscript e :: stack, r⟩ := by
      simp only [step, postfixed, hnone, hopen]
    have hoperand : operand (.subscript e :: stack) r =
        .finished (fail (.expectedExpression (some ']')) (']' :: t)) :=
      operand_primary _ hr (by decide)
    exact .inl ⟨_, (Reaches.head hindex .refl).run_eq.trans (run_finished hoperand)⟩
  · have hread : readDimensions s = ([], s) := readDimensions_of_ends fun r hs hlead => by
      obtain ⟨t, hr⟩ := List.head?_eq_some_iff.1 hlead
      exact hbrackets ⟨r, t, hs, hr⟩
    rw [hread] at hstops ⊢
    have hopen : eat? "[" s = none := eat?_eq_none (c := '[') rfl (hstops.lead (by decide))
    exact .inr ⟨rfl, .single (by simp only [step, postfixed, hnone, hopen])⟩

theorem lead_of_dimensions {s : Rest} (h : Stops (readDimensions s).2) {c : Char}
    (hc : c ∈ lead? s) : c = '[' ∨ c = ')' := by
  by_cases hopen : c = '['
  · exact .inl hopen
  · have hread : readDimensions s = ([], s) := readDimensions_of_ends fun r hs => by
      simp [lead?, hs, Ne.symm hopen] at hc
    rw [hread] at h
    exact .inr (h c hc)

theorem lead_of_qualifiers {s : Rest} (h : Stops (readDimensions (readQualifiers s).2).2) {c : Char}
    (hc : c ∈ lead? s) : c = '.' ∨ c = '[' ∨ c = ')' := by
  by_cases hdot : c = '.'
  · exact .inl hdot
  · have hread : readQualifiers s = ([], s) := readQualifiers_of_lead fun hlead =>
      hdot (Option.mem_unique hc hlead)
    rw [hread] at h
    exact .inr (lead_of_dimensions h hc)

/-- A type name with nothing behind it, where an operand begins: it is an operand by itself or is
none at all. -/
theorem reaches_typeName (stack : List Pending) {s q : Rest} {typeName : String} (hread : readTypeName s = .ok (typeName, q))
    (hstops : Stops q) :
    (∃ f, (⟨.operand, stack, s⟩ : Machine).run = .error f) ∨
      ∃ e, Reaches ⟨.operand, stack, s⟩ ⟨.climb e 6, stack, q⟩ := by
  unfold readTypeName at hread
  split at hread
  · cases hread
  · next first r hfirst =>
    cases hread
    have hlead {c : Char} (hc : c ∈ lead? (readQualifiers r).2) : c ≠ '.' ∧ c ≠ '(' := by
      rcases lead_of_dimensions hstops hc with rfl | rfl <;> decide
    have goesOn (e : Expr) (hstep : operand stack s = .more ⟨.postfixed e, stack, r⟩) :
        (∃ f, (⟨.operand, stack, s⟩ : Machine).run = .error f) ∨
          ∃ e, Reaches ⟨.operand, stack, s⟩
            ⟨.climb e 6, stack, (readDimensions (readQualifiers r).2).2⟩ := by
      have hhead : Reaches ⟨.operand, stack, s⟩ ⟨.postfixed e, stack, r⟩ := .single hstep
      obtain ⟨e', hfields⟩ := reaches_qualifiers stack e fun hc => (hlead hc).2 rfl
      rcases reaches_dimensions stack e' (fun hc => (hlead hc).1 rfl) hstops with
        ⟨f, hf⟩ | ⟨hrest, hlast⟩
      · exact .inl ⟨f, (Reaches.run_eq (hhead.trans hfields)).trans hf⟩
      · exact .inr ⟨e', hrest.symm ▸ (hhead.trans hfields).trans hlast⟩
    have hnext {c : Char} (hc : c ∈ lead? r) : isNameStart c = false ∧ c ≠ '(' := by
      rcases lead_of_qualifiers hstops hc with rfl | rfl | rfl <;> decide
    have hword : operand stack s = afterWord stack first r := by
      unfold readName at hfirst
      split at hfirst
      · next c t hs =>
        split at hfirst
        · next hc =>
          cases hfirst
          have hother : c ∉ ['!', '-', '+', '('] := by
            intro hmem
            simp [isNameStart_of_all hmem (by decide)] at hc
          rw [operand_primary stack hs hother, primary_word stack hc]
        · cases hfirst
      · cases hfirst
    unfold afterWord at hword
    split at hword
    · exact goesOn _ hword
    · exact goesOn _ hword
    · exact goesOn _ hword
    · exact goesOn _ hword
    · obtain ⟨f, hf⟩ := readName_eq_error fun c hc => (hnext hc).1
      have hnew : afterNew stack r = .finished (.error f) := by simp [afterNew, readTypeName, hf]
      exact .inl ⟨f, run_finished (hword.trans hnew)⟩
    · refine goesOn _ (hword.trans (afterName_of_not_open stack ?_))
      cases r with
      | nil => rfl
      | cons d t =>
        refine Bool.eq_false_iff.2 fun hd => ?_
        obtain rfl : d = '(' := by simpa [startsWith] using hd
        exact (hnext (lead?_open t)).2 rfl

/-- Alone in a text, a closing parenthesis behind a type name belongs to nothing. -/
theorem run_typeName_closed {s q r : Rest} {typeName : String}
    (hread : readTypeName s = .ok (typeName, q)) (hq : skipBlanks q = ')' :: r) :
    ∃ f, (start s).run = .error f := by
  have hstops : Stops q := by simp [Stops, lead?, hq]
  have hall : TakesAll [] := trivial
  rcases reaches_typeName [] hread hstops with hf | ⟨e, hreach⟩
  · exact hf
  · have hbottom := hreach.trans (hstops.reaches hall e 6)
    have hlast : step ⟨.climb e 0, [], q⟩ = .finished (fail (.unexpectedChar ')') (')' :: r)) := by
      simp [hstops.step_eq hall, close, hq]
    exact ⟨_, (Reaches.run_eq hbottom).trans (run_finished hlast)⟩

/-- Without its closing parenthesis a type name in a group is no expression. -/
theorem run_typeName_open (stack : List Pending) {s q : Rest} {typeName : String}
    (hread : readTypeName s = .ok (typeName, q)) (hq : skipBlanks q = []) :
    ∃ f, (⟨.operand, .group :: stack, s⟩ : Machine).run = .error f := by
  have hstops : Stops q := by simp [Stops, lead?, hq]
  have hall : TakesAll (.group :: stack) := trivial
  rcases reaches_typeName (.group :: stack) hread hstops with hf | ⟨e, hreach⟩
  · exact hf
  · have hbottom := hreach.trans (hstops.reaches hall e 6)
    have hlast : step ⟨.climb e 0, .group :: stack, q⟩ =
        .finished (fail (.expected ')' none) []) := by
      simp [hstops.step_eq hall, close, expect, hq, fail]
    exact ⟨_, (Reaches.run_eq hbottom).trans (run_finished hlast)⟩

theorem run_operand_blank (stack : List Pending) {s : Rest} (hs : skipBlanks s = []) :
    (⟨.operand, stack, s⟩ : Machine).run = fail (.expectedExpression none) [] := by
  refine run_finished ?_
  have hlead : lead? s = none := by simp [lead?, hs]
  rw [step, operand_of_lead stack (by simp [hlead]), castPrefix?_of_lead (by simp [hlead]), hs]
  rfl

end Machine

end JvmDebug.Grammar
