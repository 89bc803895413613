import JvmDebug.Proofs.TokenReaders
import JvmDebug.Grammar.Parse
import Mathlib.Logic.Relation

/-!
What the parser does with a text of tokens, step by step.
-/
namespace JvmDebug.Grammar
open Text

/-! ## What begins an operand and what follows it -/

def Token.isStart : Token → Bool
  | .word _ | .call _ | .literal _ | .sign _ => true
  | .mark c => c == '('
  | .operator _ => false

/-- How tightly a token binds the operand before it. What cannot follow an operand has the level 8. -/
def Token.binds : Token → Nat
  | .operator op => op.level
  | .word text => if text = "instanceof" then 3 else 8
  | .mark c => if c = '.' ∨ c = '[' then 7 else if c = '(' then 8 else 0
  | .call _ | .literal _ | .sign _ => 8

def Starts (tokens : List Token) : Prop := ∃ token ts, tokens = token :: ts ∧ token.isStart = true

def Follows (level : Nat) (tokens : List Token) : Prop :=
  ∀ token ∈ tokens.head?, token.binds ≤ level

theorem Follows.mono {p q : Nat} {tokens : List Token} (h : Follows p tokens) (hpq : p ≤ q) :
    Follows q tokens := fun token htoken => (h token htoken).trans hpq

theorem follows_cons {p : Nat} {token : Token} {tokens : List Token} :
    Follows p (token :: tokens) ↔ token.binds ≤ p := by
  simp [Follows]

theorem Starts.append {tokens : List Token} (h : Starts tokens) (ts : List Token) :
    Starts (tokens ++ ts) := by
  obtain ⟨token, rest, rfl, hstart⟩ := h
  exact ⟨token, rest ++ ts, rfl, hstart⟩

theorem Starts.lead {tokens : List Token} {s : Rest} (h : Starts tokens) (hs : Laid tokens s)
    {c : Char} (hc : c ∈ lead? s) : c ∉ ['=', '+', ')', ']', '.'] := by
  obtain ⟨token, ts, rfl, hstart⟩ := h
  obtain ⟨d, r, hskip, hd⟩ := hs.lead
  obtain rfl : d = c := by simpa [lead?, hskip] using hc
  have hname (h : isNameStart d = true) : d ∉ ['=', '+', ')', ']', '.'] := by
    intro hmem
    simp [isNameStart_of_all hmem (by decide)] at h
  cases token with
  | word | call => exact hname hd
  | literal l =>
    cases l with
    | null | boolean | float | double => exact hd.elim
    | int | long | char | string => cases hd; decide
  | sign op => cases hd; cases op <;> decide
  | mark m =>
    obtain ⟨rfl, -⟩ := hd
    obtain rfl : d = '(' := by simpa [Token.isStart] using hstart
    decide
  | operator => cases hstart

theorem Follows.lead {p : Nat} {tokens : List Token} {s : Rest} (h : Follows p tokens)
    (hs : Laid tokens s) {c : Char} (hc : c ∈ marks) (hp : p < (Token.mark c).binds) :
    c ∉ lead? s := by
  intro hlead
  obtain ⟨r, ts, rfl, -⟩ := hs.lead?_mark hc hlead
  have := follows_cons.1 h
  omega

theorem Follows.not_open {tokens : List Token} {s : Rest} (h : Follows 7 tokens)
    (hs : Laid tokens s) : startsWith (· == '(') s = false := by
  cases s with
  | nil => rfl
  | cons c r =>
    refine Bool.eq_false_iff.2 fun hopen => ?_
    obtain rfl : c = '(' := by simpa [startsWith] using hopen
    exact h.lead hs (by decide) (by decide) (lead?_open r)

theorem symbol_lead_ne (o op : BinaryOp) (h : o.level < op.level) :
    o.symbol.toList.head? ≠ op.symbol.toList.head? := by
  revert h
  cases o <;> cases op <;> decide

theorem Follows.operator?_eq_none {p level : Nat} {tokens : List Token} {s : Rest}
    (h : Follows p tokens) (hs : Laid tokens s) (hp : p < level) :
    Machine.operator? level s = none := by
  refine Machine.operator?_eq_none fun op hop c hc hlead => ?_
  obtain ⟨d, q, hsymbol, hmark, hname⟩ := symbol_lead op
  obtain rfl : d = c := by simpa [hsymbol] using hc
  have hlevel := op.level_le
  cases tokens with
  | nil => simp [lead?, hs.ended] at hlead
  | cons token tokens =>
    obtain ⟨e, r, hskip, he⟩ := hs.lead
    obtain rfl : e = d := by simpa [lead?, hskip] using hlead
    have hbinds := follows_cons.1 h
    cases token with
    | word => simp [Token.Begins, hname] at he
    | call | literal | sign => simp only [Token.binds] at hbinds; omega
    | operator o =>
      refine symbol_lead_ne o op ?_ (he.trans hc.symm)
      simp only [Token.binds] at hbinds
      omega
    | mark m => exact hmark (he.1 ▸ he.2)

theorem eatWord?_eq_none {s : Rest} (h : 'i' ∉ lead? s) : eatWord? "instanceof" s = none := by
  have hread : eat? "instanceof" s = none := eat?_eq_none rfl h
  simp [eatWord?, hread]

theorem Laid.lead?_word {tokens : List Token} {s : Rest} (h : Laid tokens s) {c : Char}
    (hc : c ∈ lead? s) (hname : isNameStart c = true) :
    (∃ name ts, tokens = .word name :: ts) ∨ ∃ name ts, tokens = .call name :: ts := by
  cases tokens with
  | nil => simp [lead?, h.ended] at hc
  | cons token tokens =>
    obtain ⟨d, r, hskip, hd⟩ := h.lead
    obtain rfl : d = c := by simpa [lead?, hskip] using hc
    rcases hd.isNameStart hname with ⟨name, rfl⟩ | ⟨name, rfl⟩
    · exact .inl ⟨name, tokens, rfl⟩
    · exact .inr ⟨name, tokens, rfl⟩

theorem Follows.eatWord?_eq_none {p : Nat} {tokens : List Token} {s : Rest}
    (h : Follows p tokens) (hs : Laid tokens s) (hp : p < 3) :
    eatWord? "instanceof" s = none := by
  refine Grammar.eatWord?_eq_none fun hlead => ?_
  rcases hs.lead?_word hlead (by decide) with ⟨name, ts, rfl⟩ | ⟨name, ts, rfl⟩
  · have := follows_cons.1 h
    simp only [Token.binds] at this
    split at this <;> omega
  · have := follows_cons.1 h
    simp only [Token.binds] at this
    omega

theorem Follows.instanceof?_eq_none {level : Nat} {tokens : List Token} {s : Rest}
    (h : Follows level tokens) (hs : Laid tokens s) :
    (if level = 2 then eatWord? "instanceof" s else none) = none := by
  split
  · exact h.eatWord?_eq_none hs (by omega)
  · rfl

theorem takeWhile_digits {tokens : List Token} {s : Rest} (h : Starts tokens) (hs : Laid tokens s) :
    ((skipBlanks s).takeWhile Char.isDigit).length ≤ 1 := by
  obtain ⟨token, ts, rfl, hstart⟩ := h
  obtain ⟨text, rest, hskip, htext, -⟩ := hs.next
  have hnone {c : Char} {r : List Char} (hc : c.isDigit = false) (htext : text = c :: r) :
      ((skipBlanks s).takeWhile Char.isDigit).length ≤ 1 := by
    rw [hskip, htext, List.cons_append, List.takeWhile_cons_of_neg (by simp [hc])]
    exact Nat.zero_le 1
  have hx : Char.isDigit 'x' = false := by decide
  cases htext with
  | word hname =>
    obtain ⟨c, r, htext, hc, -⟩ := hname
    exact hnone (isDigit_of_isNameStart hc) htext
  | call hname =>
    obtain ⟨c, r, htext, hc, -⟩ := hname
    exact hnone (isDigit_of_isNameStart hc) (by rw [htext, List.cons_append])
  | int | long => simp [hskip, hx]
  | char | string => exact hnone (by decide) rfl
  | @sign op => exact hnone (by cases op <;> decide) rfl
  | @mark c hc =>
    obtain rfl : c = '(' := by simpa [Token.isStart] using hstart
    exact hnone (by decide) rfl
  | operator => cases hstart

theorem readLeast?_eq_none {tokens : List Token} {s : Rest} (h : Starts tokens)
    (hs : Laid tokens s) : readLeast? s = none := by
  have hdigits := takeWhile_digits h hs
  have hlong : (skipBlanks s).takeWhile Char.isDigit ≠ "9223372036854775808".toList := by
    intro heq
    have hlength : "9223372036854775808".toList.length = 19 := by decide
    rw [heq, hlength] at hdigits
    omega
  have hint : (skipBlanks s).takeWhile Char.isDigit ≠ "2147483648".toList := by
    intro heq
    have hlength : "2147483648".toList.length = 10 := by decide
    rw [heq, hlength] at hdigits
    omega
  simp only [readLeast?, if_neg hlong, if_neg hint, ite_self, Option.filter_none]

/-! ## Steps before an operand -/

namespace Machine

variable {tokens : List Token} {s : Rest} (stack : List Pending)

/-- A minus sign belongs to the number behind it only if both make up a least value. -/
theorem operand_minus {r : Rest} (hskip : skipBlanks s = '-' :: r) :
    operand stack s = match readLeast? r with
      | some (l, r) => .more ⟨.climb (.literal l) 6, stack, r⟩
      | none => .more ⟨.operand, .unary .neg :: stack, r⟩ := by
  have hnot : eatOperator? "!" s = none :=
    eatOperator?_eq_none (c := '!') rfl (by simp [lead?, hskip])
  have hread : eat? "-" s = some r := eat?_eq_some hskip
  cases hleast : readLeast? r <;> simp only [operand, hnot, hread, hleast]

theorem operand_sign {op : UnaryOp} (h : Laid (.sign op :: tokens) s) (hstart : Starts tokens) :
    ∃ r, operand stack s = .more ⟨.operand, .unary op :: stack, r⟩ ∧ Laid tokens r := by
  obtain ⟨text, r, hskip, htext, hr, -⟩ := h.next
  cases htext
  refine ⟨r, ?_, hr⟩
  cases op with
  | not =>
    have hread : eatOperator? "!" s = some r := by
      refine eatOperator?_eq_some hskip ?_
      cases r with
      | nil => rfl
      | cons c q =>
        refine Bool.eq_false_iff.2 fun hc => ?_
        obtain rfl : c = '=' := by simpa [startsWith] using hc
        exact hstart.lead hr (c := '=') rfl (by decide)
    simp only [operand, hread]
  | neg =>
    have hminus : skipBlanks s = '-' :: r := hskip
    rw [operand_minus stack hminus, readLeast?_eq_none hstart hr]

theorem operand_of_lead (h : ∀ c ∈ lead? s, c ∉ ['!', '-', '+']) :
    operand stack s = match castPrefix? s with
      | some (typeName, r) => .more ⟨.operand, .cast typeName :: stack, r⟩
      | none => primary stack (skipBlanks s) := by
  have hnone (token : String) {c : Char} {r : List Char} (htoken : token.toList = c :: r)
      (hc : c ∈ ['!', '-', '+']) : eat? token s = none ∧ eatOperator? token s = none :=
    ⟨eat?_eq_none htoken fun hlead => h c hlead hc,
      eatOperator?_eq_none htoken fun hlead => h c hlead hc⟩
  cases hcast : castPrefix? s <;>
    simp only [operand, (hnone "!" rfl (by decide)).2, (hnone "-" rfl (by decide)).1,
      (hnone "+" rfl (by decide)).1, hcast]

theorem operand_cast {typeName : String} (htype : IsTypeName typeName) (hfree : typeName ∉ reserved)
    (h : Laid (grouped (typeTokens typeName.toList) ++ tokens) s) :
    ∃ r, operand stack s = .more ⟨.operand, .cast typeName :: stack, r⟩ ∧ Laid tokens r := by
  obtain ⟨r, hcast, hr⟩ := castPrefix?_cast htype hfree h
  obtain ⟨q, hskip, -⟩ := Laid.mark h
  refine ⟨r, ?_, hr⟩
  rw [operand_of_lead stack (by simp [lead?, hskip]), hcast]

theorem operand_group (h : Laid (.mark '(' :: tokens) s) (hgroup : isGroup tokens = true) :
    ∃ r, operand stack s = .more ⟨.operand, .group :: stack, r⟩ ∧ Laid tokens r := by
  obtain ⟨r, hskip, hr⟩ := h.mark
  refine ⟨r, ?_, hr⟩
  rw [operand_of_lead stack (by simp [lead?, hskip]), castPrefix?_group h hgroup, hskip]
  rfl

/-- What is neither a sign nor an opening parenthesis is a primary expression. -/
theorem operand_primary {c : Char} {r : List Char} (hskip : skipBlanks s = c :: r)
    (hc : c ∉ ['!', '-', '+', '(']) : operand stack s = primary stack (c :: r) := by
  simp only [List.mem_cons, List.not_mem_nil, or_false, not_or] at hc
  rw [operand_of_lead stack (by simp [lead?, hskip, hc]), castPrefix?_of_lead, hskip]
  simp [lead?, hskip, hc]

theorem primary_digit {c : Char} (hc : c.isDigit = true) (r : Rest) :
    primary stack (c :: r) = afterLiteral stack (readNumber (c :: r)) := by
  have hnot {d : Char} (hd : d.isDigit = false) : c ≠ d := by
    rintro rfl
    simp [hd] at hc
  rw [primary.eq_5 _ _ _ (hnot (by decide)) (hnot (by decide)) (hnot (by decide)),
    if_pos (by simp [hc])]

theorem operand_digit {c : Char} {r : Rest} (hskip : skipBlanks s = c :: r)
    (hc : c.isDigit = true) : operand stack s = afterLiteral stack (readNumber (c :: r)) := by
  have hother : c ∉ ['!', '-', '+', '('] := by
    intro hmem
    simp only [List.mem_cons, List.not_mem_nil, or_false] at hmem
    rcases hmem with rfl | rfl | rfl | rfl <;> exact absurd hc (by decide)
  rw [operand_primary stack hskip hother, primary_digit stack hc]

theorem primary_literal {l : Literal} {text rest : List Char}
    (htext : (Token.literal l).Spelled text)
    (hapart : (Token.literal l).isWordOrNumber = true → startsWith isNamePart rest = false) :
    primary stack (text ++ rest) = .more ⟨.postfixed (.literal l), stack, rest⟩ := by
  cases htext with
  | @int n digits hhex =>
    have hsmall : n.toUInt32.toNat < 2 ^ IntegerKind.int.bits := n.toUInt32.toNat_lt
    have hread := readNumber_hex (.inl rfl) hhex .int (hapart rfl)
    rw [if_neg (Nat.not_le.2 hsmall), IntegerKind.literal, Int32.ofNat_bits] at hread
    rw [List.cons_append, List.cons_append, primary_digit stack (by decide)]
    exact congrArg (afterLiteral stack) hread
  | @long n digits hhex =>
    have hsmall : n.toUInt64.toNat < 2 ^ IntegerKind.long.bits := n.toUInt64.toNat_lt
    have hread := readNumber_hex (.inl rfl) hhex .upper (hapart rfl)
    rw [if_neg (Nat.not_le.2 hsmall), IntegerKind.literal, Int64.ofNat_bits] at hread
    rw [List.append_assoc, List.cons_append, List.cons_append, primary_digit stack (by decide)]
    exact congrArg (afterLiteral stack) hread
  | @char unit c s hunit hc =>
    have hsmall : c.toNat < 0x10000 := hunit ▸ unit.toNat_lt
    rw [List.append_assoc, List.singleton_append, List.cons_append, primary,
      readCharBody_escapes hc hsmall, hunit]
    simp [Except.map, afterLiteral]
  | string hbody =>
    rw [List.append_assoc, List.singleton_append, List.cons_append, primary,
      readStringBody_escapes hbody]
    simp [Except.map, afterLiteral]

theorem operand_literal {l : Literal} (h : Laid (.literal l :: tokens) s) :
    ∃ r, operand stack s = .more ⟨.postfixed (.literal l), stack, r⟩ ∧ Laid tokens r := by
  obtain ⟨text, r, hskip, htext, hr, hapart⟩ := h.next
  obtain ⟨c, q, hlead, hc⟩ := htext.begins
  have hother : c ∉ ['!', '-', '+', '('] := by
    cases l with
    | null | boolean | float | double => exact hc.elim
    | int | long | char | string => cases hc; decide
  refine ⟨r, ?_, hr⟩
  rw [hlead, List.cons_append] at hskip
  rw [operand_primary stack hskip hother, ← List.cons_append, ← hlead,
    primary_literal stack htext hapart]

/-- What is done with a word that stands where an operand begins. -/
def afterWord (stack : List Pending) (name : String) (r : Rest) : Progress :=
  match name with
  | "true" => .more ⟨.postfixed (.literal (.boolean true)), stack, r⟩
  | "false" => .more ⟨.postfixed (.literal (.boolean false)), stack, r⟩
  | "null" => .more ⟨.postfixed (.literal .null), stack, r⟩
  | "this" => .more ⟨.postfixed .this, stack, r⟩
  | "new" => afterNew stack r
  | _ => afterName (.plain name) (.name name) stack r

theorem primary_word {c : Char} {r : Rest} (hc : isNameStart c = true) :
    primary stack (c :: r) =
      afterWord stack (String.ofList (c :: r.takeWhile isNamePart)) (r.dropWhile isNamePart) := by
  have hdigit := isDigit_of_isNameStart hc
  have hnot {d : Char} (hd : isNameStart d = false) : c ≠ d := by
    rintro rfl
    simp [hd] at hc
  have hdot : c ≠ '.' := hnot (by decide)
  rw [primary.eq_5 _ _ _ (hnot (by decide)) (hnot (by decide)) (hnot (by decide)),
    if_neg (by simp [hdigit, hdot]), if_pos hc]
  rfl

theorem operand_name {name : String} {rest : Rest} (hname : IsName name)
    (hskip : skipBlanks s = name.toList ++ rest) (hrest : startsWith isNamePart rest = false) :
    operand stack s = afterWord stack name rest := by
  obtain ⟨c, r, htext, hc, hr⟩ := hname
  obtain ⟨htake, hdrop⟩ := takeWhile_run hr hrest
  have hother : c ∉ ['!', '-', '+', '('] := by
    intro hmem
    simp [isNameStart_of_all hmem (by decide)] at hc
  rw [htext, List.cons_append] at hskip
  rw [operand_primary stack hskip hother, primary_word stack hc, htake, hdrop, ← htext,
    String.ofList_toList]

theorem afterWord_of_free {name : String} (hfree : name ∉ reserved) (r : Rest) :
    afterWord stack name r = afterName (.plain name) (.name name) stack r := by
  simp only [reserved, List.mem_cons, List.not_mem_nil, or_false, not_or] at hfree
  obtain ⟨htrue, hfalse, hnull, hthis, hnew⟩ := hfree
  exact afterWord.eq_6 stack name r htrue hfalse hnull hthis hnew

theorem afterName_of_not_open {callee : Callee} {e : Expr} {r : Rest}
    (h : startsWith (· == '(') r = false) :
    afterName callee e stack r = .more ⟨.postfixed e, stack, r⟩ := by
  unfold afterName
  split
  · simp [startsWith] at h
  · rfl

theorem operand_word {name : String} (h : Laid (.word name :: tokens) s) (hend : Follows 7 tokens) :
    ∃ r, operand stack s = afterWord stack name r ∧ Laid tokens r ∧
      startsWith (· == '(') r = false := by
  obtain ⟨r, hskip, hname, hr, hapart⟩ := h.word
  exact ⟨r, operand_name stack hname hskip hapart, hr, hend.not_open hr⟩

theorem operand_call {name : String} (hfree : name ∉ reserved)
    (h : Laid (.call name :: tokens) s) :
    ∃ r, operand stack s = openArguments (.plain name) stack r ∧ Laid tokens r := by
  obtain ⟨r, hskip, hname, hr⟩ := h.call
  refine ⟨r, ?_, hr⟩
  rw [operand_name stack hname hskip (by exact (by decide : isNamePart '(' = false)),
    afterWord_of_free stack hfree]
  rfl

theorem operand_new {typeName : String} {c : Char} (htype : IsTypeName typeName)
    (h : Laid (.word "new" :: typeTokens typeName.toList ++ .mark c :: tokens) s)
    (hend : ∀ s, Laid (.mark c :: tokens) s → EndsType s) :
    ∃ q r, operand stack s = afterNew stack q ∧ readTypeName q = .ok (typeName, r) ∧
      Laid (.mark c :: tokens) r := by
  obtain ⟨q, hskip, hname, hq, hapart⟩ := Laid.word h
  obtain ⟨r, hread, hr⟩ := readTypeName_laid htype hq hend
  exact ⟨q, r, operand_name stack hname hskip hapart, hread, hr⟩

theorem operand_newObject {typeName : String} (htype : IsTypeName typeName)
    (h : Laid (.word "new" :: typeTokens typeName.toList ++ .mark '(' :: tokens) s) :
    ∃ r, operand stack s = openArguments (.constructor typeName) stack r ∧ Laid tokens r := by
  have hend : ∀ s, Laid (.mark '(' :: tokens) s → EndsType s := by
    intro s hs
    obtain ⟨r, hskip, -⟩ := hs.mark
    simp [EndsType, lead?, hskip]
  obtain ⟨q, r, hnew, hread, hr⟩ := operand_new stack htype h hend
  obtain ⟨t, hskip, ht⟩ := hr.mark
  exact ⟨t, by simp only [hnew, afterNew, hread, hskip], ht⟩

theorem operand_newArray {typeName : String} (htype : IsTypeName typeName) (hstart : Starts tokens)
    (h : Laid (.word "new" :: typeTokens typeName.toList ++ .mark '[' :: tokens) s) :
    ∃ r, operand stack s = .more ⟨.operand, .newArray typeName :: stack, r⟩ ∧ Laid tokens r := by
  have hend : ∀ s, Laid (.mark '[' :: tokens) s → EndsType s := by
    intro s hs
    obtain ⟨r, hskip, hr⟩ := hs.mark
    refine ⟨by simp [lead?, hskip], fun q hq hlead => ?_⟩
    cases hskip.symm.trans hq
    exact hstart.lead hr hlead (by decide)
  obtain ⟨q, r, hnew, hread, hr⟩ := operand_new stack htype h hend
  obtain ⟨t, hskip, ht⟩ := hr.mark
  exact ⟨t, by simp only [hnew, afterNew, hread, hskip], ht⟩

theorem openArguments_none {callee : Callee} (h : Laid (.mark ')' :: tokens) s) :
    ∃ r, openArguments callee stack s = .more ⟨.postfixed (callee.apply []), stack, r⟩ ∧
      Laid tokens r := by
  obtain ⟨r, hskip, hr⟩ := h.mark
  exact ⟨r, by simp only [openArguments, hskip], hr⟩

theorem openArguments_some {callee : Callee} (h : Laid tokens s) (hstart : Starts tokens) :
    ∃ r, openArguments callee stack s = .more ⟨.operand, .argument callee [] :: stack, r⟩ ∧
      Laid tokens r := by
  refine ⟨skipBlanks s, ?_, h.skip⟩
  unfold openArguments
  split
  · next r hskip => exact absurd (by decide) (hstart.lead h (c := ')') (by simp [lead?, hskip]))
  · rfl

/-! ## Steps after an operand that may be continued -/

theorem postfixed_member {e : Expr} {name : String} {q rest : Rest} (hname : IsName name)
    (hs : skipBlanks s = '.' :: q) (hq : skipBlanks q = name.toList ++ rest)
    (hrest : startsWith isNamePart rest = false) :
    postfixed e stack s = afterName (.method e name) (.field e name) stack rest := by
  have hdot : eat? "." s = some q := eat?_eq_some hs
  simp only [postfixed, hdot, readName_eq_ok hname hq hrest]

theorem postfixed_field {e : Expr} {name : String}
    (h : Laid (.mark '.' :: .word name :: tokens) s) (hend : Follows 7 tokens) :
    ∃ r, postfixed e stack s = .more ⟨.postfixed (.field e name), stack, r⟩ ∧ Laid tokens r := by
  obtain ⟨q, hs, hq⟩ := h.mark
  obtain ⟨r, hskip, hname, hr, hapart⟩ := hq.word
  refine ⟨r, ?_, hr⟩
  rw [postfixed_member stack hname hs hskip hapart, afterName_of_not_open stack (hend.not_open hr)]

theorem postfixed_call {e : Expr} {name : String} (h : Laid (.mark '.' :: .call name :: tokens) s) :
    ∃ r, postfixed e stack s = openArguments (.method e name) stack r ∧ Laid tokens r := by
  obtain ⟨q, hs, hq⟩ := h.mark
  obtain ⟨r, hskip, hname, hr⟩ := hq.call
  exact ⟨r, postfixed_member stack hname hs hskip (by exact (by decide : isNamePart '(' = false)), hr⟩

theorem postfixed_index {e : Expr} (h : Laid (.mark '[' :: tokens) s) :
    ∃ r, postfixed e stack s = .more ⟨.operand, .subscript e :: stack, r⟩ ∧ Laid tokens r := by
  obtain ⟨r, hskip, hr⟩ := h.mark
  have hdot : eat? "." s = none := eat?_eq_none (c := '.') rfl (by simp [lead?, hskip])
  have hopen : eat? "[" s = some r := eat?_eq_some hskip
  exact ⟨r, by simp only [postfixed, hdot, hopen], hr⟩

theorem postfixed_end {e : Expr} (h : Laid tokens s) (hend : Follows 6 tokens) :
    postfixed e stack s = .more ⟨.climb e 6, stack, s⟩ := by
  have hdot : eat? "." s = none :=
    eat?_eq_none (c := '.') rfl (hend.lead h (by decide) (by decide))
  have hopen : eat? "[" s = none :=
    eat?_eq_none (c := '[') rfl (hend.lead h (by decide) (by decide))
  simp only [postfixed, hdot, hopen]

/-! ## Steps after an operand of an operator -/

/-- The frame on top takes no operand above the level. -/
def Admits (level : Nat) : List Pending → Prop
  | .right op _ :: _ => op.level < level
  | .unary _ :: _ | .cast _ :: _ => 6 ≤ level
  | _ => True

theorem climb_sign (op : UnaryOp) (e : Expr) :
    climb e 6 (.unary op :: stack) s = .more ⟨.climb (.unary op e) 6, stack, s⟩ := rfl

theorem climb_cast (typeName : String) (e : Expr) :
    climb e 6 (.cast typeName :: stack) s = .more ⟨.climb (.cast typeName e) 6, stack, s⟩ := rfl

theorem climb_operator {e : Expr} {op : BinaryOp} (h : Laid (.operator op :: tokens) s)
    (hstart : Starts tokens) :
    ∃ r, climb e op.level stack s = .more ⟨.operand, .right op e :: stack, r⟩ ∧ Laid tokens r := by
  obtain ⟨text, r, hskip, htext, hr, -⟩ := h.next
  cases htext
  refine ⟨r, ?_, hr⟩
  have hread : operator? op.level s = some (op, r) := by
    refine operator?_eq_some hskip ?_
    cases r with
    | nil => rfl
    | cons c q =>
      refine Bool.eq_false_iff.2 fun hc => ?_
      obtain rfl : c = '=' := by simpa [startsWith] using hc
      exact hstart.lead hr (c := '=') rfl (by decide)
  have hword : eatWord? "instanceof" s = none := by
    refine eatWord?_eq_none ?_
    rw [lead?, hskip]
    cases op <;> simp [BinaryOp.symbol]
  have hlevel := op.level_le
  unfold climb
  split
  · omega
  · omega
  · simp only [hword, ite_self, hread]

theorem climb_instanceOf {e : Expr} {typeName : String} (htype : IsTypeName typeName)
    (h : Laid (.word "instanceof" :: typeTokens typeName.toList ++ tokens) s)
    (hend : Follows 3 tokens) :
    ∃ r, climb e 3 stack s = .more ⟨.climb (.instanceOf e typeName) 3, stack, r⟩ ∧
      Laid tokens r := by
  obtain ⟨q, hskip, -, hq, hapart⟩ := Laid.word h
  have hends : ∀ s, Laid tokens s → EndsType s := fun s hs =>
    ⟨hend.lead hs (by decide) (by decide), fun r hr =>
      absurd (by simp [lead?, hr]) (hend.lead hs (c := '[') (by decide) (by decide))⟩
  obtain ⟨r, hread, hr⟩ := readTypeName_laid htype hq hends
  have hword : eatWord? "instanceof" s = some q := by
    simp [eatWord?, eat?_eq_some hskip, hapart]
  refine ⟨r, ?_, hr⟩
  unfold climb
  split
  · contradiction
  · contradiction
  · simp only [hword, if_true, hread]

/-- Without an operator of the level, the level below is next. -/
theorem climb_down {e : Expr} {level : Nat} (h : Laid tokens s) (hend : Follows level tokens)
    (hadmits : Admits level stack) (hlevel : level < 6) :
    climb e (level + 1) stack s = .more ⟨.climb e level, stack, s⟩ := by
  have hnone := hend.operator?_eq_none h (Nat.lt_succ_self level)
  have hword := hend.instanceof?_eq_none h
  cases stack with
  | nil => simp [climb, hword, hnone]
  | cons pending stack =>
    cases pending with
    | right op left =>
      have hlower : op.level ≠ level := Nat.ne_of_lt hadmits
      simp [climb, hword, hnone, hlower]
    | unary | cast => exact absurd hlevel (Nat.not_lt.2 hadmits)
    | group | subscript | newArray | argument => simp [climb, hword, hnone]

theorem climb_right (left : Expr) {e : Expr} {op : BinaryOp} (h : Laid tokens s)
    (hend : Follows op.level tokens) :
    climb e (op.level + 1) (.right op left :: stack) s =
      .more ⟨.climb (.binary op left e) op.level, stack, s⟩ := by
  have hnone := hend.operator?_eq_none h (Nat.lt_succ_self _)
  have hword := hend.instanceof?_eq_none h
  simp [climb, hword, hnone]

/-- A frame that takes operands of every level, and the end of the text. -/
def TakesAll : List Pending → Prop
  | .right _ _ :: _ | .unary _ :: _ | .cast _ :: _ => False
  | _ => True

theorem climb_close {e : Expr} (h : ∀ op : BinaryOp, ∀ c ∈ op.symbol.toList.head?, c ∉ lead? s)
    (hall : TakesAll stack) : climb e 0 stack s = close e stack s := by
  have hnone : operator? 0 s = none := operator?_eq_none fun op _ => h op
  cases stack with
  | nil => simp [climb, hnone]
  | cons pending stack =>
    cases pending with
    | right | unary | cast => exact hall.elim
    | group | subscript | newArray | argument => simp [climb, hnone]

theorem climb_mark {e : Expr} {m : Char} (h : Laid (.mark m :: tokens) s)
    (hall : TakesAll stack) : climb e 0 stack s = close e stack s := by
  obtain ⟨c, r, hskip, rfl, hc⟩ := h.lead
  refine climb_close stack (fun op d hd hlead => ?_) hall
  obtain ⟨d', q, hsymbol, hmark, -⟩ := symbol_lead op
  simp only [hsymbol, List.head?_cons, Option.mem_some_iff] at hd
  simp only [lead?, hskip, List.head?_cons, Option.mem_some_iff] at hlead
  exact hmark (hd ▸ hlead ▸ hc)

theorem climb_group {e : Expr} (h : Laid (.mark ')' :: tokens) s) :
    ∃ r, climb e 0 (.group :: stack) s = .more ⟨.postfixed e, stack, r⟩ ∧ Laid tokens r := by
  obtain ⟨r, hskip, hr⟩ := h.mark
  refine ⟨r, ?_, hr⟩
  rw [climb_mark (.group :: stack) h trivial, close, expect_eq_ok hskip]

theorem climb_subscript {e array : Expr} (h : Laid (.mark ']' :: tokens) s) :
    ∃ r, climb e 0 (.subscript array :: stack) s = .more ⟨.postfixed (.index array e), stack, r⟩ ∧
      Laid tokens r := by
  obtain ⟨r, hskip, hr⟩ := h.mark
  refine ⟨r, ?_, hr⟩
  rw [climb_mark (.subscript array :: stack) h trivial, close, expect_eq_ok hskip]

theorem climb_newArray {e : Expr} {typeName : String} (h : Laid (.mark ']' :: tokens) s) :
    ∃ r, climb e 0 (.newArray typeName :: stack) s =
      .more ⟨.postfixed (.newArray typeName e), stack, r⟩ ∧ Laid tokens r := by
  obtain ⟨r, hskip, hr⟩ := h.mark
  refine ⟨r, ?_, hr⟩
  rw [climb_mark (.newArray typeName :: stack) h trivial, close, expect_eq_ok hskip]

theorem climb_argument {e : Expr} {callee : Callee} {before : List Expr}
    (h : Laid (.mark ',' :: tokens) s) :
    ∃ r, climb e 0 (.argument callee before :: stack) s =
      .more ⟨.operand, .argument callee (e :: before) :: stack, r⟩ ∧ Laid tokens r := by
  obtain ⟨r, hskip, hr⟩ := h.mark
  have hcomma : eat? "," s = some r := eat?_eq_some hskip
  refine ⟨r, ?_, hr⟩
  rw [climb_mark (.argument callee before :: stack) h trivial]
  simp only [close, hcomma]

theorem climb_lastArgument {e : Expr} {callee : Callee} {before : List Expr}
    (h : Laid (.mark ')' :: tokens) s) :
    ∃ r, climb e 0 (.argument callee before :: stack) s =
      .more ⟨.postfixed (callee.apply (e :: before).reverse), stack, r⟩ ∧ Laid tokens r := by
  obtain ⟨r, hskip, hr⟩ := h.mark
  have hcomma : eat? "," s = none := eat?_eq_none (c := ',') rfl (by simp [lead?, hskip])
  refine ⟨r, ?_, hr⟩
  rw [climb_mark (.argument callee before :: stack) h trivial]
  simp only [close, hcomma, expect_eq_ok hskip]

theorem climb_finish {e : Expr} (h : Laid [] s) : climb e 0 [] s = .finished (.ok e) := by
  rw [climb_close [] (by simp [lead?, h.ended]) trivial]
  simp only [close, h.ended]

end Machine

end JvmDebug.Grammar
