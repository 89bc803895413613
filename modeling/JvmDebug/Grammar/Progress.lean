import JvmDebug.Grammar.Machine

/-!
Every step of the parser makes progress: it leaves fewer characters, or the same characters and a
lighter machine. So the parser stops on every text.
-/
namespace JvmDebug.Grammar
open Text

theorem dropWhile_length_le (p : Char → Bool) (s : Rest) : (s.dropWhile p).length ≤ s.length :=
  (List.dropWhile_sublist p).length_le

theorem eat?_length {token : String} {s r : Rest} (h : eat? token s = some r) :
    r.length + token.toList.length ≤ s.length := by
  have h₁ := afterPrefix?_length h
  have h₂ := skipBlanks_length_le s
  omega

theorem eatOperator?_length {token : String} {s r : Rest} (h : eatOperator? token s = some r) :
    r.length + token.toList.length ≤ s.length :=
  eat?_length (Option.filter_eq_some_iff.1 h).1

theorem eatWord?_length {token : String} {s r : Rest} (h : eatWord? token s = some r) :
    r.length + token.toList.length ≤ s.length :=
  eat?_length (Option.filter_eq_some_iff.1 h).1

theorem expect_length {c : Char} {s r : Rest} (h : expect c s = .ok r) : r.length < s.length := by
  have h₁ := skipBlanks_length_le s
  unfold expect at h
  split at h
  · next d t heq =>
    split at h
    · cases h
      simp only [heq, List.length_cons] at h₁
      omega
    · cases h
  · cases h

theorem readName_length {s r : Rest} {name : String} (h : readName s = .ok (name, r)) :
    r.length < s.length := by
  have h₁ := skipBlanks_length_le s
  unfold readName at h
  split at h
  · next c t heq =>
    split at h
    · cases h
      have := dropWhile_length_le isNamePart t
      simp only [heq, List.length_cons] at h₁
      omega
    · cases h
  · cases h

theorem readQualifiers_length (s : Rest) : (readQualifiers s).2.length ≤ s.length := by
  fun_induction readQualifiers s with
  | case1 s r h c t h' hc names rest heq ih =>
    have h₁ := skipBlanks_length_le s
    have h₂ := skipBlanks_length_le r
    have h₃ := dropWhile_length_le isNamePart t
    simp only [h, h', List.length_cons] at h₁ h₂
    simp only [heq] at ih
    show rest.length ≤ s.length
    omega
  | case2 => simp
  | case3 => simp
  | case4 => simp

theorem readDimensions_length (s : Rest) : (readDimensions s).2.length ≤ s.length := by
  fun_induction readDimensions s with
  | case1 s r h t h' pairs rest heq ih =>
    have h₁ := skipBlanks_length_le s
    have h₂ := skipBlanks_length_le r
    simp only [h, h', List.length_cons] at h₁ h₂
    simp only [heq] at ih
    show rest.length ≤ s.length
    omega
  | case2 => simp
  | case3 => simp

theorem readTypeName_length {s r : Rest} {name : String} (h : readTypeName s = .ok (name, r)) :
    r.length < s.length := by
  unfold readTypeName at h
  split at h
  · cases h
  · next first t heq =>
    cases h
    have h₁ := readName_length heq
    have h₂ := readQualifiers_length t
    have h₃ := readDimensions_length (readQualifiers t).2
    omega

theorem readStringBody_length {start s r : Rest} {t : List Char}
    (h : readStringBody start s = .ok (t, r)) : r.length < s.length := by
  fun_induction readStringBody start s generalizing t r with
  | case1 => cases h
  | case2 => cases h; simp
  | case3 c q ih =>
    cases hq : readStringBody start q with
    | error f => simp [hq, Except.map] at h
    | ok p =>
      obtain ⟨u, v⟩ := p
      simp only [hq, Except.map, Except.ok.injEq, Prod.mk.injEq] at h
      have := ih hq
      simp only [← h.2, List.length_cons]
      omega
  | case4 => cases h
  | case5 c q _ _ _ ih =>
    cases hq : readStringBody start q with
    | error f => simp [hq, Except.map] at h
    | ok p =>
      obtain ⟨u, v⟩ := p
      simp only [hq, Except.map, Except.ok.injEq, Prod.mk.injEq] at h
      have := ih hq
      simp only [← h.2, List.length_cons]
      omega

theorem closeChar_length {start s r : Rest} {c : Char} {u : UInt16}
    (h : closeChar start c s = .ok (u, r)) : r.length < s.length := by
  unfold closeChar at h
  split at h
  · split at h
    · cases h; simp
    · cases h
  · cases h

theorem readCharBody_length {start s r : Rest} {u : UInt16}
    (h : readCharBody start s = .ok (u, r)) : r.length < s.length := by
  unfold readCharBody at h
  split at h
  · cases h
  · have := closeChar_length h; simp only [List.length_cons]; omega
  · cases h
  · cases h
  · have := closeChar_length h; simp only [List.length_cons]; omega

theorem endNumber_rest {text : String} {l l' : Literal} {s r : Rest}
    (h : endNumber text l s = .ok (l', r)) : r = s := by
  unfold endNumber at h
  split at h
  · cases h
  · cases h; rfl

theorem readHex_length {start s r : Rest} {l : Literal} (h : readHex start s = .ok (l, r)) :
    r.length ≤ s.length := by
  have h₁ := dropWhile_length_le isHexDigit s
  simp only [readHex] at h
  split at h
  · split at h
    · cases h
    · rw [endNumber_rest h, List.length_drop]; omega
  · split at h
    · cases h
    · rw [endNumber_rest h]; exact h₁

theorem finishDecimal_length {start s r : Rest} {d : Decimal} {l : Literal}
    (h : finishDecimal start d s = .ok (l, r)) : r.length ≤ s.length := by
  simp only [finishDecimal] at h
  repeat' split at h
  all_goals first
    | (have e := endNumber_rest h; subst e; simp)
    | cases h

theorem readFraction_length (s : Rest) : (readFraction s).2.length ≤ s.length := by
  unfold readFraction
  split
  · split
    · simp
    · next r _ =>
      have := dropWhile_length_le Char.isDigit r
      simp only [List.length_cons]
      omega
  · simp

theorem readSign_length (s : Rest) : (readSign s).2.length ≤ s.length := by
  unfold readSign
  split <;> simp

theorem readExponent_length {s r : Rest} {e : Option (Char × Option Char × List Char)}
    (h : readExponent s = .ok (e, r)) : r.length ≤ s.length := by
  unfold readExponent at h
  split at h
  · next c t =>
    split at h
    · simp only at h
      split at h
      · cases h
        have h₁ := dropWhile_length_le Char.isDigit (readSign t).2
        have h₂ := readSign_length t
        simp only [List.length_cons]
        omega
      · cases h
    · cases h; simp
  · cases h; simp

theorem readNumber_length {c : Char} {t r : Rest} {l : Literal}
    (hc : c.isDigit = true ∨ (c = '.' ∧ startsWith Char.isDigit t = true))
    (h : readNumber (c :: t) = .ok (l, r)) : r.length < (c :: t).length := by
  unfold readNumber at h
  split at h
  · next q heq => cases heq; have := readHex_length h; simp only [List.length_cons]; omega
  · next q heq => cases heq; have := readHex_length h; simp only [List.length_cons]; omega
  · simp only at h
    split at h
    · cases h
    · next e q heq =>
      have h₁ := finishDecimal_length h
      have h₂ := readExponent_length heq
      refine Nat.lt_of_le_of_lt (Nat.le_trans h₁ h₂) ?_
      rcases hc with hc | ⟨rfl, hs⟩
      · have h₃ := readFraction_length ((c :: t).dropWhile Char.isDigit)
        have h₄ := dropWhile_length_le Char.isDigit t
        simp only [List.dropWhile_cons, hc, ↓reduceIte] at h₃ ⊢
        simp only [List.length_cons]
        omega
      · have hd : ('.' :: t).dropWhile Char.isDigit = '.' :: t := by
          simp [show Char.isDigit '.' = false by decide]
        rw [hd]
        have hn : startsWith isNameStart t = false := by
          cases t with
          | nil => rfl
          | cons d t =>
            simp only [startsWith] at hs ⊢
            simp only [Char.isDigit, Bool.and_eq_true, decide_eq_true_eq] at hs
            have hlo : (48 : Nat) ≤ d.toNat := hs.1
            have hhi : d.toNat ≤ (57 : Nat) := hs.2
            have hlt : d.toNat < 128 := by omega
            have h1 : d ≠ '_' := by rintro rfl; simp at hhi
            have h2 : d ≠ '$' := by rintro rfl; simp at hlo
            have hupper : decide (d.val ≥ 'A'.val ∧ d.val ≤ 'Z'.val) = false := by
              refine decide_eq_false fun h => ?_
              have : (65 : Nat) ≤ d.toNat := h.1
              omega
            have hlower : decide (d.val ≥ 'a'.val) = false := by
              refine decide_eq_false fun h => ?_
              have : (97 : Nat) ≤ d.toNat := h
              omega
            have h3 : d.isAlpha = false := by
              show (decide (d.val ≥ 'A'.val ∧ d.val ≤ 'Z'.val) ||
                (decide (d.val ≥ 'a'.val) && decide (d.val ≤ 'z'.val))) = false
              rw [hupper, hlower]
              rfl
            simp [isNameStart, isLetter, hlt, h1, h2, h3]
        have h₄ := dropWhile_length_le Char.isDigit t
        simp only [readFraction, hn, Bool.false_eq_true, ↓reduceIte, List.length_cons]
        omega

theorem readLeast?_length {s r : Rest} {l : Literal} (h : readLeast? s = some (l, r)) :
    r.length ≤ s.length := by
  have h₁ := skipBlanks_length_le s
  have h₂ := dropWhile_length_le Char.isDigit (skipBlanks s)
  have h₃ := (Option.filter_eq_some_iff.1 h).1
  split at h₃
  · split at h₃
    · cases h₃; simp only [List.length_drop]; omega
    · cases h₃
  · split at h₃
    · cases h₃; omega
    · cases h₃

namespace Machine

theorem castPrefix?_length {s r : Rest} {t : String} (h : castPrefix? s = some (t, r)) :
    r.length < s.length := by
  have h₁ := skipBlanks_length_le s
  unfold castPrefix? at h
  split at h
  · next q heq =>
    simp only [heq, List.length_cons] at h₁
    split at h
    · next t' q' heq' =>
      have h₂ := readTypeName_length heq'
      have h₃ := skipBlanks_length_le q'
      split at h
      · cases h
      · split at h
        · next q'' heq'' =>
          cases h
          simp only [heq'', List.length_cons] at h₃
          omega
        · cases h
    · cases h
  · cases h

/-- What remains to be done with the characters that are left. -/
def weight (m : Machine) : Nat :=
  m.stack.length + match m.mode with
    | .operand => 0
    | .postfixed _ => 7
    | .climb _ level => level

def Below (m n : Machine) : Prop :=
  m.rest.length < n.rest.length ∨ m.rest.length = n.rest.length ∧ m.weight < n.weight

def Progress.Reads (p : Progress) (n : Nat) : Prop :=
  match p with
  | .more m => m.rest.length < n
  | .finished _ => True

theorem openArguments_reads (callee : Callee) (stack : List Pending) {s : Rest} {n : Nat}
    (h : s.length < n) : Progress.Reads (openArguments callee stack s) n := by
  have h₁ := skipBlanks_length_le s
  unfold openArguments
  split
  · next r heq =>
    simp only [heq, List.length_cons] at h₁
    simp only [Progress.Reads]; omega
  · simp only [Progress.Reads]; omega

theorem afterName_reads (callee : Callee) (e : Expr) (stack : List Pending) {s : Rest} {n : Nat}
    (h : s.length < n) : Progress.Reads (afterName callee e stack s) n := by
  unfold afterName
  split
  · apply openArguments_reads
    simp only [List.length_cons] at h
    omega
  · exact h

theorem afterNew_reads (stack : List Pending) {s : Rest} {n : Nat} (h : s.length < n) :
    Progress.Reads (afterNew stack s) n := by
  unfold afterNew
  split
  · trivial
  · next t r heq =>
    have h₁ := readTypeName_length heq
    have h₂ := skipBlanks_length_le r
    split
    · next q heq' =>
      simp only [heq', List.length_cons] at h₂
      simp only [Progress.Reads]; omega
    · next q heq' =>
      simp only [heq', List.length_cons] at h₂
      apply openArguments_reads; omega
    · trivial

theorem afterLiteral_reads (stack : List Pending) {l : Read Literal} {n : Nat}
    (h : ∀ a r, l = .ok (a, r) → r.length < n) : Progress.Reads (afterLiteral stack l) n := by
  unfold afterLiteral
  split
  · trivial
  · next a r => exact h a r rfl

theorem primary_reads (stack : List Pending) (s : Rest) :
    Progress.Reads (primary stack s) s.length := by
  unfold primary
  split
  · trivial
  · simp [Progress.Reads]
  · next r =>
    apply afterLiteral_reads
    intro a q h
    cases hb : readStringBody ('"' :: r) r with
    | error f => simp [hb, Except.map] at h
    | ok p =>
      simp only [hb, Except.map, Except.ok.injEq, Prod.mk.injEq] at h
      have := readStringBody_length hb
      simp only [← h.2, List.length_cons]
      omega
  · next r =>
    apply afterLiteral_reads
    intro a q h
    cases hb : readCharBody ('\'' :: r) r with
    | error f => simp [hb, Except.map] at h
    | ok p =>
      simp only [hb, Except.map, Except.ok.injEq, Prod.mk.injEq] at h
      have := readCharBody_length hb
      simp only [← h.2, List.length_cons]
      omega
  · next c r _ _ _ =>
    have h₁ := dropWhile_length_le isNamePart r
    have h₂ : (r.dropWhile isNamePart).length < (c :: r).length := by
      simp only [List.length_cons]; omega
    split
    · next hc =>
      apply afterLiteral_reads
      intro a q h
      exact readNumber_length (by simpa using hc) h
    · split
      · simp only
        split
        any_goals exact h₂
        · exact afterNew_reads stack h₂
        · exact afterName_reads _ _ stack h₂
      · trivial

theorem operand_reads (stack : List Pending) (s : Rest) :
    Progress.Reads (operand stack s) s.length := by
  have h₁ := skipBlanks_length_le s
  unfold operand
  split
  · next r h => have := eatOperator?_length h; simp only [Progress.Reads]; simp at this; omega
  · split
    · next r h =>
      have h₂ := eat?_length h
      simp at h₂
      split
      · next l q hq =>
        have h₃ := readLeast?_length hq
        simp only [Progress.Reads]; omega
      · simp only [Progress.Reads]; omega
    · split
      · next r h => have := eat?_length h; simp only [Progress.Reads]; simp at this; omega
      · split
        · next t r h => exact castPrefix?_length h
        · have h₂ := primary_reads stack (skipBlanks s)
          revert h₂
          cases primary stack (skipBlanks s) with
          | more m => simp only [Progress.Reads]; omega
          | finished r => simp [Progress.Reads]

theorem operator?_length {level : Nat} {s r : Rest} {op : BinaryOp}
    (h : operator? level s = some (op, r)) : r.length < s.length := by
  have key (eater : String → Rest → Option Rest) (o : BinaryOp)
      (he : ∀ {q}, eater o.symbol s = some q → q.length + o.symbol.toList.length ≤ s.length)
      (hm : (eater o.symbol s).map (fun q => (o, q)) = some (op, r)) : r.length < s.length := by
    obtain ⟨q, hq, hp⟩ := Option.map_eq_some_iff.1 hm
    cases hp
    have h₁ := he hq
    have h₂ : 0 < op.symbol.toList.length := by cases op <;> decide
    omega
  unfold operator? at h
  split at h <;> simp only [Option.or_eq_some_iff] at h
  · exact key eat? _ eat?_length h
  · exact key eat? _ eat?_length h
  · rcases h with h | ⟨_, h⟩ <;> exact key eat? _ eat?_length h
  · rcases h with h | ⟨_, h | ⟨_, h | ⟨_, h⟩⟩⟩ <;> exact key eat? _ eat?_length h
  · rcases h with h | ⟨_, h⟩ <;> exact key eatOperator? _ eatOperator?_length h
  · rcases h with h | ⟨_, h | ⟨_, h⟩⟩ <;> exact key eatOperator? _ eatOperator?_length h
  · cases h

theorem close_reads (e : Expr) (stack : List Pending) (s : Rest) :
    Progress.Reads (close e stack s) s.length := by
  unfold close
  split
  · split
    · next r h => exact expect_length h
    · trivial
  · split
    · next r h => exact expect_length h
    · trivial
  · split
    · next r h => exact expect_length h
    · trivial
  · split
    · next r h => have := eat?_length h; simp only [Progress.Reads]; simp at this; omega
    · split
      · next r h => exact expect_length h
      · trivial
  · split <;> trivial

theorem step_below {m n : Machine} (h : n.step = .more m) : Below m n := by
  obtain ⟨mode, stack, s⟩ := n
  cases mode with
  | operand =>
    have := operand_reads stack s
    simp only [step] at h
    rw [h] at this
    exact .inl this
  | postfixed e =>
    simp only [step, postfixed] at h
    split at h
    · next r hr =>
      have h₁ := eat?_length hr
      simp at h₁
      split at h
      · cases h
      · next name q hq =>
        have h₂ := readName_length hq
        have := afterName_reads (.method e name) (.field e name) stack (n := s.length)
          (s := q) (by omega)
        rw [h] at this
        exact .inl this
    · split at h
      · next r hr =>
        have h₁ := eat?_length hr
        simp at h₁
        cases h
        exact .inl (by simp only; omega)
      · cases h
        exact .inr ⟨rfl, by simp [weight]⟩
  | climb e level =>
    simp only [step, climb] at h
    split at h
    · cases h; exact .inr ⟨rfl, by simp [weight]⟩
    · cases h; exact .inr ⟨rfl, by simp [weight]⟩
    · split at h
      · next r hr =>
        split at hr
        · have h₁ := eatWord?_length hr
          split at h
          · next t q hq =>
            have h₂ := readTypeName_length hq
            cases h
            exact .inl (by simp only; omega)
          · cases h
        · cases hr
      · split at h
        · next op r hr =>
          cases h
          exact .inl (operator?_length hr)
        · split at h
          · split at h
            · cases h; exact .inr ⟨rfl, by simp [weight]; omega⟩
            · cases h; exact .inr ⟨rfl, by simp [weight]⟩
          · cases h; exact .inr ⟨rfl, by simp [weight]⟩
          · have := close_reads e stack s
            rw [h] at this
            exact .inl this

end Machine

end JvmDebug.Grammar
