import JvmDebug.Proofs.ParserImage
import JvmDebug.Proofs.WholeNumbers

/-!
Integer literals. A decimal text gives its number, the least one of its type with the minus sign
that belongs to it, a hexadecimal text gives its bits, and what has no room in the type is refused
where it stands: main result `Grammar.integers_exact`.
-/
namespace JvmDebug
namespace Grammar
open Text

/-! ## Numerals -/

/-- The text is the number in the base, in letters of either case and with any zeros in front. -/
def IsNumeral (base n : Nat) (text : List Char) : Prop :=
  ∃ zeros, text.map Char.toLower = List.replicate zeros '0' ++ Nat.toDigits base n

/-- What is the case for every ASCII character and the lower-case one by computation. -/
theorem lower_all (p : Char → Char → Bool) (hsame : ∀ c, p c c = true)
    (hp : ∀ n : Fin 128, p (Char.ofNat n) (Char.ofNat n).toLower = true) (c : Char) :
    p c c.toLower = true := by
  by_cases hc : c.toNat < 0x80
  · exact ascii_all (fun c => p c c.toLower) hp hc
  · have hlower : c.toLower = c := by
      refine dif_neg ?_
      rintro ⟨-, hle⟩
      have hle : c.toNat ≤ 90 := hle
      omega
    rw [hlower, hsame]

theorem eq_of_lower_digit {c : Char} (h : c.toLower.isDigit = true) : c = c.toLower := by
  have := lower_all (fun c d => !d.isDigit || c == d) (by simp) (by decide +kernel) c
  simpa [h] using this

theorem isHexDigit_of_lower {c : Char} (h : isHexDigit c.toLower = true) :
    isHexDigit c = true ∧ hexDigitValue c = hexDigitValue c.toLower := by
  have := lower_all
    (fun c d => !isHexDigit d || (isHexDigit c && hexDigitValue c == hexDigitValue d))
    (by simp) (by decide +kernel) c
  simpa [h] using this

theorem foldl_zeros {f : Nat → Char → Nat} (hf : f 0 '0' = 0) (zeros : Nat) (digits : List Char) :
    (List.replicate zeros '0' ++ digits).foldl f 0 = digits.foldl f 0 := by
  induction zeros with
  | zero => rfl
  | succ zeros ih => rw [List.replicate_succ, List.cons_append, List.foldl_cons, hf, ih]

theorem isHexDigit_digitChar {d : Nat} (h : d < 16) :
    isHexDigit d.digitChar = true ∧ hexDigitValue d.digitChar = d := by
  revert d
  decide

theorem isHex_toDigits (n : Nat) : IsHex n (Nat.toDigits 16 n) := by
  induction n using Nat.strongRecOn with
  | ind n ih =>
    by_cases hsmall : n < 16
    · obtain ⟨hdigit, hvalue⟩ := isHexDigit_digitChar hsmall
      rw [Nat.toDigits_of_lt_base hsmall]
      exact ⟨by simp, by simpa using hdigit, by simpa [hexValue] using hvalue⟩
    · obtain ⟨-, hdigits, hvalue⟩ := ih (n / 16) (by omega)
      obtain ⟨hlast, hlastValue⟩ := isHexDigit_digitChar (Nat.mod_lt n (by decide : 0 < 16))
      rw [Nat.toDigits_of_base_le (by decide) (Nat.not_lt.1 hsmall)]
      refine ⟨by simp, by simpa [or_imp, forall_and] using ⟨hdigits, hlast⟩, ?_⟩
      rw [hexValue_concat, hvalue, hlastValue]
      omega

/-- The text is empty only if its lower-case form is. -/
theorem IsNumeral.ne_nil {base n : Nat} {text : List Char} (h : IsNumeral base n text) :
    text ≠ [] := by
  obtain ⟨zeros, htext⟩ := h
  rintro rfl
  exact Nat.toDigits_ne_nil (List.append_eq_nil_iff.1 htext.symm).2

theorem IsNumeral.isHex {n : Nat} {text : List Char} (h : IsNumeral 16 n text) : IsHex n text := by
  have hne := h.ne_nil
  obtain ⟨zeros, htext⟩ := h
  obtain ⟨-, hdigits, hvalue⟩ := isHex_toDigits n
  have hlower : ∀ c ∈ text, isHexDigit c.toLower = true := by
    intro c hc
    have hmem : c.toLower ∈ List.replicate zeros '0' ++ Nat.toDigits 16 n :=
      htext ▸ List.mem_map_of_mem hc
    rcases List.mem_append.1 hmem with hzero | hdigit
    · rw [(List.mem_replicate.1 hzero).2]
      decide
    · exact hdigits _ hdigit
  refine ⟨hne, fun c hc => (isHexDigit_of_lower (hlower c hc)).1, ?_⟩
  calc hexValue text = hexValue (text.map Char.toLower) := by
        rw [hexValue, hexValue, List.foldl_map]
        refine List.foldl_ext _ _ _ fun v c hc => ?_
        rw [(isHexDigit_of_lower (hlower c hc)).2]
    _ = hexValue (Nat.toDigits 16 n) := by rw [htext]; exact foldl_zeros rfl zeros _
    _ = n := hvalue

theorem IsNumeral.decimal {n : Nat} {text : List Char} (h : IsNumeral 10 n text) :
    (∀ c ∈ text, c.isDigit = true) ∧ digitsValue text = n := by
  obtain ⟨zeros, htext⟩ := h
  have hdigits : ∀ c ∈ List.replicate zeros '0' ++ Nat.toDigits 10 n, c.isDigit = true := by
    intro c hc
    rcases List.mem_append.1 hc with hzero | hdigit
    · rw [(List.mem_replicate.1 hzero).2]
      decide
    · exact Nat.isDigit_of_mem_toDigits (by decide) (by decide) hdigit
  have hlower : ∀ c ∈ text, c = c.toLower := fun c hc =>
    eq_of_lower_digit (hdigits _ (htext ▸ List.mem_map_of_mem hc))
  have hsame : text = List.replicate zeros '0' ++ Nat.toDigits 10 n := by
    rw [← htext]
    exact ((List.map_congr_left fun c hc => (hlower c hc).symm).trans (List.map_id _)).symm
  refine ⟨hsame ▸ hdigits, ?_⟩
  rw [hsame]
  exact (foldl_zeros rfl zeros _).trans (Nat.ofDigitChars_toDigits (by decide) (by decide))

theorem isNumeral_ten (n : Nat) : IsNumeral 10 n (Nat.toDigits 10 n) := by
  refine ⟨0, (List.map_congr_left fun c hc => ?_).trans (List.map_id _)⟩
  have hdigit := Nat.isDigit_of_mem_toDigits (by decide) (by decide) hc
  have := ascii_all (fun c => !c.isDigit || c.toLower == c) (by decide +kernel) (isDigit_lt hdigit)
  simpa [hdigit] using this

/-! ## The two kinds of literals -/

namespace IntegerKind

def type : IntegerKind → WholeType
  | int => .int
  | long => .long

/-- The least value of the kind without its sign. -/
def half (k : IntegerKind) : Nat := 2 ^ (k.bits - 1)

def least : IntegerKind → Literal
  | int => .int Int32.minValue
  | long => .long Int64.minValue

theorem message_invalid (k : IntegerKind) (text : String) :
    (k.invalid text).message = "Invalid " ++ k.type.name ++ " literal: " ++ text := by
  cases k <;> rfl

end IntegerKind

/-- A literal in front of the text is not continued by it. -/
def Ends (s : Rest) : Prop := startsWith (fun c => isNamePart c || c == '.') s = false

variable {k : IntegerKind} {suffix digits : List Char} {rest : Rest} {n : Nat}

theorem Ends.not_namePart (h : Ends rest) : startsWith isNamePart rest = false :=
  startsWith_mono (fun c hc => by simp [hc]) h

theorem Ends.lead {c : Char} (h : Ends (c :: rest)) : isNamePart c = false ∧ c ≠ '.' := by
  simpa [Ends, startsWith] using h

theorem IntegerKind.Suffixed.lead (h : k.Suffixed suffix) (hrest : Ends rest) {c : Char} {r : Rest}
    (heq : suffix ++ rest = c :: r) : isHexDigit c = false ∧ c ∉ ['x', 'X', '.'] := by
  have hhex := h.not_hexDigit hrest.not_namePart
  rw [heq] at hhex
  refine ⟨hhex, fun hmem => ?_⟩
  cases h with
  | int =>
    obtain rfl : rest = c :: r := heq
    obtain ⟨hpart, hdot⟩ := hrest.lead
    simp only [List.mem_cons, List.not_mem_nil, or_false] at hmem
    rcases hmem with rfl | rfl | rfl
    · exact absurd hpart (by decide)
    · exact absurd hpart (by decide)
    · exact hdot rfl
  | upper | lower =>
    cases heq
    exact absurd hmem (by decide)

theorem takeWhile_decimal (hdigits : ∀ c ∈ digits, c.isDigit = true) (hsuffix : k.Suffixed suffix)
    (hrest : Ends rest) :
    (digits ++ (suffix ++ rest)).takeWhile Char.isDigit = digits ∧
      (digits ++ (suffix ++ rest)).dropWhile Char.isDigit = suffix ++ rest :=
  takeWhile_run hdigits
    (startsWith_mono (fun c hc => by simp [isHexDigit, hc]) (hsuffix.not_hexDigit hrest.not_namePart))

theorem endNumber_eq_ok (hrest : Ends rest) (text : String) (l : Literal) :
    endNumber text l rest = .ok (l, rest) := by
  rw [endNumber, hrest.not_namePart]
  rfl

/-! ## Readers of numbers -/

/-- What is neither hexadecimal nor followed by a fraction or an exponent. -/
theorem readNumber_whole (hdigits : ∀ c ∈ digits, c.isDigit = true)
    (hsuffix : k.Suffixed suffix) (hrest : Ends rest) :
    readNumber (digits ++ (suffix ++ rest)) =
      finishDecimal (digits ++ (suffix ++ rest)) ⟨digits, none, none⟩ (suffix ++ rest) := by
  obtain ⟨htake, hdrop⟩ := takeWhile_decimal hdigits hsuffix hrest
  have hlead {c : Char} {r : Rest} (h : suffix ++ rest = c :: r) := hsuffix.lead hrest h
  have hplain {x : Char} (hx : x ∈ ['x', 'X', '.']) (hnot : x.isDigit = false) (r : Rest) :
      digits ++ (suffix ++ rest) ≠ '0' :: x :: r := by
    intro heq
    rw [heq, List.dropWhile_cons_of_pos (by decide), List.dropWhile_cons_of_neg (by simp [hnot])]
      at hdrop
    exact (hlead hdrop.symm).2 hx
  rw [readNumber.eq_3 _ (hplain (by decide) (by decide)) (hplain (by decide) (by decide)), htake,
    hdrop]
  have hfraction : readFraction (suffix ++ rest) = (none, suffix ++ rest) := by
    cases heq : suffix ++ rest with
    | nil => rfl
    | cons c r =>
      have hdot : c ≠ '.' := by
        rintro rfl
        exact (hlead heq).2 (by decide)
      unfold readFraction
      split
      · next h => exact absurd (List.cons.inj h).1 hdot
      · rfl
  have hexponent : readExponent (suffix ++ rest) = .ok (none, suffix ++ rest) := by
    cases heq : suffix ++ rest with
    | nil => rfl
    | cons c r =>
      have hletter : ¬(c == 'e' || c == 'E') = true := by
        simp only [Bool.or_eq_true, beq_iff_eq]
        rintro (rfl | rfl) <;> exact absurd (hlead heq).1 (by decide)
      rw [readExponent, if_neg hletter]
  simp only [hfraction, hexponent]

theorem text_whole (digits : List Char) :
    (Decimal.mk digits none none).text = String.ofList digits := by
  simp [Decimal.text]

theorem finishDecimal_eq (start : Rest) (hsuffix : k.Suffixed suffix) (hrest : Ends rest) :
    finishDecimal start ⟨digits, none, none⟩ (suffix ++ rest) =
      if k.half ≤ digitsValue digits then fail (k.invalid (String.ofList digits)) start
      else .ok (k.literal (digitsValue digits), rest) := by
  cases hsuffix with
  | int =>
    have hint : finishDecimal start ⟨digits, none, none⟩ rest =
        if Nat.pow 2 31 ≤ digitsValue digits then
          fail (.invalidInt (Decimal.mk digits none none).text) start
        else endNumber (Decimal.mk digits none none).text (.int (Int32.ofNat (digitsValue digits)))
          rest := by
      cases rest with
      | nil => rfl
      | cons c r =>
        have hpart := hrest.lead.1
        have hother {d : Char} (hd : isNamePart d = true) : c ≠ d := by
          rintro rfl
          simp [hd] at hpart
        simp [finishDecimal, isLongSuffix, Decimal.isWhole, hother (d := 'l') (by decide),
          hother (d := 'L') (by decide), hother (d := 'f') (by decide),
          hother (d := 'F') (by decide), hother (d := 'd') (by decide),
          hother (d := 'D') (by decide)]
    rw [List.nil_append, hint, endNumber_eq_ok hrest, text_whole]
    rfl
  | upper | lower =>
    have hlong : finishDecimal start ⟨digits, none, none⟩ ('L' :: rest) =
        if Nat.pow 2 63 ≤ digitsValue digits then
          fail (.invalidLong (Decimal.mk digits none none).text) start
        else endNumber (Decimal.mk digits none none).text (.long (Int64.ofNat (digitsValue digits)))
          rest := rfl
    refine hlong.trans ?_
    rw [endNumber_eq_ok hrest, text_whole]
    rfl

theorem readNumber_decimal (hnum : IsNumeral 10 n digits) (hsuffix : k.Suffixed suffix)
    (hrest : Ends rest) :
    readNumber (digits ++ (suffix ++ rest)) =
      if k.half ≤ n then fail (k.invalid (String.ofList digits)) (digits ++ (suffix ++ rest))
      else .ok (k.literal n, rest) := by
  obtain ⟨hdigits, hvalue⟩ := hnum.decimal
  rw [readNumber_whole hdigits hsuffix hrest, finishDecimal_eq _ hsuffix hrest, hvalue]

theorem leastDigits : "2147483648".toList = Nat.toDigits 10 IntegerKind.int.half ∧
    "9223372036854775808".toList = Nat.toDigits 10 IntegerKind.long.half := by
  decide +kernel

/-- The least values are read by their one decimal text only. -/
theorem readLeast?_eq {s : Rest} (hdigits : ∀ c ∈ digits, c.isDigit = true)
    (hsuffix : k.Suffixed suffix) (hrest : Ends rest)
    (hs : skipBlanks s = digits ++ (suffix ++ rest)) :
    readLeast? s = if digits = Nat.toDigits 10 k.half then some (k.least, rest) else none := by
  obtain ⟨htake, hdrop⟩ := takeWhile_decimal hdigits hsuffix hrest
  have hkeep (l : Literal) (b : Prop) [Decidable b] :
      (if b then some (l, rest) else none).filter
        (fun p => !startsWith (fun c => isNamePart c || c == '.') p.2) =
      if b then some (l, rest) else none := by
    have hend : startsWith (fun c => isNamePart c || c == '.') rest = false := hrest
    by_cases hb : b <;> simp [hb, hend]
  rw [readLeast?, hs, htake, hdrop]
  cases hsuffix with
  | int =>
    have hlong : startsWith isLongSuffix rest = false :=
      startsWith_mono isNamePart_of_isLongSuffix hrest.not_namePart
    rw [List.nil_append, hlong, if_neg Bool.false_ne_true, leastDigits.1]
    exact hkeep _ _
  | upper | lower =>
    rw [List.singleton_append, leastDigits.2]
    exact hkeep _ _

/-! ## Runs -/

theorem run_climb (e : Expr) {level : Nat} (hlevel : level ≤ 6) :
    (⟨.climb e level, [], []⟩ : Machine).run = .ok e := by
  have hend : Laid [] [] := .nil (List.forall_mem_nil _)
  induction level with
  | zero => exact run_finished (Machine.climb_finish hend)
  | succ level ih =>
    have hdown : (⟨.climb e (level + 1), [], []⟩ : Machine).step = .more ⟨.climb e level, [], []⟩ :=
      Machine.climb_down [] hend (by simp [Follows]) trivial hlevel
    exact (Reaches.head hdown .refl).run_eq.trans (ih (Nat.le_of_succ_le hlevel))

theorem parse_of_reaches {text : List Char} {e : Expr}
    (h : Reaches (start text) ⟨.climb e 6, [], []⟩) : parse (String.ofList text) = .ok e := by
  rw [parse, String.toList_ofList, h.run_eq, run_climb e (Nat.le_refl 6)]
  rfl

theorem skipBlanks_digits (hne : digits ≠ []) (hdigits : ∀ c ∈ digits, c.isDigit = true)
    (s : Rest) : skipBlanks (digits ++ s) = digits ++ s := by
  obtain ⟨c, r, rfl⟩ := List.exists_cons_of_ne_nil hne
  have hhex : isHexDigit c = true := by simp [isHexDigit, hdigits c List.mem_cons_self]
  exact skipBlanks_cons _ (isBlank_of_isNamePart (isNamePart_of_isHexDigit hhex))

theorem operand_number {s : Rest} (stack : List Pending) (hne : digits ≠ [])
    (hdigits : ∀ c ∈ digits, c.isDigit = true) (hs : skipBlanks s = digits ++ (suffix ++ rest)) :
    Machine.operand stack s =
      Machine.afterLiteral stack (readNumber (digits ++ (suffix ++ rest))) := by
  obtain ⟨c, r, rfl⟩ := List.exists_cons_of_ne_nil hne
  exact Machine.operand_digit stack hs (hdigits c List.mem_cons_self)

theorem parse_invalid {text : List Char} {stack : List Pending} {s : Rest} {shown : String}
    (hreach : Reaches (start text) ⟨.operand, stack, s⟩)
    (hread : Machine.operand stack s =
      Machine.afterLiteral stack (fail (k.invalid shown) (skipBlanks s))) :
    parse (String.ofList text) = .error
      ⟨"Invalid " ++ k.type.name ++ " literal: " ++ shown,
        text.length - (skipBlanks s).length⟩ := by
  have hrun : (⟨.operand, stack, s⟩ : Machine).run = _ := run_finished hread
  rw [parse, String.toList_ofList, hreach.run_eq, hrun, ← k.message_invalid]
  rfl

/-- Wherever a decimal number stands that has no room in its type, the parser refuses it there. -/
theorem parse_large {text : List Char} {stack : List Pending} {s : Rest} (hlarge : k.half ≤ n)
    (hnum : IsNumeral 10 n digits) (hsuffix : k.Suffixed suffix) (hrest : Ends rest)
    (hreach : Reaches (start text) ⟨.operand, stack, s⟩)
    (hs : skipBlanks s = digits ++ (suffix ++ rest)) :
    parse (String.ofList text) = .error
      ⟨"Invalid " ++ k.type.name ++ " literal: " ++ String.ofList digits,
        text.length - (skipBlanks s).length⟩ := by
  refine parse_invalid hreach ?_
  rw [operand_number stack hnum.ne_nil hnum.decimal.1 hs, readNumber_decimal hnum hsuffix hrest,
    if_pos hlarge, hs]

/-- Wherever a hexadecimal number stands that has too many bits, the parser refuses it there. -/
theorem parse_wide {text : List Char} {stack : List Pending} {s : Rest} {x : Char}
    (hwide : 2 ^ k.bits ≤ n) (hx : x = 'x' ∨ x = 'X') (hnum : IsNumeral 16 n digits)
    (hsuffix : k.Suffixed suffix) (hrest : Ends rest)
    (hreach : Reaches (start text) ⟨.operand, stack, s⟩)
    (hs : skipBlanks s = '0' :: x :: (digits ++ (suffix ++ rest))) :
    parse (String.ofList text) = .error
      ⟨"Invalid " ++ k.type.name ++ " literal: " ++ ("0x" ++ String.ofList digits),
        text.length - (skipBlanks s).length⟩ := by
  refine parse_invalid hreach ?_
  rw [Machine.operand_digit stack hs (by decide),
    readNumber_hex hx hnum.isHex hsuffix hrest.not_namePart, if_pos hwide, hs]

/-! ## Whole texts -/

theorem ends_nil : Ends [] := rfl

theorem skipBlanks_decimal (hnum : IsNumeral 10 n digits) (suffix : List Char) :
    skipBlanks (digits ++ suffix) = digits ++ (suffix ++ []) := by
  rw [skipBlanks_digits hnum.ne_nil hnum.decimal.1, List.append_nil]

theorem reaches_literal {stack : List Pending} {s : Rest} {l : Literal}
    (h : Machine.operand stack s = Machine.afterLiteral stack (.ok (l, []))) :
    Reaches ⟨.operand, stack, s⟩ ⟨.climb (.literal l) 6, stack, []⟩ :=
  have hnext : (⟨.operand, stack, s⟩ : Machine).step =
    .more ⟨.postfixed (.literal l), stack, []⟩ := h
  .head hnext (.head rfl .refl)

theorem reaches_decimal (stack : List Pending) (hsmall : n < k.half) (hnum : IsNumeral 10 n digits)
    (hsuffix : k.Suffixed suffix) :
    Reaches ⟨.operand, stack, digits ++ suffix⟩
      ⟨.climb (.literal (k.literal n)) 6, stack, []⟩ := by
  have hread := operand_number stack hnum.ne_nil hnum.decimal.1 (skipBlanks_decimal hnum suffix)
  rw [readNumber_decimal hnum hsuffix ends_nil, if_neg (Nat.not_le.2 hsmall)] at hread
  exact reaches_literal hread

theorem parse_decimal (hsmall : n < k.half) (hnum : IsNumeral 10 n digits)
    (hsuffix : k.Suffixed suffix) :
    parse (String.ofList (digits ++ suffix)) = .ok (.literal (k.literal n)) :=
  parse_of_reaches (reaches_decimal [] hsmall hnum hsuffix)

theorem skipBlanks_hex (x : Char) (digits suffix : List Char) :
    skipBlanks ('0' :: x :: (digits ++ suffix)) = '0' :: x :: (digits ++ (suffix ++ [])) := by
  rw [List.append_nil]
  exact skipBlanks_cons _ (by decide)

theorem parse_hex {x : Char} (hfits : n < 2 ^ k.bits) (hx : x = 'x' ∨ x = 'X')
    (hnum : IsNumeral 16 n digits) (hsuffix : k.Suffixed suffix) :
    parse (String.ofList ('0' :: x :: (digits ++ suffix))) = .ok (.literal (k.literal n)) := by
  have hread := Machine.operand_digit [] (skipBlanks_hex x digits suffix) (by decide)
  rw [readNumber_hex hx hnum.isHex hsuffix rfl, if_neg (Nat.not_le.2 hfits)] at hread
  exact parse_of_reaches (reaches_literal hread)

/-- A minus sign belongs to the digits of the least value and to no others. -/
theorem operand_negative (stack : List Pending) (hnum : IsNumeral 10 n digits)
    (hsuffix : k.Suffixed suffix) :
    Machine.operand stack ('-' :: (digits ++ suffix)) =
      if digits = Nat.toDigits 10 k.half then .more ⟨.climb (.literal k.least) 6, stack, []⟩
      else .more ⟨.operand, .unary .neg :: stack, digits ++ suffix⟩ := by
  rw [Machine.operand_minus stack (skipBlanks_cons _ (by decide)),
    readLeast?_eq hnum.decimal.1 hsuffix ends_nil (skipBlanks_decimal hnum suffix)]
  by_cases hleast : digits = Nat.toDigits 10 k.half
  · rw [if_pos hleast, if_pos hleast]
  · rw [if_neg hleast, if_neg hleast]

theorem parse_least (hsuffix : k.Suffixed suffix) :
    parse (String.ofList ('-' :: (Nat.toDigits 10 k.half ++ suffix))) = .ok (.literal k.least) := by
  have hstep := operand_negative [] (isNumeral_ten k.half) hsuffix
  rw [if_pos rfl] at hstep
  exact parse_of_reaches (Reaches.head hstep .refl)

theorem reaches_negative (hne : n ≠ k.half) (hnum : IsNumeral 10 n digits)
    (hsuffix : k.Suffixed suffix) :
    Reaches (start ('-' :: (digits ++ suffix))) ⟨.operand, [.unary .neg], digits ++ suffix⟩ := by
  have hother : digits ≠ Nat.toDigits 10 k.half := by
    rintro rfl
    exact hne (hnum.decimal.2.symm.trans (isNumeral_ten k.half).decimal.2)
  have hstep := operand_negative [] hnum hsuffix
  rw [if_neg hother] at hstep
  exact Reaches.head hstep .refl

theorem parse_negative (hsmall : n < k.half) (hnum : IsNumeral 10 n digits)
    (hsuffix : k.Suffixed suffix) :
    parse (String.ofList ('-' :: (digits ++ suffix))) =
      .ok (.unary .neg (.literal (k.literal n))) := by
  have hsign := (reaches_negative (Nat.ne_of_lt hsmall) hnum hsuffix).trans
    (reaches_decimal [.unary .neg] hsmall hnum hsuffix)
  exact parse_of_reaches (hsign.tail (Machine.climb_sign [] .neg _))

end Grammar

/-! ## Values -/

open Grammar

/-- A literal of the kind with these bits. -/
inductive Literal.HasBits : Literal → IntegerKind → Nat → Prop
  | int (u : UInt32) : HasBits (.int u.toInt32) .int u.toNat
  | long (u : UInt64) : HasBits (.long u.toInt64) .long u.toNat

theorem hasBits_literal {k : IntegerKind} {n : Nat} (hfits : n < 2 ^ k.bits) :
    (k.literal n).HasBits k n := by
  cases k with
  | int =>
    have hbits := Literal.HasBits.int (UInt32.ofNat n)
    rwa [UInt32.toNat_ofNat_of_lt' hfits] at hbits
  | long =>
    have hbits := Literal.HasBits.long (UInt64.ofNat n)
    rwa [UInt64.toNat_ofNat_of_lt' hfits] at hbits

/-- The expression has the value in every scope. -/
def Expr.Denotes (e : Expr) (v : Value) : Prop :=
  ∀ (σ : Type) (s : Scope), (Scope.meaning s e : Op DebugError σ Meaning) = pure (.value v)

theorem denotes_literal {k : IntegerKind} {n : Nat} (hsmall : n < k.half) :
    ∃ v, v.Whole k.type n ∧ (Expr.literal (k.literal n)).Denotes v := by
  cases k with
  | int =>
    have hvalue := Value.Whole.int (Int32.ofNat n)
    rw [Int32.toInt_ofNat_of_lt hsmall] at hvalue
    exact ⟨_, hvalue, fun _ _ => rfl⟩
  | long =>
    have hvalue := Value.Whole.long (Int64.ofNat n)
    rw [Int64.toInt_ofNat_of_lt hsmall] at hvalue
    exact ⟨_, hvalue, fun _ _ => rfl⟩

theorem denotes_least (k : IntegerKind) :
    ∃ v, v.Whole k.type (-k.half) ∧ (Expr.literal k.least).Denotes v := by
  cases k with
  | int => exact ⟨_, Int32.toInt_minValue ▸ .int Int32.minValue, fun _ _ => rfl⟩
  | long => exact ⟨_, Int64.toInt_minValue ▸ .long Int64.minValue, fun _ _ => rfl⟩

theorem holds_iff {k : IntegerKind} {z : Int} : k.type.Holds z ↔ -k.half ≤ z ∧ z < k.half := by
  cases k <;>
    simp [WholeType.Holds, WholeType.least, WholeType.bits, IntegerKind.half, IntegerKind.type,
      IntegerKind.bits]

/-- Where there is room for the negative number, negation gives it. -/
theorem denotes_negative {k : IntegerKind} {n : Nat} (hsmall : n < k.half) :
    ∃ v, v.Whole k.type (-n) ∧ (Expr.unary .neg (.literal (k.literal n))).Denotes v := by
  obtain ⟨v, hv, hliteral⟩ := denotes_literal hsmall
  obtain ⟨r, hr, m, hm, hmod⟩ := Value.negate_whole hv
  have hpromote : k.type.promote .int = k.type := by cases k <;> rfl
  rw [hpromote] at hm hmod
  have hroom : k.type.Holds (-n) := holds_iff.2 ⟨by omega, by omega⟩
  rw [hm.holds.eq_of_modEq hroom hmod] at hm
  refine ⟨r, hm, fun σ s => ?_⟩
  rw [Scope.meaning, hliteral σ s]
  show Scope.ofValue (Op.ofExcept v.negate) = _
  rw [hr]
  rfl

theorem evaluate_denoted {σ : Type} {source : String} {e : Expr} {v : Value} {k : IntegerKind}
    {z : Int} (hparse : parse source = .ok e) (he : e.Denotes v) (hv : v.Whole k.type z)
    (t : ThreadId) (f : Frame) :
    evaluate t f source =
      (do let _ ← Scope.read t f; return ⟨v, toString z, k.type.name⟩ :
        Op DebugError σ Evaluation) := by
  have hshown : (Display.value v : Op DebugError σ String) = pure (toString z) ∧
      v.typeName = k.type.name := by
    cases k with
    | int | long =>
      cases hv
      exact ⟨rfl, rfl⟩
  have hscope (s : Scope) : (s.evaluate e : Op DebugError σ Evaluation) =
      return ⟨v, toString z, k.type.name⟩ := by
    rw [Scope.evaluate, he σ s]
    show (Display.value v >>= fun shown => pure (Evaluation.mk v shown v.typeName) :
      Op DebugError σ Evaluation) = _
    rw [hshown.1, hshown.2]
    rfl
  rw [evaluate, hparse]
  show (Scope.read t f >>= fun s => s.evaluate e) = _
  simp only [hscope]

/-! ## Integers -/

/-- What the texts of integers of a kind come to. -/
structure IntegersExact (k : IntegerKind) (suffix : List Char) : Prop where
  decimal : ∀ z, k.type.Holds z → ∃ v, v.Whole k.type z ∧ ∀ (σ : Type) (t : ThreadId) (f : Frame),
    evaluate t f (toString z ++ String.ofList suffix) =
      (do let _ ← Scope.read t f; return ⟨v, toString z, k.type.name⟩ : Op DebugError σ Evaluation)
  hex : ∀ n digits x, n < 2 ^ k.bits → IsNumeral 16 n digits → (x = 'x' ∨ x = 'X') →
    ∃ l : Literal, l.HasBits k n ∧
      parse (String.ofList ('0' :: x :: (digits ++ suffix))) = .ok (.literal l)
  large : ∀ n digits, k.half ≤ n → IsNumeral 10 n digits →
    parse (String.ofList (digits ++ suffix)) =
      .error ⟨"Invalid " ++ k.type.name ++ " literal: " ++ String.ofList digits, 0⟩
  belowLeast : ∀ n digits, k.half < n → IsNumeral 10 n digits →
    parse (String.ofList ('-' :: (digits ++ suffix))) =
      .error ⟨"Invalid " ++ k.type.name ++ " literal: " ++ String.ofList digits, 1⟩
  wide : ∀ n digits x, 2 ^ k.bits ≤ n → IsNumeral 16 n digits → (x = 'x' ∨ x = 'X') →
    parse (String.ofList ('0' :: x :: (digits ++ suffix))) =
      .error ⟨"Invalid " ++ k.type.name ++ " literal: " ++ ("0x" ++ String.ofList digits), 0⟩

theorem text_nonnegative (n : Nat) (suffix : List Char) :
    toString (n : Int) ++ String.ofList suffix = String.ofList (Nat.toDigits 10 n ++ suffix) := by
  rw [String.ofList_append]
  rfl

theorem text_negative (n : Nat) (suffix : List Char) :
    toString (Int.negSucc n) ++ String.ofList suffix =
      String.ofList ('-' :: (Nat.toDigits 10 (n + 1) ++ suffix)) := by
  show String.ofList ['-'] ++ String.ofList (Nat.toDigits 10 (n + 1)) ++ String.ofList suffix = _
  rw [← String.ofList_append, ← String.ofList_append]
  rfl

/-- A number that has room in its type and no other is read from its text. -/
theorem exists_denoted {k : IntegerKind} {suffix : List Char} (hsuffix : k.Suffixed suffix)
    {z : Int} (hz : k.type.Holds z) :
    ∃ e v, parse (toString z ++ String.ofList suffix) = .ok e ∧ e.Denotes v ∧ v.Whole k.type z := by
  obtain ⟨hleast, hsmall⟩ := holds_iff.1 hz
  cases z with
  | ofNat n =>
    have hn : n < k.half := Int.ofNat_lt.1 hsmall
    obtain ⟨v, hv, hdenotes⟩ := denotes_literal hn
    exact ⟨_, v, (text_nonnegative n suffix) ▸ parse_decimal hn (isNumeral_ten n) hsuffix, hdenotes,
      hv⟩
  | negSucc n =>
    have hn : n + 1 ≤ k.half := by omega
    rw [text_negative]
    -- without its sign the least value is none of the type, so the parser reads it with the sign
    rcases Nat.lt_or_eq_of_le hn with hn | hn
    · obtain ⟨v, hv, hdenotes⟩ := denotes_negative hn
      exact ⟨_, v, parse_negative hn (isNumeral_ten _) hsuffix, hdenotes, hv⟩
    · obtain ⟨v, hv, hdenotes⟩ := denotes_least k
      rw [← hn] at hv
      refine ⟨_, v, ?_, hdenotes, hv⟩
      rw [hn]
      exact parse_least hsuffix

theorem integers_exact {k : IntegerKind} {suffix : List Char} (hsuffix : k.Suffixed suffix) :
    IntegersExact k suffix where
  decimal z hz := by
    obtain ⟨e, v, hparse, hdenotes, hv⟩ := exists_denoted hsuffix hz
    exact ⟨v, hv, fun σ t f => evaluate_denoted hparse hdenotes hv t f⟩
  hex n digits x hfits hnum hx := ⟨_, hasBits_literal hfits, parse_hex hfits hx hnum hsuffix⟩
  large n digits hlarge hnum := by
    have hs := skipBlanks_decimal hnum suffix
    have hparse := parse_large hlarge hnum hsuffix ends_nil .refl hs
    rwa [hs, List.append_nil, Nat.sub_self] at hparse
  belowLeast n digits hlarge hnum := by
    have hs := skipBlanks_decimal hnum suffix
    have hparse := parse_large (Nat.le_of_lt hlarge) hnum hsuffix ends_nil
      (reaches_negative (Nat.ne_of_gt hlarge) hnum hsuffix) hs
    rwa [hs, List.append_nil, List.length_cons, Nat.add_sub_cancel_left] at hparse
  wide n digits x hwide hnum hx := by
    have hs := skipBlanks_hex x digits suffix
    have hparse := parse_wide hwide hx hnum hsuffix ends_nil .refl hs
    rwa [hs, List.append_nil, Nat.sub_self] at hparse

/-- The least `long` and what is one below it. -/
theorem integers_exact_long :
    IntegerKind.long.Suffixed ['L'] ∧
      (∃ v, v.Whole .long (-2 ^ 63) ∧ ∀ (t : ThreadId) (f : Frame),
        evaluate t f "-9223372036854775808L" =
          (do let _ ← Scope.read t f; return ⟨v, "-9223372036854775808", "long"⟩ :
            Op DebugError Unit Evaluation)) ∧
      parse "-9223372036854775809L" =
        .error ⟨"Invalid long literal: 9223372036854775809", 1⟩ := by
  have hexact := integers_exact .upper
  refine ⟨.upper, ?_, ?_⟩
  · obtain ⟨v, hv, heval⟩ := hexact.decimal (-2 ^ 63) ⟨by decide, by decide⟩
    exact ⟨v, hv, fun t f => heval Unit t f⟩
  · exact hexact.belowLeast 9223372036854775809 "9223372036854775809".toList (by decide)
      ⟨0, by decide +kernel⟩

end JvmDebug
