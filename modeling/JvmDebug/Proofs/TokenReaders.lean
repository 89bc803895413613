import JvmDebug.Grammar.Progress
import JvmDebug.Proofs.WrittenForm
import Mathlib.Algebra.Group.Nat.Defs
import Mathlib.Data.List.DropRight

/-!
What the readers of the parser find in a text of tokens: each reads its token and leaves a text of
the tokens that follow.
-/
namespace JvmDebug.Grammar
open Text

/-! ## Classes of characters -/

/-- The blanks beyond ASCII. -/
def wideBlanks : List Nat :=
  [0x85, 0xa0, 0x1680, 0x2000, 0x2001, 0x2002, 0x2003, 0x2004, 0x2005, 0x2006, 0x2007, 0x2008,
    0x2009, 0x200a, 0x2028, 0x2029, 0x202f, 0x205f, 0x3000]

theorem notMem_wideBlanks {n : Nat} (h : n ∈ wideBlanks) :
    (alphabeticRanges.any fun r => r.1 ≤ n && n ≤ r.2) = false ∧
      (numericRanges.any fun r => r.1 ≤ n && n ≤ r.2) = false := by
  revert n
  decide +kernel

theorem ascii_cases {c : Char} (h : c.toNat < 0x80) : ∃ n : Fin 128, c = Char.ofNat n :=
  ⟨⟨c.toNat, h⟩, (Char.ofNat_toNat c).symm⟩

/-- What is the case for every ASCII character by computation. -/
theorem ascii_all (p : Char → Bool) (hp : ∀ n : Fin 128, p (Char.ofNat n) = true) {c : Char}
    (h : c.toNat < 0x80) : p c = true := by
  obtain ⟨n, rfl⟩ := ascii_cases h
  exact hp n

theorem isBlank_of_isNamePart {c : Char} (h : isNamePart c = true) : isBlank c = false := by
  by_cases hc : c.toNat < 0x80
  · have := ascii_all (fun c => !(isNamePart c && isBlank c)) (by decide +kernel) hc
    simpa [h] using this
  · by_contra hblank
    have hwide : c.toNat ∈ wideBlanks := by
      simp only [isBlank, Bool.or_eq_true, Bool.and_eq_true, decide_eq_true_eq,
        beq_iff_eq, Bool.not_eq_false] at hblank
      simp only [wideBlanks, List.mem_cons, List.not_mem_nil]
      omega
    obtain ⟨hletter, hnumber⟩ := notMem_wideBlanks hwide
    have hunder : c ≠ '_' := by rintro rfl; simp at hc
    have hdollar : c ≠ '$' := by rintro rfl; simp at hc
    simp [isNamePart, isLetter, isNumber, inRanges, hc, hletter, hnumber, hunder, hdollar] at h

theorem isDigit_lt {c : Char} (h : c.isDigit = true) : c.toNat < 0x80 := by
  simp only [Char.isDigit, Bool.and_eq_true, decide_eq_true_eq] at h
  have : c.toNat ≤ 57 := h.2
  omega

theorem isDigit_of_isNameStart {c : Char} (h : isNameStart c = true) : c.isDigit = false := by
  by_contra hdigit
  have := ascii_all (fun c => !(isNameStart c && c.isDigit)) (by decide +kernel)
    (isDigit_lt (Bool.not_eq_false _ ▸ hdigit))
  simp [h] at this
  exact hdigit this

theorem isHexDigit_lt {c : Char} (h : isHexDigit c = true) : c.toNat < 0x80 := by
  simp only [isHexDigit, Bool.or_eq_true, Bool.and_eq_true, decide_eq_true_eq] at h
  rcases h with (h | h) | h
  · exact isDigit_lt h
  · have : c.toNat ≤ 102 := h.2
    omega
  · have : c.toNat ≤ 70 := h.2
    omega

theorem isNamePart_of_isHexDigit {c : Char} (h : isHexDigit c = true) : isNamePart c = true := by
  have := ascii_all (fun c => !isHexDigit c || isNamePart c) (by decide +kernel) (isHexDigit_lt h)
  simpa [h] using this

theorem isNamePart_of_isNameStart {c : Char} (h : isNameStart c = true) : isNamePart c = true := by
  simp only [isNameStart, isNamePart, Bool.or_eq_true] at *
  tauto

/-! ## The next token -/

theorem skipBlanks_append {gap s : List Char} (h : ∀ c ∈ gap, isBlank c = true) :
    skipBlanks (gap ++ s) = skipBlanks s :=
  List.dropWhile_append_of_pos h

theorem skipBlanks_cons {c : Char} (s : List Char) (h : isBlank c = false) :
    skipBlanks (c :: s) = c :: s :=
  List.dropWhile_cons_of_neg (by simp [h])

/-- The first character of a token. -/
def Token.Begins (c : Char) : Token → Prop
  | .word _ | .call _ => isNameStart c = true
  | .literal (.int _) | .literal (.long _) => c = '0'
  | .literal (.char _) => c = '\''
  | .literal (.string _) => c = '"'
  | .literal _ => False
  | .operator op => op.symbol.toList.head? = some c
  | .sign op => c = op.symbol
  | .mark m => c = m ∧ m ∈ marks

theorem Token.Spelled.begins {token : Token} {text : List Char} (h : token.Spelled text) :
    ∃ c r, text = c :: r ∧ token.Begins c := by
  cases h with
  | word hname =>
    obtain ⟨c, r, htext, hc, -⟩ := hname
    exact ⟨c, r, htext, hc⟩
  | call hname =>
    obtain ⟨c, r, htext, hc, -⟩ := hname
    exact ⟨c, r ++ ['('], by rw [htext, List.cons_append], hc⟩
  | int | long | char | string | sign => exact ⟨_, _, rfl, rfl⟩
  | mark hc => exact ⟨_, _, rfl, rfl, hc⟩
  | @operator op => cases op <;> exact ⟨_, _, rfl, rfl⟩

theorem Token.Begins.isBlank {token : Token} {c : Char} (h : token.Begins c) :
    isBlank c = false := by
  cases token with
  | word | call => exact isBlank_of_isNamePart (isNamePart_of_isNameStart h)
  | literal l =>
    cases l <;> first
      | exact h.elim
      | (cases h; decide)
  | operator op =>
    cases op <;> (cases h; decide)
  | sign op => cases op <;> (cases h; decide)
  | mark m =>
    obtain ⟨rfl, hm⟩ := h
    have hall : marks.all (fun c => !Text.isBlank c) = true := by decide
    simpa using List.all_eq_true.1 hall c hm

/-- The text of the next token follows on some blanks, and after it come the tokens that are left. -/
theorem Laid.next {token : Token} {tokens : List Token} {s : Rest} (h : Laid (token :: tokens) s) :
    ∃ text rest, skipBlanks s = text ++ rest ∧ token.Spelled text ∧ Laid tokens rest ∧
      (token.isWordOrNumber = true → startsWith isNamePart rest = false) := by
  cases h with
  | @cons gap _ text _ rest hgap htext hapart hrest =>
    refine ⟨text, rest, ?_, htext, hrest, hapart⟩
    obtain ⟨c, r, rfl, hc⟩ := htext.begins
    rw [List.append_assoc, skipBlanks_append hgap, List.cons_append, skipBlanks_cons _ hc.isBlank]

theorem Laid.lead {token : Token} {tokens : List Token} {s : Rest} (h : Laid (token :: tokens) s) :
    ∃ c r, skipBlanks s = c :: r ∧ token.Begins c := by
  obtain ⟨text, rest, hs, htext, -⟩ := h.next
  obtain ⟨c, r, rfl, hc⟩ := htext.begins
  exact ⟨c, r ++ rest, by rw [hs, List.cons_append], hc⟩

theorem Laid.ended {s : Rest} (h : Laid [] s) : skipBlanks s = [] := by
  cases h with
  | nil hgap => exact List.dropWhile_eq_nil_iff.2 hgap

theorem Laid.skip {tokens : List Token} {s : Rest} (h : Laid tokens s) :
    Laid tokens (skipBlanks s) := by
  cases tokens with
  | nil =>
    rw [h.ended]
    exact .nil (by simp)
  | cons token tokens =>
    obtain ⟨text, rest, hs, htext, hrest, hapart⟩ := h.next
    rw [hs]
    exact .cons (List.forall_mem_nil _) htext hapart hrest

/-- The first character that is no blank, if there is one. -/
def lead? (s : Rest) : Option Char := (skipBlanks s).head?

theorem Laid.lead?_of_head {tokens : List Token} {s : Rest} (h : Laid tokens s) {P : Char → Prop}
    (hP : ∀ token ∈ tokens.head?, ∀ c, token.Begins c → P c) : ∀ c ∈ lead? s, P c := by
  cases tokens with
  | nil => simp [lead?, h.ended]
  | cons token tokens =>
    obtain ⟨c, r, hs, hc⟩ := h.lead
    simpa [lead?, hs] using hP token rfl c hc

theorem Laid.mark {m : Char} {tokens : List Token} {s : Rest} (h : Laid (.mark m :: tokens) s) :
    ∃ rest, skipBlanks s = m :: rest ∧ Laid tokens rest := by
  obtain ⟨text, rest, hs, htext, hrest, -⟩ := h.next
  cases htext
  exact ⟨rest, hs, hrest⟩

theorem Laid.word {name : String} {tokens : List Token} {s : Rest}
    (h : Laid (.word name :: tokens) s) :
    ∃ rest, skipBlanks s = name.toList ++ rest ∧ IsName name ∧ Laid tokens rest ∧
      startsWith isNamePart rest = false := by
  obtain ⟨text, rest, hs, htext, hrest, hapart⟩ := h.next
  cases htext with
  | word hname => exact ⟨rest, hs, hname, hrest, hapart rfl⟩

theorem Laid.call {name : String} {tokens : List Token} {s : Rest}
    (h : Laid (.call name :: tokens) s) :
    ∃ rest, skipBlanks s = name.toList ++ '(' :: rest ∧ IsName name ∧ Laid tokens rest := by
  obtain ⟨text, rest, hs, htext, hrest, -⟩ := h.next
  cases htext with
  | call hname => exact ⟨rest, by rw [hs, List.append_assoc]; rfl, hname, hrest⟩

/-! ## Signs -/

theorem eat?_eq_none {token : String} {s : Rest} {c : Char} {r : List Char}
    (htoken : token.toList = c :: r) (h : c ∉ lead? s) : eat? token s = none := by
  rw [eat?, htoken]
  cases hs : skipBlanks s with
  | nil => rfl
  | cons d q =>
    rw [afterPrefix?, if_neg]
    rintro rfl
    exact h (by simp [lead?, hs])

theorem eat?_eq_some {token : String} {s r : Rest} (h : skipBlanks s = token.toList ++ r) :
    eat? token s = some r :=
  afterPrefix?_eq_some.2 h

theorem expect_eq_ok {c : Char} {s r : Rest} (h : skipBlanks s = c :: r) : expect c s = .ok r := by
  simp [expect, h]

/-! ## Names -/

theorem startsWith_mono {p q : Char → Bool} (hpq : ∀ c, p c = true → q c = true) {s : Rest}
    (h : startsWith q s = false) : startsWith p s = false := by
  cases s with
  | nil => rfl
  | cons c r =>
    refine Bool.eq_false_iff.2 fun hc => ?_
    have hq : q c = false := h
    rw [hpq c hc] at hq
    cases hq

theorem takeWhile_run {p : Char → Bool} {r rest : List Char} (hr : ∀ d ∈ r, p d = true)
    (hrest : startsWith p rest = false) :
    (r ++ rest).takeWhile p = r ∧ (r ++ rest).dropWhile p = rest := by
  rw [List.takeWhile_append_of_pos hr, List.dropWhile_append_of_pos hr]
  cases rest with
  | nil => simp
  | cons c q =>
    have : p c = false := hrest
    simp [this]

theorem readName_eq_ok {name : String} {s rest : Rest} (hname : IsName name)
    (hs : skipBlanks s = name.toList ++ rest) (hrest : startsWith isNamePart rest = false) :
    readName s = .ok (name, rest) := by
  obtain ⟨c, r, htext, hc, hr⟩ := hname
  obtain ⟨htake, hdrop⟩ := takeWhile_run hr hrest
  rw [htext, List.cons_append] at hs
  simp only [readName, hs, hc, if_true, htake, hdrop, ← htext, String.ofList_toList]


/-! ## Type names -/

/-- The text does not go on like a type name. -/
def EndsType (s : Rest) : Prop :=
  '.' ∉ lead? s ∧ ∀ r, skipBlanks s = '[' :: r → ']' ∉ lead? r

def qualifierTokens (names : List String) : List Token :=
  names.flatMap fun name => [.mark '.', .word name]

def dimensionTokens (count : Nat) : List Token :=
  (List.replicate count [Token.mark '[', .mark ']']).flatten

theorem typeTokens_name {name : String} (hname : IsName name) {s : List Char}
    (hs : startsWith isNamePart s = false) :
    typeTokens (name.toList ++ s) = .word name :: typeTokens s := by
  obtain ⟨c, r, htext, hc, hr⟩ := hname
  obtain ⟨htake, hdrop⟩ := takeWhile_run hr hs
  rw [htext, List.cons_append, typeTokens, if_pos (isNamePart_of_isNameStart hc), htake, hdrop,
    ← htext, String.ofList_toList]

theorem typeTokens_mark {c : Char} (hc : isNamePart c = false) (s : List Char) :
    typeTokens (c :: s) = .mark c :: typeTokens s := by
  rw [typeTokens, if_neg (by simp [hc])]

theorem typeTokens_dimensions (count : Nat) :
    typeTokens (dimensions count) = dimensionTokens count := by
  induction count with
  | zero => simp [dimensions, dimensionTokens, typeTokens]
  | succ count ih =>
    have htext : dimensions (count + 1) = '[' :: ']' :: dimensions count := rfl
    rw [htext, typeTokens_mark (by decide), typeTokens_mark (by decide), ih]
    rfl

theorem startsWith_dimensions (count : Nat) : startsWith isNamePart (dimensions count) = false := by
  cases count with
  | zero => rfl
  | succ count => exact (by decide : isNamePart '[' = false)

theorem startsWith_qualifiers (names : List String) {s : List Char}
    (hs : startsWith isNamePart s = false) :
    startsWith isNamePart (qualifiers names ++ s) = false := by
  cases names with
  | nil => exact hs
  | cons name names => exact (by decide : isNamePart '.' = false)

theorem typeTokens_qualifiers {names : List String} (hnames : ∀ name ∈ names, IsName name)
    (count : Nat) : typeTokens (qualifiers names ++ dimensions count) =
      qualifierTokens names ++ dimensionTokens count := by
  induction names with
  | nil => exact typeTokens_dimensions count
  | cons name names ih =>
    have htext : qualifiers (name :: names) ++ dimensions count =
        '.' :: (name.toList ++ (qualifiers names ++ dimensions count)) := by
      simp [qualifiers]
    rw [htext, typeTokens_mark (by decide), typeTokens_name (hnames name (by simp))
      (startsWith_qualifiers names (startsWith_dimensions count)),
      ih fun n hn => hnames n (List.mem_cons_of_mem _ hn)]
    rfl

theorem readQualifiers_cons {s r t : Rest} {c : Char} (hs : skipBlanks s = '.' :: r)
    (hr : skipBlanks r = c :: t) (hc : isNameStart c = true) :
    readQualifiers s = ('.' :: c :: t.takeWhile isNamePart ++
      (readQualifiers (t.dropWhile isNamePart)).1, (readQualifiers (t.dropWhile isNamePart)).2) := by
  rw [readQualifiers]
  split
  · next r' hs' =>
    cases hs.symm.trans hs'
    split
    · next c' t' hr' =>
      cases hr.symm.trans hr'
      rw [if_pos hc]
    · next hr' => cases hr.symm.trans hr'
  · next hs' => exact absurd hs (hs' r)

theorem readDimensions_cons {s r t : Rest} (hs : skipBlanks s = '[' :: r)
    (hr : skipBlanks r = ']' :: t) :
    readDimensions s = ('[' :: ']' :: (readDimensions t).1, (readDimensions t).2) := by
  rw [readDimensions]
  split
  · next r' hs' =>
    cases hs.symm.trans hs'
    split
    · next t' hr' => cases hr.symm.trans hr'; rfl
    · next hr' => exact absurd hr (hr' t)
  · next hs' => exact absurd hs (hs' r)

theorem readQualifiers_laid {names : List String} {tokens : List Token} {s : Rest}
    (h : Laid (qualifierTokens names ++ tokens) s)
    (hend : ∀ s, Laid tokens s → '.' ∉ lead? s) :
    ∃ rest, readQualifiers s = (qualifiers names, rest) ∧ Laid tokens rest := by
  induction names generalizing s with
  | nil =>
    refine ⟨s, ?_, h⟩
    have hlead := hend s h
    rw [readQualifiers]
    split
    · next r hs => simp [lead?, hs] at hlead
    · rfl
  | cons name names ih =>
    obtain ⟨r, hs, hr⟩ := Laid.mark h
    obtain ⟨q, hr', ⟨c, t, htext, hc, ht⟩, hq, hapart⟩ := hr.word
    obtain ⟨rest, hread, hrest⟩ := ih hq
    obtain ⟨htake, hdrop⟩ := takeWhile_run ht hapart
    refine ⟨rest, ?_, hrest⟩
    rw [htext, List.cons_append] at hr'
    rw [readQualifiers_cons hs hr' hc, htake, hdrop, hread]
    simp [qualifiers, htext]

theorem readDimensions_laid {count : Nat} {tokens : List Token} {s : Rest}
    (h : Laid (dimensionTokens count ++ tokens) s) (hend : ∀ s, Laid tokens s → EndsType s) :
    ∃ rest, readDimensions s = (dimensions count, rest) ∧ Laid tokens rest := by
  induction count generalizing s with
  | zero =>
    refine ⟨s, ?_, h⟩
    have hlead := (hend s h).2
    rw [readDimensions]
    split
    · next r hs =>
      have := hlead r hs
      split
      · next t hr => simp [lead?, hr] at this
      · rfl
    · rfl
  | succ count ih =>
    obtain ⟨r, hs, hr⟩ := Laid.mark h
    obtain ⟨t, hr', ht⟩ := Laid.mark hr
    obtain ⟨rest, hread, hrest⟩ := ih ht
    refine ⟨rest, ?_, hrest⟩
    rw [readDimensions_cons hs hr', hread]
    rfl

theorem readTypeName_laid {typeName : String} {tokens : List Token} {s : Rest}
    (htype : IsTypeName typeName) (h : Laid (typeTokens typeName.toList ++ tokens) s)
    (hend : ∀ s, Laid tokens s → EndsType s) :
    ∃ rest, readTypeName s = .ok (typeName, rest) ∧ Laid tokens rest := by
  obtain ⟨first, names, count, hfirst, hnames, htext⟩ := htype
  rw [htext, List.append_assoc, typeTokens_name hfirst
    (startsWith_qualifiers names (startsWith_dimensions count)),
    typeTokens_qualifiers hnames, List.cons_append, List.append_assoc] at h
  rw [List.append_assoc] at htext
  obtain ⟨r, hs, -, hr, hapart⟩ := h.word
  have hdot : ∀ s, Laid (dimensionTokens count ++ tokens) s → '.' ∉ lead? s := by
    intro s hs
    cases count with
    | zero => exact (hend s hs).1
    | succ count =>
      obtain ⟨q, hq, -⟩ := Laid.mark hs
      simp [lead?, hq]
  obtain ⟨q, hread, hq⟩ := readQualifiers_laid hr hdot
  obtain ⟨rest, hread', hrest⟩ := readDimensions_laid hq hend
  refine ⟨rest, ?_, hrest⟩
  simp only [readTypeName, readName_eq_ok hfirst hs hapart, hread, hread', List.append_assoc,
    ← htext, String.ofList_toList]

/-! ## Literals -/

theorem readStringBody_escapes {start rest : Rest} {text body : List Char}
    (h : EscapesAll '"' text body) : readStringBody start (body ++ '"' :: rest) = .ok (text, rest) := by
  induction h with
  | nil => rfl
  | @cons c s text body hc htext ih =>
    cases hc with
    | plain hquote hbackslash =>
      simp only [List.cons_append, List.nil_append]
      rw [readStringBody.eq_5 _ _ _ (by simpa using hquote) (by simp_all) (by simp_all), ih]
      rfl
    | escaped hd =>
      simp only [List.cons_append, List.nil_append, readStringBody, ih, ← hd]
      rfl

theorem readCharBody_escapes {start rest : Rest} {c : Char} {s : List Char}
    (h : Escapes '\'' c s) (hc : c.toNat < 0x10000) :
    readCharBody start (s ++ '\'' :: rest) = .ok (c.toNat.toUInt16, rest) := by
  cases h with
  | plain hquote hbackslash =>
    have hread : readCharBody start (c :: '\'' :: rest) = closeChar start c ('\'' :: rest) :=
      readCharBody.eq_5 _ _ _ (by simp_all) (by simp_all) (by simpa using hquote)
    simp [hread, closeChar, hc]
  | escaped hd =>
    subst hd
    simp [readCharBody, closeChar, hc]

theorem Int32.ofNat_bits (n : Int32) : Int32.ofNat n.toUInt32.toNat = n := by
  simp [← Int32.toBitVec_inj]

theorem Int64.ofNat_bits (n : Int64) : Int64.ofNat n.toUInt64.toNat = n := by
  simp [← Int64.toBitVec_inj]


/-- The two kinds of integer literals. -/
inductive IntegerKind
  | int | long
  deriving DecidableEq, Repr

namespace IntegerKind

def bits : IntegerKind → Nat
  | int => 32
  | long => 64

def literal : IntegerKind → Nat → Literal
  | int, n => .int (Int32.ofNat n)
  | long, n => .long (Int64.ofNat n)

def invalid : IntegerKind → String → FaultKind
  | int => .invalidInt
  | long => .invalidLong

/-- How a literal of the kind ends. -/
inductive Suffixed : IntegerKind → List Char → Prop
  | int : Suffixed .int []
  | upper : Suffixed .long ['L']
  | lower : Suffixed .long ['l']

end IntegerKind

theorem isNamePart_of_isLongSuffix (c : Char) (h : isLongSuffix c = true) :
    isNamePart c = true := by
  simp only [isLongSuffix, Bool.or_eq_true, beq_iff_eq] at h
  rcases h with rfl | rfl <;> decide

section
variable {k : IntegerKind} {suffix digits : List Char} {rest : Rest} {n : Nat}

theorem IntegerKind.Suffixed.not_hexDigit (hsuffix : k.Suffixed suffix)
    (hrest : startsWith isNamePart rest = false) :
    startsWith isHexDigit (suffix ++ rest) = false := by
  cases hsuffix with
  | int => exact startsWith_mono (fun _ => isNamePart_of_isHexDigit) hrest
  | upper => exact (by decide : isHexDigit 'L' = false)
  | lower => exact (by decide : isHexDigit 'l' = false)

theorem readHex_eq (start : Rest) (hhex : IsHex n digits) (hsuffix : k.Suffixed suffix)
    (hrest : startsWith isNamePart rest = false) :
    readHex start (digits ++ (suffix ++ rest)) =
      if 2 ^ k.bits ≤ n then fail (k.invalid ("0x" ++ String.ofList digits)) start
      else .ok (k.literal n, rest) := by
  obtain ⟨hne, hdigits, hvalue⟩ := hhex
  obtain ⟨htake, hdrop⟩ := takeWhile_run hdigits (hsuffix.not_hexDigit hrest)
  have hempty : digits.isEmpty = false := by simpa using hne
  have hend (text : String) (l : Literal) : endNumber text l rest = .ok (l, rest) := by
    rw [endNumber, hrest]
    rfl
  rw [readHex, htake, hdrop, hempty, hvalue]
  cases hsuffix with
  | int =>
    have hlong : startsWith isLongSuffix rest = false :=
      startsWith_mono isNamePart_of_isLongSuffix hrest
    simp only [List.nil_append, hlong, hend, Bool.false_or, decide_eq_true_iff]
    rfl
  | upper | lower =>
    simp only [List.singleton_append, List.drop_one, List.tail_cons, hend, Bool.false_or,
      decide_eq_true_iff]
    rfl

theorem readNumber_hex {x : Char} (hx : x = 'x' ∨ x = 'X') (hhex : IsHex n digits)
    (hsuffix : k.Suffixed suffix) (hrest : startsWith isNamePart rest = false) :
    readNumber ('0' :: x :: (digits ++ (suffix ++ rest))) =
      if 2 ^ k.bits ≤ n then
        fail (k.invalid ("0x" ++ String.ofList digits)) ('0' :: x :: (digits ++ (suffix ++ rest)))
      else .ok (k.literal n, rest) := by
  rcases hx with rfl | rfl <;> exact readHex_eq _ hhex hsuffix hrest

end

/-! ## Operators -/

theorem eatOperator?_eq_some {token : String} {s r : Rest} (h : skipBlanks s = token.toList ++ r)
    (hr : startsWith (· == '=') r = false) : eatOperator? token s = some r := by
  simp [eatOperator?, eat?_eq_some h, hr]

theorem eatOperator?_eq_none {token : String} {s : Rest} {c : Char} {r : List Char}
    (htoken : token.toList = c :: r) (h : c ∉ lead? s) : eatOperator? token s = none := by
  simp [eatOperator?, eat?_eq_none htoken h]

namespace Machine

theorem operator?_spec {level : Nat} {s r : Rest} {op : BinaryOp}
    (h : operator? level s = some (op, r)) : op.level = level ∧ eat? op.symbol s = some r := by
  have plain (o : BinaryOp) (hm : (eat? o.symbol s).map (fun q => (o, q)) = some (op, r)) :
      o = op ∧ eat? op.symbol s = some r := by
    obtain ⟨q, hq, hp⟩ := Option.map_eq_some_iff.1 hm
    cases hp
    exact ⟨rfl, hq⟩
  have guarded (o : BinaryOp) (hm : (eatOperator? o.symbol s).map (fun q => (o, q)) = some (op, r)) :
      o = op ∧ eat? op.symbol s = some r := by
    obtain ⟨q, hq, hp⟩ := Option.map_eq_some_iff.1 hm
    cases hp
    exact ⟨rfl, (Option.filter_eq_some_iff.1 hq).1⟩
  unfold operator? at h
  split at h <;> simp only [Option.or_eq_some_iff] at h
  · obtain ⟨rfl, hr⟩ := plain _ h; exact ⟨rfl, hr⟩
  · obtain ⟨rfl, hr⟩ := plain _ h; exact ⟨rfl, hr⟩
  · rcases h with h | ⟨-, h⟩ <;> (obtain ⟨rfl, hr⟩ := plain _ h; exact ⟨rfl, hr⟩)
  · rcases h with h | ⟨-, h | ⟨-, h | ⟨-, h⟩⟩⟩ <;> (obtain ⟨rfl, hr⟩ := plain _ h; exact ⟨rfl, hr⟩)
  · rcases h with h | ⟨-, h⟩ <;> (obtain ⟨rfl, hr⟩ := guarded _ h; exact ⟨rfl, hr⟩)
  · rcases h with h | ⟨-, h | ⟨-, h⟩⟩ <;> (obtain ⟨rfl, hr⟩ := guarded _ h; exact ⟨rfl, hr⟩)
  · cases h

theorem operator?_eq_none {level : Nat} {s : Rest}
    (h : ∀ op : BinaryOp, op.level = level → ∀ c ∈ op.symbol.toList.head?, c ∉ lead? s) :
    operator? level s = none := by
  refine Option.eq_none_iff_forall_ne_some.2 fun ⟨op, r⟩ hread => ?_
  obtain ⟨hlevel, hr⟩ := operator?_spec hread
  have hlead := h op hlevel
  obtain ⟨c, q, hsymbol⟩ : ∃ c q, op.symbol.toList = c :: q := by cases op <;> exact ⟨_, _, rfl⟩
  rw [eat?_eq_none hsymbol (hlead c (by simp [hsymbol]))] at hr
  cases hr

theorem operator?_eq_some {op : BinaryOp} {s r : Rest} (h : skipBlanks s = op.symbol.toList ++ r)
    (hr : startsWith (· == '=') r = false) : operator? op.level s = some (op, r) := by
  have hsome := eat?_eq_some h
  have hguarded := eatOperator?_eq_some h hr
  have hother (token : String) {c : Char} {q : List Char} (htoken : token.toList = c :: q)
      (hc : op.symbol.toList.head? ≠ some c) : eat? token s = none ∧ eatOperator? token s = none := by
    have hlead : c ∉ lead? s := by
      cases op <;> simpa [lead?, h, BinaryOp.symbol] using hc
    exact ⟨eat?_eq_none htoken hlead, eatOperator?_eq_none htoken hlead⟩
  have hlonger (token : String) (htoken : token.toList = op.symbol.toList ++ ['=']) :
      eat? token s = none := by
    refine Option.eq_none_iff_forall_ne_some.2 fun q hq => ?_
    rw [eat?, afterPrefix?_eq_some, h, htoken, List.append_assoc, List.append_cancel_left_eq] at hq
    simp [hq, startsWith] at hr
  cases op with
  | or | and | eq | le => simp only [operator?, BinaryOp.level, hsome, Option.map_some, Option.some_or]
  | add | mul => simp only [operator?, BinaryOp.level, hguarded, Option.map_some, Option.some_or]
  | ne =>
    have heq := (hother BinaryOp.eq.symbol rfl (by decide)).1
    simp only [operator?, BinaryOp.level, heq, hsome, Option.map_none, Option.map_some, Option.none_or]
  | ge =>
    have hle := (hother BinaryOp.le.symbol rfl (by decide)).1
    simp only [operator?, BinaryOp.level, hle, hsome, Option.map_none, Option.map_some,
      Option.none_or, Option.some_or]
  | lt =>
    have hle := hlonger BinaryOp.le.symbol rfl
    have hge := (hother BinaryOp.ge.symbol rfl (by decide)).1
    simp only [operator?, BinaryOp.level, hle, hge, hsome, Option.map_none, Option.map_some,
      Option.none_or, Option.some_or]
  | gt =>
    have hle := (hother BinaryOp.le.symbol rfl (by decide)).1
    have hge := hlonger BinaryOp.ge.symbol rfl
    have hlt := (hother BinaryOp.lt.symbol rfl (by decide)).1
    simp only [operator?, BinaryOp.level, hle, hge, hlt, hsome, Option.map_none, Option.map_some,
      Option.none_or]
  | sub =>
    have hadd := (hother BinaryOp.add.symbol rfl (by decide)).2
    simp only [operator?, BinaryOp.level, hadd, hguarded, Option.map_none, Option.map_some,
      Option.none_or]
  | div =>
    have hmul := (hother BinaryOp.mul.symbol rfl (by decide)).2
    simp only [operator?, BinaryOp.level, hmul, hguarded, Option.map_none, Option.map_some,
      Option.none_or, Option.some_or]
  | rem =>
    have hmul := (hother BinaryOp.mul.symbol rfl (by decide)).2
    have hdiv := (hother BinaryOp.div.symbol rfl (by decide)).2
    simp only [operator?, BinaryOp.level, hmul, hdiv, hguarded, Option.map_none, Option.map_some,
      Option.none_or]

end Machine

/-! ## Casts and groups -/

theorem symbol_lead (op : BinaryOp) : ∃ c r, op.symbol.toList = c :: r ∧ c ∉ marks ∧
    isNameStart c = false := by
  cases op <;> exact ⟨_, _, rfl, by decide, by decide⟩

theorem isNameStart_of_all {c : Char} {cs : List Char} (hc : c ∈ cs)
    (hall : cs.all (fun c => !isNameStart c) = true) : isNameStart c = false := by
  simpa using List.all_eq_true.1 hall c hc

theorem isNameStart_mark {c : Char} (hc : c ∈ marks) : isNameStart c = false :=
  isNameStart_of_all hc (by decide)

theorem Token.Begins.eq_mark {token : Token} {c : Char} (h : token.Begins c) (hc : c ∈ marks) :
    token = .mark c := by
  cases token with
  | word | call => simp [Begins, isNameStart_mark hc] at h
  | literal l =>
    cases l with
    | null | boolean | float | double => exact h.elim
    | int | long | char | string =>
      cases h
      exact absurd hc (by decide)
  | operator op =>
    obtain ⟨d, r, hop, hd, -⟩ := symbol_lead op
    simp only [Begins, hop, List.head?_cons, Option.some.injEq] at h
    exact absurd hc (h ▸ hd)
  | sign op =>
    cases h
    revert hc
    cases op <;> decide
  | mark m => rw [h.1]

theorem Token.Begins.isNameStart {token : Token} {c : Char} (h : token.Begins c)
    (hc : isNameStart c = true) : (∃ name, token = .word name) ∨ ∃ name, token = .call name := by
  cases token with
  | word name => exact .inl ⟨name, rfl⟩
  | call name => exact .inr ⟨name, rfl⟩
  | literal l =>
    cases l with
    | null | boolean | float | double => exact h.elim
    | int | long | char | string =>
      cases h
      exact absurd hc (by decide)
  | operator op =>
    obtain ⟨d, r, hop, -, hd⟩ := symbol_lead op
    simp only [Begins, hop, List.head?_cons, Option.some.injEq] at h
    simp [← h, hd] at hc
  | sign op =>
    cases h
    have : Grammar.isNameStart op.symbol = false := by cases op <;> decide
    simp [this] at hc
  | mark m =>
    obtain ⟨rfl, hm⟩ := h
    simp [isNameStart_mark hm] at hc

theorem Laid.lead?_mark {tokens : List Token} {s : Rest} {c : Char} (h : Laid tokens s)
    (hc : c ∈ marks) (hlead : c ∈ lead? s) : ∃ r ts, tokens = .mark c :: ts ∧ skipBlanks s = c :: r ∧
      Laid ts r := by
  cases tokens with
  | nil => simp [lead?, h.ended] at hlead
  | cons token ts =>
    obtain ⟨d, r, hs, hd⟩ := h.lead
    obtain rfl : d = c := by simpa [lead?, hs] using hlead
    obtain rfl := hd.eq_mark hc
    obtain ⟨r, hs, hr⟩ := h.mark
    exact ⟨r, ts, rfl, hs, hr⟩

theorem readQualifiers_of_lead {s : Rest} (h : '.' ∉ lead? s) : readQualifiers s = ([], s) := by
  rw [readQualifiers]
  split
  · next r hs => simp [lead?, hs] at h
  · rfl

theorem readQualifiers_of_next {s r : Rest} (hs : skipBlanks s = '.' :: r)
    (h : ∀ c ∈ lead? r, isNameStart c = false) : readQualifiers s = ([], s) := by
  rw [readQualifiers]
  split
  · next r' hs' =>
    cases hs.symm.trans hs'
    split
    · next c t hr =>
      have hc := h c (by simp [lead?, hr])
      rw [if_neg (by simp [hc])]
    · rfl
  · rfl

theorem readDimensions_of_ends {s : Rest} (h : ∀ r, skipBlanks s = '[' :: r → ']' ∉ lead? r) :
    readDimensions s = ([], s) := by
  rw [readDimensions]
  split
  · next r hs =>
    have := h r hs
    split
    · next t hr => simp [lead?, hr] at this
    · rfl
  · rfl

/-- Behind the dimensions of a type there is no closing parenthesis. -/
def goesOnAfterDimensions : List Token → Bool
  | .mark '[' :: .mark ']' :: tokens => goesOnAfterDimensions tokens
  | .mark ')' :: _ => false
  | _ => true

/-- Behind a type of which a name has been read there is no closing parenthesis. -/
def goesOn : List Token → Bool
  | .mark '.' :: .word _ :: tokens => goesOn tokens
  | tokens => goesOnAfterDimensions tokens

/-- The tokens are not a type and a closing parenthesis. -/
def isGroup : List Token → Bool
  | .word _ :: tokens => goesOn tokens
  | _ => true

theorem readDimensions_goesOn {tokens : List Token} {s : Rest} (h : Laid tokens s)
    (hgo : goesOnAfterDimensions tokens = true) : ')' ∉ lead? (readDimensions s).2 := by
  fun_induction goesOnAfterDimensions tokens generalizing s with
  | case1 tokens ih =>
    obtain ⟨r, hs, hr⟩ := Laid.mark h
    obtain ⟨t, hr', ht⟩ := Laid.mark hr
    rw [readDimensions_cons hs hr']
    exact ih ht hgo
  | case2 => cases hgo
  | case3 tokens hdim hclose =>
    have hends : ∀ r, skipBlanks s = '[' :: r → ']' ∉ lead? r := by
      intro r hs hlead
      obtain ⟨r', ts, rfl, hs', hr⟩ := h.lead?_mark (c := '[') (by decide) (by simp [lead?, hs])
      cases hs.symm.trans hs'
      obtain ⟨-, ts, rfl, -⟩ := hr.lead?_mark (by decide) hlead
      exact hdim ts rfl
    rw [readDimensions_of_ends hends]
    intro hlead
    obtain ⟨-, ts, rfl, -⟩ := h.lead?_mark (by decide) hlead
    exact hclose ts rfl

theorem lead?_open (s : Rest) : lead? ('(' :: s) = some '(' := rfl

theorem readDimensions_open (s : Rest) : readDimensions ('(' :: s) = ([], '(' :: s) :=
  readDimensions_of_ends fun r hs => by cases hs

theorem readTypeTail_goesOn {tokens : List Token} {s : Rest} (h : Laid tokens s)
    (hgo : goesOn tokens = true) : ')' ∉ lead? (readDimensions (readQualifiers s).2).2 := by
  fun_induction goesOn tokens generalizing s with
  | case1 name tokens ih =>
    obtain ⟨r, hs, hr⟩ := Laid.mark h
    obtain ⟨q, hr', ⟨c, t, htext, hc, ht⟩, hq, hapart⟩ := hr.word
    rw [htext, List.cons_append] at hr'
    rw [readQualifiers_cons hs hr' hc, (takeWhile_run ht hapart).2]
    exact ih hq hgo
  | case2 tokens hword =>
    by_cases hdot : '.' ∈ lead? s
    · obtain ⟨r, ts, rfl, hs, hr⟩ := h.lead?_mark (by decide) hdot
      by_cases hcall : ∃ name ts', ts = .call name :: ts'
      · obtain ⟨name, ts', rfl⟩ := hcall
        obtain ⟨q, hr', ⟨c, t, htext, hc, ht⟩, -⟩ := hr.call
        rw [htext, List.cons_append] at hr'
        rw [readQualifiers_cons hs hr' hc, (takeWhile_run ht rfl).2,
          readQualifiers_of_lead (by simp [lead?_open]), readDimensions_open, lead?_open]
        decide
      · have hnext : ∀ c ∈ lead? r, isNameStart c = false := by
          refine hr.lead?_of_head fun token htoken c hc => Bool.eq_false_iff.2 fun hstart => ?_
          obtain ⟨ts', rfl⟩ := List.head?_eq_some_iff.1 htoken
          rcases hc.isNameStart hstart with ⟨name, rfl⟩ | ⟨name, rfl⟩
          · exact hword name ts' rfl
          · exact hcall ⟨name, ts', rfl⟩
        rw [readQualifiers_of_next hs hnext, readDimensions_of_ends (by simp [hs])]
        simp [lead?, hs]
    · rw [readQualifiers_of_lead hdot]
      exact readDimensions_goesOn h hgo


theorem readName_eq_error {s : Rest} (h : ∀ c ∈ lead? s, isNameStart c = false) :
    ∃ f, readName s = .error f := by
  unfold readName
  split
  · next c r hs =>
    rw [if_neg (by simp [h c (by simp [lead?, hs])])]
    exact ⟨_, rfl⟩
  · exact ⟨_, rfl⟩

theorem readTypeName_group {tokens : List Token} {s q : Rest} {typeName : String}
    (h : Laid tokens s) (hgroup : isGroup tokens = true) (hread : readTypeName s = .ok (typeName, q)) :
    ')' ∉ lead? q := by
  have tail {name : String} {r : Rest} (hname : readName s = .ok (name, r)) :
      q = (readDimensions (readQualifiers r).2).2 := by
    simp only [readTypeName, hname, Except.ok.injEq, Prod.mk.injEq] at hread
    exact hread.2.symm
  by_cases hstart : ∃ c ∈ lead? s, isNameStart c = true
  · obtain ⟨c, hc, hname⟩ := hstart
    cases tokens with
    | nil => simp [lead?, h.ended] at hc
    | cons token tokens =>
      obtain ⟨d, r, hs, hd⟩ := h.lead
      obtain rfl : d = c := by simpa [lead?, hs] using hc
      rcases hd.isNameStart hname with ⟨name, rfl⟩ | ⟨name, rfl⟩
      · obtain ⟨rest, hs, hname, hrest, hapart⟩ := h.word
        rw [tail (readName_eq_ok hname hs hapart)]
        exact readTypeTail_goesOn hrest hgroup
      · obtain ⟨rest, hs, hname, -⟩ := h.call
        rw [tail (readName_eq_ok hname hs rfl), readQualifiers_of_lead (by simp [lead?_open]),
          readDimensions_open, lead?_open]
        decide
  · obtain ⟨f, hf⟩ := readName_eq_error (s := s) fun c hc =>
      Bool.eq_false_iff.2 fun hname => hstart ⟨c, hc, hname⟩
    simp [readTypeName, hf] at hread

namespace Machine

theorem castPrefix?_of_lead {s : Rest} (h : '(' ∉ lead? s) : castPrefix? s = none := by
  unfold castPrefix?
  split
  · next r hs => simp [lead?, hs] at h
  · rfl

theorem castPrefix?_group {tokens : List Token} {s : Rest} (h : Laid (.mark '(' :: tokens) s)
    (hgroup : isGroup tokens = true) : castPrefix? s = none := by
  obtain ⟨r, hs, hr⟩ := h.mark
  simp only [castPrefix?, hs]
  cases hread : readTypeName r with
  | error f => rfl
  | ok p =>
    obtain ⟨typeName, q⟩ := p
    have hq : ')' ∉ lead? q := readTypeName_group hr hgroup hread
    dsimp only
    split
    · rfl
    · split
      · next t ht => simp [lead?, ht] at hq
      · rfl

theorem castPrefix?_cast {typeName : String} {tokens : List Token} {s : Rest}
    (htype : IsTypeName typeName) (hfree : typeName ∉ reserved)
    (h : Laid (grouped (typeTokens typeName.toList) ++ tokens) s) :
    ∃ rest, castPrefix? s = some (typeName, rest) ∧ Laid tokens rest := by
  rw [grouped, List.cons_append, List.cons_append, List.append_assoc, List.singleton_append] at h
  obtain ⟨r, hs, hr⟩ := h.mark
  obtain ⟨q, hread, hq⟩ := readTypeName_laid htype hr fun s hs => by
    obtain ⟨t, ht, -⟩ := hs.mark
    simp [EndsType, lead?, ht]
  obtain ⟨rest, hclose, hrest⟩ := hq.mark
  refine ⟨rest, ?_, hrest⟩
  simp only [castPrefix?, hs, hread, hclose]
  rw [if_neg (by exact hfree)]

end Machine

end JvmDebug.Grammar
