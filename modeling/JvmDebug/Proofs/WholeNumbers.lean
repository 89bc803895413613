import JvmDebug.Eval.Interpreter
import Mathlib.Data.Int.ModEq

/-!
Arithmetic on whole numbers. Two operands of any whole types are computed with in `int`, or in
`long` when one of them is a `long`, and the result is the exact one modulo the size of that type:
main result `Scope.operates_whole`.
-/
namespace JvmDebug

/-! ## Whole types -/

inductive WholeType
  | byte | char | short | int | long
  deriving DecidableEq, Repr

namespace WholeType

def name : WholeType → String
  | byte => "byte"
  | char => "char"
  | short => "short"
  | int => "int"
  | long => "long"

def bits : WholeType → Nat
  | byte => 8
  | char | short => 16
  | int => 32
  | long => 64

def least : WholeType → Int
  | byte => -2 ^ 7
  | char => 0
  | short => -2 ^ 15
  | int => -2 ^ 31
  | long => -2 ^ 63

/-- The type in which values of the two types are computed with. -/
def promote : WholeType → WholeType → WholeType
  | long, _ | _, long => long
  | _, _ => int

theorem promote_promote (S T : WholeType) : (S.promote T).promote T = S.promote T := by
  cases S <;> cases T <;> rfl

theorem promote_self (S T : WholeType) : (S.promote T).promote (S.promote T) = S.promote T := by
  cases S <;> cases T <;> rfl

end WholeType

/-- The value is of the whole type and stands for the number. -/
inductive Value.Whole : Value → WholeType → Int → Prop
  | byte (i : Int8) : Whole (.byte i) .byte i.toInt
  | char (u : UInt16) : Whole (.char u) .char u.toNat
  | short (i : Int16) : Whole (.short i) .short i.toInt
  | int (i : Int32) : Whole (.int i) .int i.toInt
  | long (i : Int64) : Whole (.long i) .long i.toInt

/-- The value is of the type and congruent to the number modulo the size of the type. -/
def WholeType.Reduces (T : WholeType) (z : Int) (v : Value) : Prop :=
  ∃ n, v.Whole T n ∧ n ≡ z [ZMOD 2 ^ T.bits]

variable {a b : Value} {m n z : Int} {S T : WholeType}

/-- There is a value of the type that stands for the number. -/
def WholeType.Holds (T : WholeType) (n : Int) : Prop := T.least ≤ n ∧ n < T.least + 2 ^ T.bits

theorem Value.Whole.holds (h : a.Whole T m) : T.Holds m := by
  cases h with
  | byte i => exact ⟨i.le_toInt, i.toInt_lt⟩
  | char u => exact ⟨Int.natCast_nonneg _, Int.ofNat_lt.2 u.toNat_lt⟩
  | short i => exact ⟨i.le_toInt, i.toInt_lt⟩
  | int i => exact ⟨i.le_toInt, i.toInt_lt⟩
  | long i => exact ⟨i.le_toInt, i.toInt_lt⟩

/-- A number of the type is known from its residue. -/
theorem WholeType.Holds.eq_of_modEq (hm : T.Holds m) (hn : T.Holds n)
    (h : m ≡ n [ZMOD 2 ^ T.bits]) : m = n := by
  obtain ⟨hm, hm'⟩ := hm
  obtain ⟨hn, hn'⟩ := hn
  have hshift : m - T.least ≡ n - T.least [ZMOD 2 ^ T.bits] := h.sub_right _
  rw [Int.ModEq, Int.emod_eq_of_lt (by omega) (by omega), Int.emod_eq_of_lt (by omega) (by omega)]
    at hshift
  omega

theorem bmod_modEq (z : Int) (n : Nat) : z.bmod n ≡ z [ZMOD n] := Int.bmod_emod

/-! ## Operands -/

/-- The number is a whole one of the type, which is `int` or `long`. -/
inductive Number.Whole : Number → WholeType → Int → Prop
  | int (i : Int32) : Whole (.int i) .int i.toInt
  | long (i : Int64) : Whole (.long i) .long i.toInt

/-- A value of a whole type is a number of the type to which it is promoted. -/
theorem whole_ofValue? (h : a.Whole T m) :
    ∃ x, Number.ofValue? a = some x ∧ x.Whole (T.promote .int) m := by
  cases h with
  | byte i => exact ⟨_, rfl, i.toInt_toInt32 ▸ .int i.toInt32⟩
  | char u =>
    have hu : (Int32.ofInt u.toNat).toInt = u.toNat := by
      have := u.toNat_lt
      exact Int32.toInt_ofInt_of_le (by omega) (by omega)
    have hwhole := Number.Whole.int (Int32.ofInt u.toNat)
    rw [hu] at hwhole
    exact ⟨_, rfl, hwhole⟩
  | short i => exact ⟨_, rfl, i.toInt_toInt32 ▸ .int i.toInt32⟩
  | int i => exact ⟨_, rfl, .int i⟩
  | long i => exact ⟨_, rfl, .long i⟩

namespace Operands

/-- Two whole numbers of one type, `int` or `long`. -/
inductive Whole : Operands → WholeType → Int → Int → Prop
  | ints (i j : Int32) : Whole (.ints i j) .int i.toInt j.toInt
  | longs (i j : Int64) : Whole (.longs i j) .long i.toInt j.toInt

theorem whole_promote {x y : Number} (hx : x.Whole (S.promote .int) m)
    (hy : y.Whole (T.promote .int) n) : (promote x y).Whole (S.promote T) m n := by
  generalize hS : S.promote .int = S' at hx
  generalize hT : T.promote .int = T' at hy
  have hpromote : S.promote T = S'.promote T' := by
    rw [← hS, ← hT]
    cases S <;> cases T <;> rfl
  rw [hpromote]
  cases hx with
  | int i =>
    cases hy with
    | int j => exact .ints i j
    | long j => exact i.toInt_toInt64 ▸ .longs i.toInt64 j
  | long i =>
    cases hy with
    | int j => exact j.toInt_toInt64 ▸ .longs i j.toInt64
    | long j => exact .longs i j

/-- There is room in the type for the left operand. -/
theorem Whole.left {o : Operands} (h : o.Whole T m n) : ∃ v : Value, v.Whole T m := by
  cases h with
  | ints i j => exact ⟨_, .int i⟩
  | longs i j => exact ⟨_, .long i⟩

theorem whole_ofValues (symbol : String) (ha : a.Whole S m) (hb : b.Whole T n) :
    ∃ o, ofValues symbol a b = .ok o ∧ o.Whole (S.promote T) m n := by
  obtain ⟨x, hx, hm⟩ := whole_ofValue? ha
  obtain ⟨y, hy, hn⟩ := whole_ofValue? hb
  exact ⟨promote x y, by rw [ofValues, hx, hy], whole_promote hm hn⟩

end Operands

/-! ## Operations -/

namespace Arithmetic

/-- The exact result; a quotient is truncated. -/
def exact (m n : Int) : Arithmetic → Int
  | add => m + n
  | sub => m - n
  | mul => m * n
  | div => m.tdiv n
  | rem => m.tmod n

theorem onInts_modEq (i j : Int32) (op : Arithmetic) :
    (op.onInts i j).toInt ≡ op.exact i.toInt j.toInt [ZMOD 2 ^ 32] := by
  cases op with
  | add => exact (Int32.toInt_add i j) ▸ bmod_modEq _ _
  | sub => exact (Int32.toInt_sub i j) ▸ bmod_modEq _ _
  | mul => exact (Int32.toInt_mul i j) ▸ bmod_modEq _ _
  | div => exact (Int32.toInt_div i j) ▸ bmod_modEq _ _
  | rem => exact (Int32.toInt_mod i j) ▸ rfl

theorem onLongs_modEq (i j : Int64) (op : Arithmetic) :
    (op.onLongs i j).toInt ≡ op.exact i.toInt j.toInt [ZMOD 2 ^ 64] := by
  cases op with
  | add => exact (Int64.toInt_add i j) ▸ bmod_modEq _ _
  | sub => exact (Int64.toInt_sub i j) ▸ bmod_modEq _ _
  | mul => exact (Int64.toInt_mul i j) ▸ bmod_modEq _ _
  | div => exact (Int64.toInt_div i j) ▸ bmod_modEq _ _
  | rem => exact (Int64.toInt_mod i j) ▸ rfl

theorem zeroDivisor_whole {o : Operands} (h : o.Whole T m n) : zeroDivisor o = decide (n = 0) := by
  cases h with
  | ints i j =>
    rw [zeroDivisor, Bool.eq_iff_iff, beq_iff_eq, decide_eq_true_iff, ← Int32.toInt_inj,
      Int32.toInt_zero]
  | longs i j =>
    rw [zeroDivisor, Bool.eq_iff_iff, beq_iff_eq, decide_eq_true_iff, ← Int64.toInt_inj,
      Int64.toInt_zero]

def onOperands (op : Arithmetic) : Operands → Value
  | .ints a b => .int (op.onInts a b)
  | .longs a b => .long (op.onLongs a b)
  | .floats a b => .float (op.onFloats a b)
  | .doubles a b => .double (op.onDoubles a b)

theorem apply_of_operands {op : Arithmetic} {o : Operands}
    (h : Operands.ofValues op.symbol a b = .ok o) :
    op.apply a b =
      if op.divides && zeroDivisor o then .error (.evaluationFailed "Division by zero")
      else .ok (op.onOperands o) := by
  simp only [apply, h, bind, Except.bind]
  split
  · rfl
  · cases o <;> rfl

theorem reduces_onOperands (op : Arithmetic) {o : Operands} (h : o.Whole T m n) :
    T.Reduces (op.exact m n) (op.onOperands o) := by
  cases h with
  | ints i j => exact ⟨_, .int _, onInts_modEq i j op⟩
  | longs i j => exact ⟨_, .long _, onLongs_modEq i j op⟩

/-- Division by zero is refused. -/
theorem apply_zero {op : Arithmetic} (ha : a.Whole S m) (hb : b.Whole T 0)
    (hdivides : op.divides) : op.apply a b = .error (.evaluationFailed "Division by zero") := by
  obtain ⟨o, ho, hwhole⟩ := Operands.whole_ofValues op.symbol ha hb
  rw [apply_of_operands ho, zeroDivisor_whole hwhole, hdivides]
  rfl

/-- Everything else gives the exact result reduced to the type of the operands. -/
theorem apply_whole {op : Arithmetic} (ha : a.Whole S m) (hb : b.Whole T n)
    (hzero : op.divides → n ≠ 0) :
    ∃ r, op.apply a b = .ok r ∧ (S.promote T).Reduces (op.exact m n) r := by
  obtain ⟨o, ho, hwhole⟩ := Operands.whole_ofValues op.symbol ha hb
  have hnot : ¬(op.divides && zeroDivisor o) = true := by
    rw [zeroDivisor_whole hwhole, Bool.and_eq_true, decide_eq_true_iff]
    exact fun h => hzero h.1 h.2
  exact ⟨_, by rw [apply_of_operands ho, if_neg hnot], reduces_onOperands op hwhole⟩

end Arithmetic

namespace Comparison

theorem holds_ints (op : Comparison) (i j : Int32) : op.holds i j = op.holds i.toInt j.toInt := by
  cases op <;> simp only [holds, Int32.lt_iff_toInt_lt, Int32.le_iff_toInt_le]

theorem holds_longs (op : Comparison) (i j : Int64) : op.holds i j = op.holds i.toInt j.toInt := by
  cases op <;> simp only [holds, Int64.lt_iff_toInt_lt, Int64.le_iff_toInt_le]

theorem apply_whole (op : Comparison) (ha : a.Whole S m) (hb : b.Whole T n) :
    op.apply a b = .ok (.boolean (op.holds m n)) := by
  obtain ⟨o, ho, hwhole⟩ := Operands.whole_ofValues op.symbol ha hb
  simp only [apply, ho, bind, Except.bind]
  generalize S.promote T = U at hwhole
  cases hwhole with
  | ints i j => rw [← holds_ints]; rfl
  | longs i j => rw [← holds_longs]; rfl

end Comparison

def Operands.same : Operands → Bool
  | ints a b => a == b
  | longs a b => a == b
  | floats a b => a == b
  | doubles a b => a == b

namespace Value

theorem same_whole (ha : a.Whole S m) (hb : b.Whole T n) : a.same b = decide (m = n) := by
  obtain ⟨x, hx, hm⟩ := whole_ofValue? ha
  obtain ⟨y, hy, hn⟩ := whole_ofValue? hb
  have hsame : a.same b = (Operands.promote x y).same := by
    cases ha <;> simp only [same, hx, hy] <;> rfl
  have hwhole := Operands.whole_promote hm hn
  rw [hsame]
  generalize S.promote T = U, Operands.promote x y = o at hwhole
  cases hwhole with
  | ints i j =>
    rw [Operands.same, Bool.eq_iff_iff, beq_iff_eq, decide_eq_true_iff, ← Int32.toInt_inj]
  | longs i j =>
    rw [Operands.same, Bool.eq_iff_iff, beq_iff_eq, decide_eq_true_iff, ← Int64.toInt_inj]

theorem negate_whole (ha : a.Whole S m) :
    ∃ r, a.negate = .ok r ∧ (S.promote .int).Reduces (-m) r := by
  obtain ⟨x, hx, hm⟩ := whole_ofValue? ha
  rw [negate, hx]
  generalize S.promote .int = U at hm
  cases hm with
  | int i => exact ⟨_, rfl, _, .int (-i), (Int32.toInt_neg i) ▸ bmod_modEq _ _⟩
  | long i => exact ⟨_, rfl, _, .long (-i), (Int64.toInt_neg i) ▸ bmod_modEq _ _⟩

end Value

/-! ## Conversions -/

theorem Number.toInt32_whole {x : Number} (h : x.Whole T m) :
    x.toInt32.toInt ≡ m [ZMOD 2 ^ 32] := by
  cases h with
  | int i => rfl
  | long i => exact (Int64.toInt_toInt32 i) ▸ bmod_modEq _ _

theorem Number.toInt64_whole {x : Number} (h : x.Whole T m) : x.toInt64.toInt = m := by
  cases h with
  | int i => exact Int32.toInt_toInt64 i
  | long i => rfl

theorem toNat_ofInt_modEq (z : Int) : ((UInt16.ofInt z).toNat : Int) ≡ z [ZMOD 2 ^ 16] := by
  rw [UInt16.ofInt, UInt16.toNat_ofNat', Int.ModEq]
  omega

theorem Value.convert?_whole (ha : a.Whole S m) (T : WholeType) :
    ∃ r, a.convert? T.name = some r ∧ T.Reduces m r := by
  obtain ⟨x, hx, hm⟩ := whole_ofValue? ha
  have hconvert : a.convert? T.name = some (match T with
      | .byte => byte x.toInt32.toInt8
      | .char => char (UInt16.ofInt x.toInt32.toInt)
      | .short => short x.toInt32.toInt16
      | .int => int x.toInt32
      | .long => long x.toInt64) := by
    cases ha <;> simp only [convert?, hx, Option.bind_some] <;> cases T <;> rfl
  have hlow := Number.toInt32_whole hm
  refine ⟨_, hconvert, ?_⟩
  cases T with
  | byte =>
    refine ⟨_, .byte _, ?_⟩
    rw [Int32.toInt_toInt8]
    exact (bmod_modEq _ _).trans (hlow.of_dvd (by decide))
  | char => exact ⟨_, .char _, (toNat_ofInt_modEq _).trans (hlow.of_dvd (by decide))⟩
  | short =>
    refine ⟨_, .short _, ?_⟩
    rw [Int32.toInt_toInt16]
    exact (bmod_modEq _ _).trans (hlow.of_dvd (by decide))
  | int => exact ⟨_, .int _, hlow⟩
  | long => exact ⟨_, .long _, (Number.toInt64_whole hm) ▸ rfl⟩

/-! ## Operators -/

namespace Scope
variable {σ : Type} {s : Scope}

theorem isString_whole (ha : a.Whole S m) : isString a = false := by
  cases ha <;> rfl

theorem binary_compute (op : BinaryOp) (c : Arithmetic) (hop : op.form = .compute c)
    (ha : a.Whole S m) (hb : b.Whole T n) :
    (binary s op a (pure b) : Op DebugError σ Value) = Op.ofExcept (c.apply a b) := by
  rw [binary, hop]
  show (if (c == .add && (isString a || isString b)) = true then _ else _) = _
  rw [isString_whole ha, isString_whole hb, Bool.or_false, Bool.and_false,
    if_neg Bool.false_ne_true]

theorem binary_exact (op : BinaryOp) (c : Arithmetic) (hop : op.form = .compute c)
    (ha : a.Whole S m) (hb : b.Whole T n) (hzero : c.divides → n ≠ 0) :
    ∃ r, (binary s op a (pure b) : Op DebugError σ Value) = pure r ∧
      (S.promote T).Reduces (c.exact m n) r := by
  obtain ⟨r, hr, hexact⟩ := Arithmetic.apply_whole ha hb hzero
  exact ⟨r, by rw [binary_compute op c hop ha hb, hr]; rfl, hexact⟩

theorem binary_compare (op : BinaryOp) (c : Comparison) (hop : op.form = .compare c)
    (ha : a.Whole S m) (hb : b.Whole T n) :
    (binary s op a (pure b) : Op DebugError σ Value) = pure (.boolean (c.holds m n)) := by
  rw [binary, hop]
  show Op.ofExcept (c.apply a b) = _
  rw [c.apply_whole ha hb]
  rfl

theorem binary_equal (op : BinaryOp) (negated : Bool) (hop : op.form = .equal negated)
    (ha : a.Whole S m) (hb : b.Whole T n) :
    (binary s op a (pure b) : Op DebugError σ Value) =
      pure (.boolean (decide (m = n) != negated)) := by
  rw [binary, hop, ← Value.same_whole ha hb]
  rfl

/-- The quotient and the remainder make up the dividend, also where the quotient has no room. -/
theorem binary_recompose {q r : Value} (ha : a.Whole S m) (hb : b.Whole T n)
    (hq : (S.promote T).Reduces (m.tdiv n) q) (hr : (S.promote T).Reduces (m.tmod n) r) :
    ∃ p t, (binary s .mul q (pure b) : Op DebugError σ Value) = pure p ∧
      (binary s .add p (pure r) : Op DebugError σ Value) = pure t ∧ t.Whole (S.promote T) m := by
  obtain ⟨k, hk, hquotient⟩ := hq
  obtain ⟨l, hl, hremainder⟩ := hr
  obtain ⟨p, hp, x, hx, hproduct⟩ := binary_exact (σ := σ) (s := s) .mul .mul rfl hk hb nofun
  rw [WholeType.promote_promote] at hx hproduct
  obtain ⟨t, ht, y, hy, hsum⟩ := binary_exact (σ := σ) (s := s) .add .add rfl hx hl nofun
  rw [WholeType.promote_self] at hy hsum
  refine ⟨p, t, hp, ht, ?_⟩
  obtain ⟨o, -, hoperands⟩ := Operands.whole_ofValues "" ha hb
  obtain ⟨v, hv⟩ := hoperands.left
  have hresidue : y ≡ m [ZMOD 2 ^ (S.promote T).bits] := calc
    y ≡ x + l [ZMOD _] := hsum
    _ ≡ k * n + l [ZMOD _] := hproduct.add_right _
    _ ≡ m.tdiv n * n + m.tmod n [ZMOD _] := (hquotient.mul_right _).add hremainder
    _ = m := Int.tdiv_mul_add_tmod m n
  exact hy.holds.eq_of_modEq hv.holds hresidue ▸ hy

/-- What the operators make of values of the types `S` and `T` that stand for `m` and `n`. -/
structure OperatesWhole (σ : Type) (s : Scope) (a b : Value) (S T : WholeType) (m n : Int) :
    Prop where
  sum : ∃ r, (binary s .add a (pure b) : Op DebugError σ Value) = pure r ∧
    (S.promote T).Reduces (m + n) r
  difference : ∃ r, (binary s .sub a (pure b) : Op DebugError σ Value) = pure r ∧
    (S.promote T).Reduces (m - n) r
  product : ∃ r, (binary s .mul a (pure b) : Op DebugError σ Value) = pure r ∧
    (S.promote T).Reduces (m * n) r
  zeroDivisor : n = 0 →
    (binary s .div a (pure b) : Op DebugError σ Value) = fail "Division by zero" ∧
    (binary s .rem a (pure b) : Op DebugError σ Value) = fail "Division by zero"
  division : n ≠ 0 → ∃ q r, (binary s .div a (pure b) : Op DebugError σ Value) = pure q ∧
    (binary s .rem a (pure b) : Op DebugError σ Value) = pure r ∧
    (S.promote T).Reduces (m.tdiv n) q ∧ (S.promote T).Reduces (m.tmod n) r ∧
    ∃ p t, (binary s .mul q (pure b) : Op DebugError σ Value) = pure p ∧
      (binary s .add p (pure r) : Op DebugError σ Value) = pure t ∧ t.Whole (S.promote T) m
  negation : ∃ r, UnaryOp.neg.apply a = .ok r ∧ (S.promote .int).Reduces (-m) r
  lt : (binary s .lt a (pure b) : Op DebugError σ Value) = pure (.boolean (m < n))
  gt : (binary s .gt a (pure b) : Op DebugError σ Value) = pure (.boolean (n < m))
  le : (binary s .le a (pure b) : Op DebugError σ Value) = pure (.boolean (m ≤ n))
  ge : (binary s .ge a (pure b) : Op DebugError σ Value) = pure (.boolean (n ≤ m))
  eq : (binary s .eq a (pure b) : Op DebugError σ Value) = pure (.boolean (m = n))
  ne : (binary s .ne a (pure b) : Op DebugError σ Value) = pure (.boolean (m ≠ n))
  conversion : ∀ U : WholeType, ∃ r, a.convert? U.name = some r ∧ U.Reduces m r

theorem operates_whole (s : Scope) (ha : a.Whole S m) (hb : b.Whole T n) :
    OperatesWhole σ s a b S T m n where
  sum := binary_exact .add .add rfl ha hb nofun
  difference := binary_exact .sub .sub rfl ha hb nofun
  product := binary_exact .mul .mul rfl ha hb nofun
  zeroDivisor := by
    rintro rfl
    constructor
    · rw [binary_compute .div .div rfl ha hb, Arithmetic.apply_zero ha hb rfl]
      rfl
    · rw [binary_compute .rem .rem rfl ha hb, Arithmetic.apply_zero ha hb rfl]
      rfl
  division := by
    intro hn
    obtain ⟨q, hq, hquotient⟩ := binary_exact (σ := σ) (s := s) .div .div rfl ha hb fun _ => hn
    obtain ⟨r, hr, hremainder⟩ := binary_exact (σ := σ) (s := s) .rem .rem rfl ha hb fun _ => hn
    exact ⟨q, r, hq, hr, hquotient, hremainder, binary_recompose ha hb hquotient hremainder⟩
  negation := Value.negate_whole ha
  lt := binary_compare .lt .lt rfl ha hb
  gt := binary_compare .gt .gt rfl ha hb
  le := binary_compare .le .le rfl ha hb
  ge := binary_compare .ge .ge rfl ha hb
  eq := by
    rw [binary_equal .eq false rfl ha hb]
    simp
  ne := by
    rw [binary_equal .ne true rfl ha hb]
    simp
  conversion := Value.convert?_whole ha

/-- A frame without variables in a static method. -/
def bareScope : Scope := ⟨1, ⟨1, default⟩, [], none⟩

/-- The least `long` by -1: there is no room for the quotient. -/
theorem operates_whole_least :
    (Value.long Int64.minValue).Whole .long (-2 ^ 63) ∧ (Value.byte (-1)).Whole .byte (-1) ∧
      ∃ q, (binary bareScope .div (.long Int64.minValue) (pure (.byte (-1))) :
        Op DebugError Unit Value) = pure q ∧ WholeType.long.Reduces (2 ^ 63) q := by
  have hleast : (Value.long Int64.minValue).Whole .long (-2 ^ 63) :=
    Int64.toInt_minValue ▸ .long Int64.minValue
  have hone : (Value.byte (-1)).Whole .byte (-1) := .byte (-1)
  obtain ⟨q, r, hq, -, hquotient, -⟩ :=
    (operates_whole (σ := Unit) bareScope hleast hone).division (by decide)
  exact ⟨hleast, hone, q, hq, hquotient⟩

end Scope

end JvmDebug
