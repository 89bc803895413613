import JvmDebug.Signature
import JvmDebug.Text.Utf8
import Mathlib.Data.List.TakeWhile

/-!
The arguments of a method signature. They are cut out byte by byte, so the cuts are those between
the pieces unless a character of several bytes stands where a piece says what it is:
`Signature.split_iff_marked`. Signatures of fields that are put together come apart again:
`Signature.arguments_and_result`.
-/
namespace JvmDebug.Signature
open Text

/-! ## Pieces -/

/-- The signature of one argument: brackets, then a character that says what it is; after `L`, a
name up to the next `;`. -/
inductive IsPiece : List Char → Prop
  | plain {c : Char} (hbracket : c ≠ '[') (hname : c ≠ 'L') : IsPiece [c]
  | named {s : List Char} (hs : ';' ∉ s) : IsPiece ('L' :: (s ++ [';']))
  | array {s : List Char} (hs : IsPiece s) : IsPiece ('[' :: s)

/-- What is there if the text ends before the piece does. -/
inductive IsStump : List Char → Prop
  | bracket : IsStump ['[']
  | named {s : List Char} (hs : ';' ∉ s) : IsStump ('L' :: s)
  | array {s : List Char} (hs : IsStump s) : IsStump ('[' :: s)

/-- The text is one piece after the other, the last of them perhaps a stump. -/
inductive Cut : List Char → List (List Char) → Prop
  | nil : Cut [] []
  | stump {s : List Char} (hs : IsStump s) : Cut s [s]
  | piece {p s : List Char} {ps : List (List Char)} (hp : IsPiece p) (hs : Cut s ps) :
    Cut (p ++ s) (p :: ps)

/-- What says what a piece is: its first character after the brackets. -/
def mark? (s : List Char) : Option Char := (s.dropWhile (· = '[')).head?

/-- The mark of the piece, if it has one, takes a single byte. -/
def isMarked (s : List Char) : Bool := (mark? s).all fun c => c.toNat < 128

section
variable {s : List Char}

theorem IsPiece.ne_nil (h : IsPiece s) : s ≠ [] := by
  cases h <;> simp

theorem IsStump.ne_nil (h : IsStump s) : s ≠ [] := by
  cases h <;> simp

theorem IsStump.isMarked (h : IsStump s) : isMarked s = true := by
  induction h with
  | bracket => rfl
  | named => rfl
  | array _ ih => exact ih

/-- A text begins with a piece, or it ends before the piece does. -/
theorem isStump_or_exists_piece (h : s ≠ []) :
    IsStump s ∨ ∃ p r, IsPiece p ∧ s = p ++ r := by
  induction s with
  | nil => contradiction
  | cons c t ih =>
    by_cases hbracket : c = '['
    · subst hbracket
      by_cases ht : t = []
      · rw [ht]
        exact .inl .bracket
      · rcases ih ht with hstump | ⟨p, r, hp, rfl⟩
        · exact .inl hstump.array
        · exact .inr ⟨'[' :: p, r, hp.array, rfl⟩
    · by_cases hname : c = 'L'
      · subst hname
        by_cases hend : ';' ∈ t
        · obtain ⟨name, r, rfl, hfirst⟩ := List.eq_append_cons_of_mem hend
          exact .inr ⟨'L' :: (name ++ [';']), r, .named hfirst, by simp⟩
        · exact .inl (.named hend)
      · exact .inr ⟨[c], t, .plain hbracket hname, rfl⟩

theorem exists_cut (s : List Char) : ∃ ps, Cut s ps := by
  induction hlength : s.length using Nat.strong_induction_on generalizing s with
  | _ n ih =>
    by_cases hs : s = []
    · exact ⟨[], hs ▸ .nil⟩
    · rcases isStump_or_exists_piece hs with hstump | ⟨p, r, hp, rfl⟩
      · exact ⟨[s], .stump hstump⟩
      · -- a piece takes something off the text
        have hshorter : r.length < n := by
          have := List.length_pos_iff.2 hp.ne_nil
          rw [← hlength, List.length_append]
          omega
        obtain ⟨ps, hps⟩ := ih _ hshorter r rfl
        exact ⟨p :: ps, .piece hp hps⟩

variable {ps : List (List Char)}

theorem Cut.flatten (h : Cut s ps) : ps.flatten = s := by
  induction h with
  | nil => rfl
  | stump => simp
  | piece _ _ ih => rw [List.flatten_cons, ih]

theorem Cut.nil_notMem (h : Cut s ps) : [] ∉ ps := by
  induction h with
  | nil => simp
  | stump hs => simpa using hs.ne_nil.symm
  | piece hp _ ih => exact List.not_mem_cons_of_ne_of_not_mem hp.ne_nil.symm ih

end

/-! ## Bytes -/

def bytes (s : List Char) : List UInt8 := s.flatMap String.utf8EncodeChar

def ofBytes? (piece : List UInt8) : Option String := String.fromUTF8? (ByteArray.mk piece.toArray)

theorem bytes_append (s t : List Char) : bytes (s ++ t) = bytes s ++ bytes t := List.flatMap_append

theorem bytes_cons (c : Char) (s : List Char) :
    bytes (c :: s) = String.utf8EncodeChar c ++ bytes s :=
  List.flatMap_cons

theorem toList_loop (b : ByteArray) (i : Nat) (seen : List UInt8) :
    ByteArray.toList.loop b i seen = seen.reverse ++ b.data.toList.drop i := by
  fun_induction ByteArray.toList.loop b i seen with
  | case1 i seen hlt ih =>
    have hi : i < b.data.toList.length := by simpa using hlt
    rw [ih, List.reverse_cons, List.append_assoc, List.singleton_append,
      List.drop_eq_getElem_cons hi]
    congr 2
    simp [ByteArray.get!, hlt]
  | case2 i seen hge =>
    have hi : b.data.toList.length ≤ i := by simpa using hge
    rw [List.drop_eq_nil_of_le hi, List.append_nil]

theorem toList_toUTF8 (s : List Char) : (String.ofList s).toUTF8.toList = bytes s := by
  rw [ByteArray.toList, toList_loop]
  simp [bytes, List.utf8Encode]

theorem ofBytes?_bytes (s : List Char) : ofBytes? (bytes s) = some (String.ofList s) := by
  have hbytes : (⟨(bytes s).toArray⟩ : ByteArray) = (String.ofList s).toByteArray := by
    refine ByteArray.ext (Array.toList_inj.1 ?_)
    simp [bytes, List.utf8Encode]
  rw [ofBytes?, hbytes, Utf8.fromUTF8?_toByteArray]

/-- Bytes that are a text are those of its characters. -/
theorem exists_of_ofBytes? {piece : List UInt8} {s : String} (h : ofBytes? piece = some s) :
    ∃ t, piece = bytes t := by
  rw [ofBytes?, String.fromUTF8?] at h
  split at h
  · next hvalid =>
    obtain ⟨t, ht⟩ := hvalid
    refine ⟨t, ?_⟩
    have hdata := congrArg (fun b : ByteArray => b.data.toList) ht
    simpa [bytes, List.utf8Encode] using hdata
  · cases h

/-- A character takes one byte, its number, or several bytes, and those are not below 128. -/
theorem utf8EncodeChar_cases (c : Char) :
    (c.toNat < 128 ∧ String.utf8EncodeChar c = [c.toNat.toUInt8]) ∨
      (128 ≤ c.toNat ∧ ∃ b bs, String.utf8EncodeChar c = b :: bs ∧ bs ≠ [] ∧
        ∀ x ∈ b :: bs, 128 ≤ x.toNat) := by
  rw [String.utf8EncodeChar]
  simp only [Char.toNat]
  split
  · exact .inl ⟨by omega, rfl⟩
  · refine .inr ⟨by omega, ?_⟩
    split
    · exact ⟨_, _, rfl, by simp, by simp; omega⟩
    · split <;> exact ⟨_, _, rfl, by simp, by simp; omega⟩

/-- A byte below 128 is that of one character. -/
theorem mem_bytes {b : UInt8} {s : List Char} (hmem : b ∈ bytes s) (hb : b.toNat < 128) :
    ∃ c ∈ s, c.toNat = b.toNat := by
  obtain ⟨c, hc, hbyte⟩ := List.mem_flatMap.1 hmem
  refine ⟨c, hc, ?_⟩
  rcases utf8EncodeChar_cases c with ⟨hlt, heq⟩ | ⟨-, b', bs, heq, -, hall⟩
  · rw [heq, List.mem_singleton] at hbyte
    rw [hbyte, Nat.toUInt8, UInt8.toNat_ofNat', Nat.mod_eq_of_lt (by omega)]
  · rw [heq] at hbyte
    have := hall b hbyte
    omega

theorem bytes_eq_cons {b : UInt8} {r : List UInt8} {s : List Char} (h : bytes s = b :: r) :
    ∃ c t, s = c :: t ∧ if b.toNat < 128 then r = bytes t else r ≠ [] := by
  cases s with
  | nil => cases h
  | cons c t =>
    refine ⟨c, t, rfl, ?_⟩
    rw [bytes_cons] at h
    rcases utf8EncodeChar_cases c with ⟨hlt, heq⟩ | ⟨-, b', bs, heq, hne, hall⟩
    · rw [heq, List.singleton_append, List.cons.injEq] at h
      rw [if_pos, h.2]
      rw [← h.1, Nat.toUInt8, UInt8.toNat_ofNat', Nat.mod_eq_of_lt (by omega)]
      exact hlt
    · rw [heq, List.cons_append, List.cons.injEq] at h
      have := hall b' List.mem_cons_self
      rw [if_neg (by rw [← h.1]; omega), ← h.2]
      simp [hne]

/-- After brackets there is no text in one byte that is not below 128. -/
theorem ofBytes?_eq_none {b : UInt8} (hb : 128 ≤ b.toNat) (n : Nat) :
    ofBytes? (List.replicate n 91 ++ [b]) = none := by
  refine Option.eq_none_iff_forall_ne_some.2 fun text htext => ?_
  obtain ⟨s, hs⟩ := exists_of_ofBytes? htext
  clear htext
  induction n generalizing s with
  | zero =>
    obtain ⟨c, t, -, hrest⟩ := bytes_eq_cons hs.symm
    rw [if_neg (by omega)] at hrest
    exact hrest rfl
  | succ n ih =>
    rw [List.replicate_succ, List.cons_append] at hs
    obtain ⟨c, t, -, hrest⟩ := bytes_eq_cons hs.symm
    rw [if_pos (by decide)] at hrest
    exact ih t hrest

/-! ## Cuts between bytes -/

section
variable {s p : List Char}

theorem cutArguments_of_ne_nil {b : List UInt8} (h : b ≠ []) :
    cutArguments b = b.take (argumentLength b) :: cutArguments (b.drop (argumentLength b)) := by
  cases b with
  | nil => contradiction
  | cons x b => rw [cutArguments]

theorem bytes_bracket (s : List Char) : bytes ('[' :: s) = 91 :: bytes s := rfl

theorem bytes_name (s : List Char) : bytes ('L' :: s) = 76 :: bytes s := rfl

theorem bytes_end : bytes [';'] = [59] := rfl

theorem bytes_ne_nil (h : s ≠ []) : bytes s ≠ [] := by
  cases s with
  | nil => contradiction
  | cons c s =>
    rw [bytes_cons]
    exact List.append_ne_nil_of_left_ne_nil String.utf8EncodeChar_ne_nil _

theorem argumentLength_bracket (b : List UInt8) :
    argumentLength (91 :: b) = argumentLength b + 1 := rfl

theorem argumentLength_name (b : List UInt8) :
    argumentLength (76 :: b) = (b.takeWhile (· ≠ 59)).length + 2 := rfl

theorem argumentLength_other {x : UInt8} (hbracket : x ≠ 91) (hname : x ≠ 76) (b : List UInt8) :
    argumentLength (x :: b) = 1 := by
  rw [argumentLength, if_neg hbracket, if_neg hname]

theorem takeWhile_bytes (h : ';' ∉ s) (rest : List UInt8) :
    (bytes s ++ rest).takeWhile (· ≠ 59) = bytes s ++ rest.takeWhile (· ≠ 59) := by
  refine List.takeWhile_append_of_pos fun b hb => decide_eq_true ?_
  rintro rfl
  obtain ⟨c, hc, hsame⟩ := mem_bytes hb (by decide)
  have hend : c = ';' := Char.toNat_inj.1 hsame
  exact h (hend ▸ hc)

/-- The bytes of a marked piece are cut off at its end, whatever follows. -/
theorem argumentLength_piece (hp : IsPiece p) (hmarked : isMarked p = true) (rest : List UInt8) :
    argumentLength (bytes p ++ rest) = (bytes p).length := by
  induction hp with
  | @plain c hbracket hname =>
    have hlt : c.toNat < 128 := by simpa [isMarked, mark?, hbracket] using hmarked
    have hone : bytes [c] = [c.toNat.toUInt8] := by
      rcases utf8EncodeChar_cases c with ⟨-, heq⟩ | ⟨hge, -⟩
      · rw [bytes, List.flatMap_singleton, heq]
      · omega
    have hne {d : Char} (hd : d.toNat < 128) (hcd : c ≠ d) : c.toNat.toUInt8 ≠ d.toNat.toUInt8 := by
      intro heq
      have hnat := congrArg UInt8.toNat heq
      simp only [Nat.toUInt8, UInt8.toNat_ofNat'] at hnat
      rw [Nat.mod_eq_of_lt (by omega), Nat.mod_eq_of_lt (by omega)] at hnat
      exact hcd (Char.toNat_inj.1 hnat)
    rw [hone, List.singleton_append, List.length_singleton]
    exact argumentLength_other (hne (d := '[') (by decide) hbracket)
      (hne (d := 'L') (by decide) hname) rest
  | @named s hs =>
    have hend : ([59] ++ rest : List UInt8).takeWhile (· ≠ 59) = [] := rfl
    rw [bytes_name, bytes_append, List.cons_append, argumentLength_name, List.append_assoc,
      takeWhile_bytes hs, bytes_end, hend, List.append_nil, List.length_cons, List.length_append,
      List.length_singleton]
  | array _ ih =>
    rw [bytes_bracket, List.cons_append, argumentLength_bracket, ih hmarked, List.length_cons]

theorem length_le_argumentLength (h : IsStump s) :
    (bytes s).length ≤ argumentLength (bytes s) := by
  induction h with
  | bracket => decide
  | @named s hs =>
    have hname := takeWhile_bytes hs []
    rw [List.append_nil] at hname
    rw [bytes_name, argumentLength_name, hname, List.length_cons, List.takeWhile_nil,
      List.append_nil]
    omega
  | array _ ih =>
    rw [bytes_bracket, argumentLength_bracket, List.length_cons]
    omega

/-- A piece whose mark takes several bytes is nothing but brackets and the mark. -/
theorem IsPiece.exists_wide (h : IsPiece p) (hmarked : isMarked p = false) :
    ∃ n c, p = List.replicate n '[' ++ [c] ∧ 128 ≤ c.toNat := by
  induction h with
  | @plain c hbracket hname =>
    refine ⟨0, c, rfl, ?_⟩
    simpa [isMarked, mark?, hbracket] using hmarked
  | named => cases hmarked
  | array _ ih =>
    obtain ⟨n, c, rfl, hc⟩ := ih hmarked
    exact ⟨n + 1, c, rfl, hc⟩

theorem bytes_replicate (n : Nat) : bytes (List.replicate n '[') = List.replicate n 91 := by
  induction n with
  | zero => rfl
  | succ n ih => rw [List.replicate_succ, bytes_bracket, ih, List.replicate_succ]

theorem argumentLength_replicate (n : Nat) (b : List UInt8) :
    argumentLength (List.replicate n 91 ++ b) = n + argumentLength b := by
  induction n with
  | zero => rw [List.replicate_zero, List.nil_append, Nat.zero_add]
  | succ n ih =>
    rw [List.replicate_succ, List.cons_append, argumentLength_bracket, ih]
    omega

/-- The cut goes through a mark of several bytes. -/
theorem ofBytes?_wide {c : Char} (hc : 128 ≤ c.toNat) (n : Nat) (rest : List UInt8) :
    let b := bytes (List.replicate n '[' ++ [c]) ++ rest
    ofBytes? (b.take (argumentLength b)) = none := by
  intro b
  rcases utf8EncodeChar_cases c with ⟨hlt, -⟩ | ⟨-, x, xs, heq, -, hall⟩
  · omega
  · have hx : 128 ≤ x.toNat := hall x List.mem_cons_self
    have hne {y : UInt8} (hy : y.toNat < 128) : x ≠ y := by
      rintro rfl
      omega
    have hb : b = List.replicate n 91 ++ x :: (xs ++ rest) := by
      simp only [b, bytes_append, bytes_replicate, List.append_assoc]
      rw [bytes, List.flatMap_singleton, heq, List.cons_append]
    have htake : b.take (argumentLength b) = List.replicate n 91 ++ [x] := by
      rw [hb, argumentLength_replicate, argumentLength_other (hne (by decide)) (hne (by decide)),
        List.take_append, List.length_replicate]
      simp
    rw [htake]
    exact ofBytes?_eq_none hx n

end

/-! ## Arguments -/

/-- The pieces come out whole, or nothing does. -/
theorem mapM_cutArguments {s : List Char} {ps : List (List Char)} (h : Cut s ps) :
    (cutArguments (bytes s)).mapM ofBytes? =
      if ps.all isMarked then some (ps.map String.ofList) else none := by
  induction h with
  | nil => simp [bytes, cutArguments]
  | @stump s hs =>
    have hlength := length_le_argumentLength hs
    rw [cutArguments_of_ne_nil (bytes_ne_nil hs.ne_nil), List.take_of_length_le hlength,
      List.drop_of_length_le hlength]
    simp [cutArguments, ofBytes?_bytes, hs.isMarked]
  | @piece p s ps hp _ ih =>
    have hne : bytes (p ++ s) ≠ [] := bytes_ne_nil (List.append_ne_nil_of_left_ne_nil hp.ne_nil s)
    rw [cutArguments_of_ne_nil hne, List.mapM_cons, bytes_append]
    cases hmarked : isMarked p with
    | true =>
      rw [argumentLength_piece hp hmarked, List.take_left, List.drop_left, ih, ofBytes?_bytes]
      by_cases hall : ps.all isMarked <;> simp [hall, hmarked]
    | false =>
      obtain ⟨n, c, rfl, hc⟩ := hp.exists_wide hmarked
      rw [ofBytes?_wide hc n]
      simp [hmarked]

theorem splitAt?_of_notMem {c : Char} {s : List Char} (h : c ∉ s) (r : List Char) :
    splitAt? c (s ++ c :: r) = some (s, r) := by
  induction s with
  | nil => simp [splitAt?]
  | cons a s ih =>
    simp only [List.mem_cons, not_or] at h
    rw [List.cons_append, splitAt?, if_neg (Ne.symm h.1), ih h.2]
    rfl

theorem mem_of_splitAt? {c : Char} {s a r : List Char} (h : splitAt? c s = some (a, r)) :
    s = a ++ c :: r := by
  induction s generalizing a with
  | nil => cases h
  | cons x s ih =>
    rw [splitAt?] at h
    split at h
    · next hx =>
      cases h
      rw [hx, List.nil_append]
    · obtain ⟨⟨a', r'⟩, hsplit, heq⟩ := Option.map_eq_some_iff.1 h
      cases heq
      rw [ih hsplit, List.cons_append]

theorem toList_enclosed (a r : String) :
    ("(" ++ a ++ ")" ++ r).toList = '(' :: (a.toList ++ ')' :: r.toList) := by
  simp

/-- What stands between the parentheses is cut, and the rest is the result. -/
theorem arguments?_enclosed {a : String} (ha : ')' ∉ a.toList) (r : String) :
    arguments? ("(" ++ a ++ ")" ++ r) = (cutArguments (bytes a.toList)).mapM ofBytes? := by
  rw [arguments?, toList_enclosed]
  simp only [splitAt?_of_notMem ha, toList_toUTF8]
  rfl

theorem arguments?_of_not_enclosed {method : String}
    (h : ∀ a r, method ≠ "(" ++ a ++ ")" ++ r) : arguments? method = some [] := by
  rw [arguments?]
  split
  · next rest hopen =>
    cases hsplit : splitAt? ')' rest with
    | none => rfl
    | some parts =>
      refine absurd ?_ (h (String.ofList parts.1) (String.ofList parts.2))
      rw [← String.toList_inj, toList_enclosed, hopen, mem_of_splitAt? hsplit]
      simp
  · rfl

theorem join_eq {pieces : List String} {a : String}
    (h : Cut a.toList (pieces.map String.toList)) : String.join pieces = a := by
  rw [← String.toList_inj, ← h.flatten]
  simp [List.flatMap_def]

/-- The arguments of a method signature are there exactly if no piece between its parentheses is
marked by a character of several bytes, and then they are the pieces, which put together are the
text between the parentheses. Without parentheses there are no arguments. -/
theorem split_iff_marked (method : String) :
    ((∀ a r, method ≠ "(" ++ a ++ ")" ++ r) → arguments? method = some []) ∧
    ∀ a r : String, method = "(" ++ a ++ ")" ++ r → ')' ∉ a.toList →
      (∃ pieces : List String, Cut a.toList (pieces.map String.toList)) ∧
      ∀ pieces : List String, Cut a.toList (pieces.map String.toList) →
        String.join pieces = a ∧ "" ∉ pieces ∧
        arguments? method =
          if pieces.all fun p => isMarked p.toList then some pieces else none := by
  refine ⟨arguments?_of_not_enclosed, ?_⟩
  rintro a r rfl ha
  refine ⟨?_, fun pieces hcut => ?_⟩
  · obtain ⟨ps, hps⟩ := exists_cut a.toList
    refine ⟨ps.map String.ofList, ?_⟩
    simpa [Function.comp_def] using hps
  · refine ⟨join_eq hcut, fun hempty => hcut.nil_notMem ?_, ?_⟩
    · exact List.mem_map.2 ⟨"", hempty, rfl⟩
    · rw [arguments?_enclosed ha, mapM_cutArguments hcut]
      simp [Function.comp_def]

/-- An array of a class whose name has a character of two bytes, an `int`, and a class whose name
does not end. -/
theorem split_iff_marked_wide_name :
    ')' ∉ "[LÜ;IL".toList ∧ arguments? "([LÜ;IL)V" = some ["[LÜ;", "I", "L"] := by
  have hopen : ')' ∉ "[LÜ;IL".toList := by decide +kernel
  have hname : IsPiece "[LÜ;".toList := (IsPiece.named (s := ['Ü']) (by decide)).array
  have hcut : Cut "[LÜ;IL".toList (["[LÜ;", "I", "L"].map String.toList) :=
    .piece hname (.piece (.plain (c := 'I') (by decide) (by decide))
      (.stump (.named (s := []) (by decide))))
  refine ⟨hopen, ?_⟩
  have hsplit := (((split_iff_marked "([LÜ;IL)V").2 "[LÜ;IL" "V" rfl hopen).2 _ hcut).2.2
  rwa [if_pos (by decide +kernel)] at hsplit

/-- The mark of the one argument takes two bytes. -/
theorem not_always_split : ¬∀ method, ∃ pieces, arguments? method = some pieces := by
  intro hall
  obtain ⟨pieces, hpieces⟩ := hall "(é)V"
  have hcut : Cut "é".toList [['é']] :=
    .piece (.plain (c := 'é') (by decide) (by decide)) .nil
  have hnone : arguments? "(é)V" = none :=
    (arguments?_enclosed (a := "é") (by decide +kernel) "V").trans (mapM_cutArguments hcut)
  cases hnone.symm.trans hpieces

/-! ## Arguments put together -/

/-- A field signature: brackets, then the tag of a primitive type, or `L`, a name and `;`. -/
inductive IsField : List Char → Prop
  | primitive {p : Char × String} (hp : p ∈ primitives) : IsField [p.1]
  | object {s : List Char} (hs : ∀ c ∈ s, c ≠ ';' ∧ c ≠ ')') : IsField ('L' :: (s ++ [';']))
  | array {s : List Char} (hs : IsField s) : IsField ('[' :: s)

theorem primitive_tag : ∀ p ∈ primitives,
    p.1 ≠ '[' ∧ p.1 ≠ 'L' ∧ p.1 ≠ ')' ∧ isMarked [p.1] = true := by
  decide

theorem IsField.isPiece {s : List Char} (h : IsField s) :
    IsPiece s ∧ isMarked s = true ∧ ')' ∉ s := by
  induction h with
  | primitive hp =>
    obtain ⟨hbracket, hname, hclose, hmarked⟩ := primitive_tag _ hp
    exact ⟨.plain hbracket hname, hmarked, by simpa using hclose.symm⟩
  | @object s hs =>
    refine ⟨.named fun hend => (hs _ hend).1 rfl, rfl, ?_⟩
    have hclose : ')' ∉ s := fun hclose => (hs _ hclose).2 rfl
    simpa using hclose
  | array _ ih =>
    obtain ⟨hpiece, hmarked, hclose⟩ := ih
    exact ⟨hpiece.array, hmarked, by simpa using hclose⟩

theorem cut_fields {fields : List (List Char)} (h : ∀ s ∈ fields, IsField s) :
    Cut fields.flatten fields := by
  induction fields with
  | nil => exact .nil
  | cons s fields ih =>
    rw [List.flatten_cons]
    exact .piece (h s List.mem_cons_self).isPiece.1
      (ih fun t ht => h t (List.mem_cons_of_mem s ht))

theorem result_enclosed {a : String} (ha : ')' ∉ a.toList) (r : String) :
    result ("(" ++ a ++ ")" ++ r) = r := by
  have hopen : ')' ∉ '(' :: a.toList := by simpa using ha
  rw [result, toList_enclosed, ← List.cons_append, splitAt?_of_notMem hopen]
  simp

/-- A method signature that is made of field signatures and a result has these arguments, in this
order, and this result. -/
theorem arguments_and_result {fields : List String} (h : ∀ s ∈ fields, IsField s.toList)
    (r : String) :
    arguments? ("(" ++ String.join fields ++ ")" ++ r) = some fields ∧
      result ("(" ++ String.join fields ++ ")" ++ r) = r := by
  have hfields : ∀ s ∈ fields.map String.toList, IsField s := by simpa using h
  have htext : (String.join fields).toList = (fields.map String.toList).flatten := by
    simp [List.flatMap_def]
  have hclose : ')' ∉ (String.join fields).toList := by
    rw [htext, List.mem_flatten]
    rintro ⟨s, hs, hmem⟩
    exact (hfields s hs).isPiece.2.2 hmem
  have hmarked : (fields.map String.toList).all isMarked = true :=
    List.all_eq_true.2 fun s hs => (hfields s hs).isPiece.2.1
  refine ⟨?_, result_enclosed hclose r⟩
  rw [arguments?_enclosed hclose, htext, mapM_cutArguments (cut_fields hfields), if_pos hmarked]
  simp [Function.comp_def]

/-- Names with tag letters, brackets, parentheses and characters of several bytes, next to each
other. -/
theorem arguments_and_result_adjacent :
    (∀ s ∈ ["[[J", "LI/[L(Ü;", "Z"], IsField s.toList) ∧
      arguments? "([[JLI/[L(Ü;Z)[Lé;" = some ["[[J", "LI/[L(Ü;", "Z"] ∧
      result "([[JLI/[L(Ü;Z)[Lé;" = "[Lé;" := by
  have hfields : ∀ s ∈ ["[[J", "LI/[L(Ü;", "Z"], IsField s.toList := by
    refine List.forall_mem_cons.2 ⟨?_, List.forall_mem_cons.2 ⟨?_, List.forall_mem_singleton.2 ?_⟩⟩
    · exact (IsField.primitive (p := ('J', "long")) (by decide)).array.array
    · exact .object (s := "I/[L(Ü".toList) (by simp)
    · exact .primitive (p := ('Z', "boolean")) (by decide)
  exact ⟨hfields, arguments_and_result hfields "[Lé;"⟩

end JvmDebug.Signature
