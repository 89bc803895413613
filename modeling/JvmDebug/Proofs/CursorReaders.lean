import JvmDebug.Proofs.Cursor
import JvmDebug.Proofs.ParserImage

/-!
What the readers find from a cursor is what they find in the characters that remain behind it. The
characters may end in blanks of which the remaining ones do not know: outside of quotes a reader
stops at a blank as it stops at the end, and a quote that is open at the end is a fault either way.
-/
namespace JvmDebug.Grammar.Cursor
open Text

/-! ## Characters that are no blanks -/

/-- No blank is in the class. -/
def Solid (p : Char → Bool) : Prop := ∀ c, p c = true → isBlank c = false

theorem ne_of_isBlank {c d : Char} (hc : isBlank c = true) (hd : isBlank d = false) : c ≠ d := by
  rintro rfl
  simp [hc] at hd

theorem Solid.false_of_isBlank {p : Char → Bool} (hp : Solid p) {c : Char}
    (h : isBlank c = true) : p c = false := by
  refine Bool.eq_false_iff.2 fun hc => ?_
  simp [hp c hc] at h

theorem solid_or {p q : Char → Bool} (hp : Solid p) (hq : Solid q) : Solid fun c => p c || q c := by
  intro c hc
  rcases Bool.or_eq_true_iff.1 hc with hc | hc
  · exact hp c hc
  · exact hq c hc

theorem solid_beq {d : Char} (hd : isBlank d = false) : Solid (· == d) := by
  intro c hc
  rwa [eq_of_beq hc]

theorem solid_namePart : Solid isNamePart := fun _ => isBlank_of_isNamePart

theorem solid_nameStart : Solid isNameStart := fun c hc =>
  solid_namePart c (isNamePart_of_isNameStart hc)

theorem solid_hexDigit : Solid isHexDigit := fun c hc =>
  solid_namePart c (isNamePart_of_isHexDigit hc)

theorem solid_digit : Solid Char.isDigit := fun c hc => solid_hexDigit c (by simp [isHexDigit, hc])

theorem solid_longSuffix : Solid isLongSuffix := fun c hc =>
  solid_namePart c (isNamePart_of_isLongSuffix c hc)

/-! ## The place of the cursor -/

/-- The cursor stands in front of `rest`; behind that come blanks, an end of `w`, and no more. -/
def Stands (chars w : List Char) (pos : Nat) (rest : Rest) : Prop :=
  ∃ before gap, chars = before ++ (rest ++ gap) ∧ before.length = pos ∧ gap <:+ w ∧
    ∀ c ∈ gap, isBlank c = true

variable {chars w : List Char} {pos : Nat} {s : Rest}

theorem stands_start (hw : ∀ c ∈ w, isBlank c = true) : Stands (s ++ w) w 0 s :=
  ⟨[], w, rfl, rfl, List.suffix_refl w, hw⟩

namespace Stands

theorem le_length (h : Stands chars w pos s) : pos ≤ chars.length := by
  obtain ⟨before, gap, rfl, rfl, -⟩ := h
  simp

theorem length_eq (h : Stands chars [] pos s) : pos + s.length = chars.length := by
  obtain ⟨before, gap, rfl, rfl, hgap, -⟩ := h
  simp [List.suffix_nil.1 hgap]

/-- What stands before the cursor can be cut out. -/
theorem advance {t rest : Rest} (h : Stands chars w pos (t ++ rest)) :
    Stands chars w (pos + t.length) rest ∧ cut chars pos (pos + t.length) = .ok t := by
  obtain ⟨before, gap, rfl, rfl, hgap⟩ := h
  refine ⟨⟨before ++ t, gap, by simp, by simp, hgap⟩, ?_⟩
  rw [cut, if_pos (by simp), List.append_assoc]
  simp [List.take_append, List.take_of_length_le]

theorem cons {c : Char} (h : Stands chars w pos (c :: s)) :
    chars[pos]? = some c ∧ Stands chars w (pos + 1) s := by
  refine ⟨?_, h.advance (t := [c]).1⟩
  obtain ⟨before, gap, rfl, rfl, -⟩ := h
  simp

theorem nil (h : Stands chars w pos []) : chars[pos]? = none ∨
    ∃ c, chars[pos]? = some c ∧ isBlank c = true ∧ w ≠ [] ∧ Stands chars w (pos + 1) [] := by
  obtain ⟨before, gap, rfl, rfl, hgap, hblank⟩ := h
  cases gap with
  | nil => exact .inl (by simp)
  | cons c gap =>
    obtain ⟨hc, hblank⟩ := List.forall_mem_cons.1 hblank
    refine .inr ⟨c, by simp, hc, ?_, before ++ [c], gap, by simp, by simp, ?_, hblank⟩
    · rintro rfl
      simp at hgap
    · exact (List.suffix_cons c gap).trans hgap

theorem isAt_eq {p : Char → Bool} (hp : Solid p) (h : Stands chars w pos s) :
    isAt chars p pos = startsWith p s := by
  cases s with
  | cons c s => simp [isAt, h.cons.1, startsWith]
  | nil =>
    rcases h.nil with hnone | ⟨c, hc, hblank, -⟩
    · simp [isAt, hnone, startsWith]
    · simp [isAt, hc, startsWith, hp.false_of_isBlank hblank]

/-- A character that is no blank is in front of the cursor just if it is the first that remains. -/
theorem getElem?_eq {c : Char} (hc : isBlank c = false) (h : Stands chars w pos s) :
    chars[pos]? = some c ↔ s.head? = some c := by
  cases s with
  | cons d s => simp [h.cons.1]
  | nil =>
    rcases h.nil with hnone | ⟨d, hd, hblank, -⟩
    · simp [hnone]
    · simp [hd, ne_of_isBlank hblank hc]

theorem exists_of_at {c : Char} (hc : isBlank c = false) (h : Stands chars w pos s)
    (hat : chars[pos]? = some c) : ∃ r, s = c :: r :=
  List.head?_eq_some_iff.1 ((h.getElem?_eq hc).1 hat)

/-- What does not stand first among the remaining characters is not in front of the cursor. -/
theorem not_at {c : Char} (hc : isBlank c = false) (h : Stands chars w pos s)
    (hs : ∀ r, s = c :: r → False) : chars[pos]? ≠ some c := fun hat =>
  (h.exists_of_at hc hat).elim hs

theorem skip_eq {p : Char → Bool} (hp : Solid p)
    (h : Stands chars w pos s) : skip chars p pos = pos + (s.takeWhile p).length := by
  induction s generalizing pos with
  | nil =>
    rw [skip, dif_neg (by simp [h.isAt_eq hp, startsWith])]
    rfl
  | cons c s ih =>
    by_cases hc : p c = true
    · rw [skip, dif_pos (by simpa [h.isAt_eq hp, startsWith] using hc), ih h.cons.2,
        List.takeWhile_cons_of_pos hc, List.length_cons]
      omega
    · rw [skip, dif_neg (by simpa [h.isAt_eq hp, startsWith] using hc),
        List.takeWhile_cons_of_neg hc]
      rfl

/-- What is skipped can be cut out. -/
theorem skip {p : Char → Bool} (hp : Solid p)
    (h : Stands chars w pos s) : Stands chars w (Cursor.skip chars p pos) (s.dropWhile p) ∧
      cut chars pos (Cursor.skip chars p pos) = .ok (s.takeWhile p) := by
  rw [h.skip_eq hp]
  exact advance (by rwa [List.takeWhile_append_dropWhile])

theorem skip_nil (h : Stands chars w pos []) : Stands chars w (Cursor.skip chars isBlank pos) [] ∧
    chars[Cursor.skip chars isBlank pos]? = none := by
  fun_induction Cursor.skip chars isBlank pos with
  | case1 pos hblank ih =>
    rcases h.nil with hnone | ⟨c, hc, -, -, hnext⟩
    · simp [isAt, hnone] at hblank
    · exact ih hnext
  | case2 pos hblank =>
    refine ⟨h, ?_⟩
    rcases h.nil with hnone | ⟨c, hc, hc', -⟩
    · exact hnone
    · simp [isAt, hc, hc'] at hblank

/-- Behind the blanks the cursor sees what remains, and the end if nothing does. -/
theorem skipBlanks (h : Stands chars w pos s) :
    Stands chars w (Cursor.skip chars isBlank pos) (Text.skipBlanks s) ∧
      chars[Cursor.skip chars isBlank pos]? = (Text.skipBlanks s).head? := by
  induction s generalizing pos with
  | nil => exact h.skip_nil
  | cons c s ih =>
    obtain ⟨hat, hnext⟩ := h.cons
    by_cases hc : isBlank c = true
    · rw [Cursor.skip, dif_pos (by simpa [isAt, hat] using hc)]
      simpa [Text.skipBlanks, hc] using ih hnext
    · rw [Cursor.skip, dif_neg (by simpa [isAt, hat] using hc)]
      simpa [Text.skipBlanks, hc] using And.intro h hat

/-- The first character behind the blanks. -/
theorem first {c : Char} {r : Rest} (h : Stands chars w pos s) (hs : Text.skipBlanks s = c :: r) :
    chars[Cursor.skip chars isBlank pos]? = some c ∧
      Stands chars w (Cursor.skip chars isBlank pos + 1) r := by
  obtain ⟨hskip, -⟩ := h.skipBlanks
  rw [hs] at hskip
  exact hskip.cons

theorem not_first {c : Char} (hc : isBlank c = false) (h : Stands chars w pos s)
    (hs : ∀ r, Text.skipBlanks s = c :: r → False) :
    chars[Cursor.skip chars isBlank pos]? ≠ some c :=
  h.skipBlanks.1.not_at hc hs

/-- A name that starts here can be cut out. -/
theorem name {c : Char} {r : Rest} (h : Stands chars w pos (c :: r)) (hc : isNameStart c = true) :
    Stands chars w (Cursor.skip chars isNamePart pos) (r.dropWhile isNamePart) ∧
      cut chars pos (Cursor.skip chars isNamePart pos) = .ok (c :: r.takeWhile isNamePart) := by
  have hskip := h.skip solid_namePart
  have hpart := isNamePart_of_isNameStart hc
  rwa [List.dropWhile_cons_of_pos hpart, List.takeWhile_cons_of_pos hpart] at hskip

theorem spells_eq {token : List Char} (htoken : token.any isBlank = false)
    (h : Stands chars w pos s) : spells chars token pos = (afterPrefix? token s).isSome := by
  induction token generalizing pos s with
  | nil => rfl
  | cons a token ih =>
    obtain ⟨ha, htoken⟩ := Bool.or_eq_false_iff.1 htoken
    have hhead := h.getElem?_eq ha
    cases s with
    | nil =>
      have hne : chars[pos]? ≠ some a := by simp [hhead]
      simp [spells, afterPrefix?, hne]
    | cons c s =>
      rw [spells, h.cons.1, ih htoken h.cons.2]
      by_cases hc : a = c
      · simp [afterPrefix?, hc]
      · simp [afterPrefix?, hc, Ne.symm hc]

end Stands

/-! ## What is found -/

/-- The same is found, with the cursor in front of what remains. -/
def Found {α : Type} (chars w : List Char) (p : α × Nat) (q : α × Rest) : Prop :=
  p.1 = q.1 ∧ Stands chars w p.2 q.2

/-- It is a fault of the source, and the same one at the same place if no blanks were added. -/
def Blames (chars w : List Char) : Stop → Fault → Prop
  | .fault e, f =>
    w = [] → e.message = f.kind.message ∧ e.position + f.remaining = chars.length
  | .outside, _ => False

inductive Reads {α : Type} (chars w : List Char) : Except Stop (α × Nat) → Read α → Prop
  | found {p : α × Nat} {q : α × Rest} (h : Found chars w p q) : Reads chars w (.ok p) (.ok q)
  | fault {stop : Stop} {f : Fault} (h : Blames chars w stop f) :
      Reads chars w (.error stop) (.error f)

theorem Stands.found {α : Type} (a : α) (h : Stands chars w pos s) :
    Reads chars w (.ok (a, pos)) (.ok (a, s)) :=
  .found ⟨rfl, h⟩

theorem Stands.blames (kind : FaultKind) (h : Stands chars w pos s) :
    Blames chars w (.fault ⟨kind.message, pos⟩) ⟨kind, s.length⟩ := by
  rintro rfl
  exact ⟨rfl, h.length_eq⟩

theorem Stands.fail {α : Type} (kind : FaultKind) (h : Stands chars w pos s) :
    Reads (α := α) chars w (Cursor.fail kind pos) (Grammar.fail kind s) :=
  .fault (h.blames kind)

theorem Reads.cases {α : Type} {read : Except Stop (α × Nat)} {read' : Read α}
    (h : Reads chars w read read') :
    (∃ a pos s, read = .ok (a, pos) ∧ read' = .ok (a, s) ∧ Stands chars w pos s) ∨
      ∃ stop f, read = .error stop ∧ read' = .error f ∧ Blames chars w stop f := by
  cases h with
  | @found p q h =>
    obtain ⟨a, pos⟩ := p
    obtain ⟨b, s⟩ := q
    obtain ⟨rfl, hs⟩ := h
    exact .inl ⟨a, pos, s, rfl, rfl, hs⟩
  | fault h => exact .inr ⟨_, _, rfl, rfl, h⟩

/-- With blanks added one fault is as good as another. -/
theorem Reads.another_fault {α : Type} {read : Except Stop (α × Nat)} {f : Fault} (hw : w ≠ [])
    (h : Reads chars w read (.error f)) (g : Fault) : Reads chars w read (.error g) := by
  cases h with
  | @fault stop f h =>
    cases stop with
    | outside => exact h.elim
    | fault e => exact .fault fun hnone => absurd hnone hw

theorem Reads.ite {α : Type} {p : Prop} {i j : Decidable p} {a b : Except Stop (α × Nat)}
    {a' b' : Read α} (h : Reads chars w a a') (h' : Reads chars w b b') :
    Reads chars w (@ite _ p i a b) (@ite _ p j a' b') := by
  by_cases hp : p
  · rwa [if_pos hp, if_pos hp]
  · rwa [if_neg hp, if_neg hp]

theorem Reads.map {α β : Type} {read : Except Stop (α × Nat)} {read' : Read α} (f : α → β)
    (h : Reads chars w read read') :
    Reads chars w (read.map fun (a, pos) => (f a, pos)) (read'.map fun (a, s) => (f a, s)) := by
  cases h with
  | found h => exact .found ⟨congrArg f h.1, h.2⟩
  | fault h => exact .fault h

theorem rel_cases {α β : Type} {r : α → β → Prop} {x : Option α} {y : Option β}
    (h : Option.Rel r x y) : (∃ a b, x = some a ∧ y = some b ∧ r a b) ∨ x = none ∧ y = none := by
  cases h with
  | some h => exact .inl ⟨_, _, rfl, rfl, h⟩
  | none => exact .inr ⟨rfl, rfl⟩

theorem rel_filter {α β : Type} {r : α → β → Prop} {x : Option α} {y : Option β} {p : α → Bool}
    {q : β → Bool} (h : Option.Rel r x y) (hpq : ∀ a b, r a b → p a = q b) :
    Option.Rel r (x.filter p) (y.filter q) := by
  cases h with
  | none => exact .none
  | @some a b h =>
    rw [Option.filter_some, Option.filter_some, hpq a b h]
    split
    · exact .some h
    · exact .none

theorem rel_map {α β γ δ : Type} {r : α → β → Prop} {t : γ → δ → Prop} {x : Option α} {y : Option β}
    {f : α → γ} {g : β → δ} (h : Option.Rel r x y) (hfg : ∀ a b, r a b → t (f a) (g b)) :
    Option.Rel t (x.map f) (y.map g) := by
  cases h with
  | none => exact .none
  | some h => exact .some (hfg _ _ h)

theorem rel_or {α β : Type} {r : α → β → Prop} {x x' : Option α} {y y' : Option β}
    (h : Option.Rel r x y) (h' : Option.Rel r x' y') : Option.Rel r (x.or x') (y.or y') := by
  cases h with
  | none => exact h'
  | some h => exact .some h

/-! ## Signs -/

theorem eat?_rel (token : String) (htoken : token.toList.any isBlank = false)
    (h : Stands chars w pos s) :
    Option.Rel (Stands chars w) (eat? chars token pos) (Grammar.eat? token s) := by
  obtain ⟨hskip, -⟩ := h.skipBlanks
  have hspells := hskip.spells_eq htoken
  simp only [eat?, Grammar.eat?]
  cases hread : afterPrefix? token.toList (Text.skipBlanks s) with
  | none =>
    rw [hspells, hread]
    exact .none
  | some r =>
    rw [afterPrefix?_eq_some.1 hread] at hskip
    rw [hspells, hread]
    exact .some hskip.advance.1

theorem eatOperator?_rel (token : String) (htoken : token.toList.any isBlank = false)
    (h : Stands chars w pos s) :
    Option.Rel (Stands chars w) (eatOperator? chars token pos) (Grammar.eatOperator? token s) :=
  rel_filter (eat?_rel token htoken h) fun _ _ hs => by rw [hs.isAt_eq (solid_beq (by decide))]

theorem eatWord?_rel (word : String) (hword : word.toList.any isBlank = false)
    (h : Stands chars w pos s) :
    Option.Rel (Stands chars w) (eatWord? chars word pos) (Grammar.eatWord? word s) :=
  rel_filter (eat?_rel word hword h) fun _ _ hs => by rw [hs.isAt_eq solid_namePart]

theorem expect_cases (c : Char) (h : Stands chars w pos s) :
    (∃ stop r, expect chars c pos = .ok stop ∧ Grammar.expect c s = .ok r ∧ Stands chars w stop r) ∨
      ∃ stop f, expect chars c pos = .error stop ∧ Grammar.expect c s = .error f ∧
        Blames chars w stop f := by
  obtain ⟨hskip, hhead⟩ := h.skipBlanks
  simp only [expect, Grammar.expect, hhead]
  cases hs : Text.skipBlanks s with
  | nil =>
    rw [hs] at hskip
    exact .inr ⟨_, _, rfl, rfl, hskip.blames _⟩
  | cons d r =>
    rw [hs] at hskip
    simp only [List.head?_cons]
    by_cases hd : d = c
    · rw [if_pos hd, if_pos hd]
      exact .inl ⟨_, _, rfl, rfl, hskip.cons.2⟩
    · rw [if_neg hd, if_neg hd]
      exact .inr ⟨_, _, rfl, rfl, hskip.blames _⟩

theorem operator?_rel (level : Nat) (h : Stands chars w pos s) :
    Option.Rel (Found chars w) (operator? chars level pos) (Machine.operator? level s) := by
  have plain (op : BinaryOp) : Option.Rel (Found chars w)
      ((eat? chars op.symbol pos).map fun pos => (op, pos))
      ((Grammar.eat? op.symbol s).map fun r => (op, r)) :=
    rel_map (eat?_rel _ (by cases op <;> decide) h) fun _ _ hs => ⟨rfl, hs⟩
  have guarded (op : BinaryOp) : Option.Rel (Found chars w)
      ((eatOperator? chars op.symbol pos).map fun pos => (op, pos))
      ((Grammar.eatOperator? op.symbol s).map fun r => (op, r)) :=
    rel_map (eatOperator?_rel _ (by cases op <;> decide) h) fun _ _ hs => ⟨rfl, hs⟩
  match level with
  | 0 | 1 => exact plain _
  | 2 => exact rel_or (plain _) (plain _)
  | 3 => exact rel_or (plain _) (rel_or (plain _) (rel_or (plain _) (plain _)))
  | 4 => exact rel_or (guarded _) (guarded _)
  | 5 => exact rel_or (guarded _) (rel_or (guarded _) (guarded _))
  | _ + 6 => exact .none

/-! ## Names -/

theorem readName_reads (h : Stands chars w pos s) :
    Reads chars w (readName chars pos) (Grammar.readName s) := by
  obtain ⟨hskip, -⟩ := h.skipBlanks
  simp only [readName, Grammar.readName, hskip.isAt_eq solid_nameStart]
  cases hs : Text.skipBlanks s with
  | nil =>
    rw [hs] at hskip
    exact hskip.fail _
  | cons c r =>
    rw [hs] at hskip
    by_cases hc : isNameStart c = true
    · obtain ⟨hstop, hcut⟩ := hskip.name hc
      simp only [startsWith, hc, if_true, hcut]
      exact hstop.found _
    · simp only [startsWith, hc]
      exact hskip.fail _

theorem exists_readQualifiers (h : Stands chars w pos s) :
    ∃ stop, readQualifiers chars pos = .ok ((Grammar.readQualifiers s).1, stop) ∧
      Stands chars w stop (Grammar.readQualifiers s).2 := by
  fun_induction Grammar.readQualifiers s generalizing pos with
  | case1 s r hs c t hr hc names rest heq ih =>
    obtain ⟨hdot, hnext⟩ := h.first hs
    obtain ⟨hstart, -⟩ := hnext.skipBlanks
    rw [hr] at hstart
    obtain ⟨hstop, hcut⟩ := hstart.name hc
    have hat : isAt chars isNameStart _ = true := (hstart.isAt_eq solid_nameStart).trans hc
    obtain ⟨stop, hread, hrest⟩ := ih hstop
    rw [heq] at hread hrest
    refine ⟨stop, ?_, hrest⟩
    rw [readQualifiers]
    simp only [if_pos hdot, hat, dif_pos, hcut]
    show readQualifiers chars _ >>= _ = _
    rw [hread]
    rfl
  | case2 s r hs c t hr hc =>
    obtain ⟨hdot, hnext⟩ := h.first hs
    obtain ⟨hstart, -⟩ := hnext.skipBlanks
    rw [hr] at hstart
    have hat : isAt chars isNameStart _ = false :=
      (hstart.isAt_eq solid_nameStart).trans (Bool.not_eq_true _ ▸ hc)
    rw [readQualifiers]
    exact ⟨pos, by simp [hdot, hat], h⟩
  | case3 s r hs hr =>
    obtain ⟨hdot, hnext⟩ := h.first hs
    obtain ⟨hstart, -⟩ := hnext.skipBlanks
    rw [hr] at hstart
    have hat : isAt chars isNameStart _ = false := hstart.isAt_eq solid_nameStart
    rw [readQualifiers]
    exact ⟨pos, by simp [hdot, hat], h⟩
  | case4 s hs =>
    rw [readQualifiers]
    exact ⟨pos, if_neg (h.not_first (by decide) hs), h⟩

theorem readDimensions_found (h : Stands chars w pos s) :
    Found chars w (readDimensions chars pos) (Grammar.readDimensions s) := by
  fun_induction Grammar.readDimensions s generalizing pos with
  | case1 s r hs t hr pairs rest heq ih =>
    obtain ⟨hopen, hnext⟩ := h.first hs
    obtain ⟨hclose, hnext⟩ := hnext.first hr
    obtain ⟨hpairs, hrest⟩ := ih hnext
    rw [heq] at hpairs hrest
    rw [readDimensions]
    simp only [if_pos hopen, dif_pos hclose]
    exact ⟨congrArg ('[' :: ']' :: ·) hpairs, hrest⟩
  | case2 s r hs hr =>
    obtain ⟨hopen, hnext⟩ := h.first hs
    rw [readDimensions]
    simp only [if_pos hopen, dif_neg (hnext.not_first (by decide) hr)]
    exact ⟨rfl, h⟩
  | case3 s hs =>
    rw [readDimensions, if_neg (h.not_first (by decide) hs)]
    exact ⟨rfl, h⟩

theorem readTypeName_reads (h : Stands chars w pos s) :
    Reads chars w (readTypeName chars pos) (Grammar.readTypeName s) := by
  simp only [readTypeName, Grammar.readTypeName]
  obtain ⟨first, stop, r, hread, hread', hr⟩ | ⟨stop, f, hread, hread', hf⟩ :=
    (readName_reads h).cases
  · obtain ⟨stop', hnames, ht⟩ := exists_readQualifiers hr
    obtain ⟨hpairs, hrest⟩ := readDimensions_found ht
    rw [hread, hread']
    show Reads chars w (readQualifiers chars stop >>= _) _
    rw [hnames]
    exact .found ⟨by rw [hpairs], hrest⟩
  · rw [hread, hread']
    exact .fault hf

/-! ## Literals -/

section
variable {opening : Nat} {start : Rest}

/-- Behind the end of the source there is no quote. -/
theorem readStringBody_nil (hstart : Stands chars w opening start) (h : Stands chars w pos []) :
    Reads chars w (readStringBody chars opening pos) (Grammar.fail .unterminatedString start) := by
  induction hn : chars.length - pos using Nat.strongRecOn generalizing pos with
  | ind n ih =>
    rcases h.nil with hnone | ⟨c, hc, hblank, -, hnext⟩
    · rw [readStringBody]
      split <;> simp_all [hstart.fail]
    · have hlt := (List.getElem?_eq_some_iff.1 hc).1
      rw [readStringBody_plain hc (ne_of_isBlank hblank (by decide))
        (ne_of_isBlank hblank (by decide))]
      exact (ih _ (by omega) hnext rfl).map (c :: ·)

theorem ne_backslash {c : Char} {r : Rest} (hescape : ∀ d t, c = '\\' → r = d :: t → False)
    (hlast : c = '\\' → r = [] → False) : c ≠ '\\' := by
  rintro rfl
  cases r with
  | nil => exact hlast rfl rfl
  | cons d t => exact hescape d t rfl rfl

theorem readStringBody_reads (hstart : Stands chars w opening start) (h : Stands chars w pos s) :
    Reads chars w (readStringBody chars opening pos) (Grammar.readStringBody start s) := by
  fun_induction Grammar.readStringBody start s generalizing pos with
  | case1 => exact readStringBody_nil hstart h
  | case2 r =>
    rw [readStringBody_quote h.cons.1]
    exact h.cons.2.found _
  | case3 c r ih =>
    obtain ⟨hbackslash, hnext⟩ := h.cons
    rw [readStringBody_escape hbackslash, hnext.cons.1]
    exact (ih hnext.cons.2).map (unescape c :: ·)
  | case4 =>
    obtain ⟨hbackslash, hnext⟩ := h.cons
    rw [readStringBody_escape hbackslash]
    rcases hnext.nil with hnone | ⟨c, hc, -, hw, hnext⟩
    · rw [hnone]
      exact hstart.fail _
    · rw [hc]
      exact ((readStringBody_nil hstart hnext).map (unescape c :: ·)).another_fault hw _
  | case5 c r hquote hescape hlast ih =>
    rw [readStringBody_plain h.cons.1 hquote (ne_backslash hescape hlast)]
    exact (ih h.cons.2).map (c :: ·)

theorem closeChar_reads (c : Char) (hstart : Stands chars w opening start)
    (h : Stands chars w pos s) :
    Reads chars w (closeChar chars opening c pos) (Grammar.closeChar start c s) := by
  unfold Grammar.closeChar
  split
  · rw [closeChar, if_pos h.cons.1]
    split
    · exact h.cons.2.found _
    · exact hstart.fail _
  · next hquote =>
    rw [closeChar, if_neg]
    · exact hstart.fail _
    · exact h.not_at (by decide) hquote

theorem readCharBody_reads (hstart : Stands chars w opening start) (h : Stands chars w pos s) :
    Reads chars w (readCharBody chars opening pos) (Grammar.readCharBody start s) := by
  unfold Grammar.readCharBody
  split
  · rcases h.nil with hnone | ⟨c, hc, hblank, -, hnext⟩
    · rw [readCharBody, hnone]
      exact hstart.fail _
    · rw [readCharBody_plain hc (ne_of_isBlank hblank (by decide))
        (ne_of_isBlank hblank (by decide))]
      exact closeChar_reads c hstart hnext
  · rw [readCharBody, h.cons.1]
    simp only [h.cons.2.cons.1]
    exact closeChar_reads _ hstart h.cons.2.cons.2
  · rw [readCharBody, h.cons.1]
    simp only
    rcases h.cons.2.nil with hnone | ⟨c, hc, -, hw, hnext⟩
    · rw [hnone]
      exact hstart.fail _
    · rw [hc]
      exact (closeChar_reads (unescape c) hstart hnext).another_fault hw _
  · rw [readCharBody, h.cons.1]
    exact h.cons.2.fail _
  · next c r hescape hlast hquote =>
    rw [readCharBody_plain h.cons.1 hquote (ne_backslash hescape hlast)]
    exact closeChar_reads c hstart h.cons.2

theorem endNumber_reads (text : String) (l : Literal) (h : Stands chars w pos s) :
    Reads chars w (endNumber chars text l pos) (Grammar.endNumber text l s) := by
  rw [endNumber, Grammar.endNumber, h.isAt_eq solid_namePart]
  exact .ite (h.fail _) (h.found _)

theorem Stands.drop_one {p : Char → Bool} (h : Stands chars w pos s) (hs : startsWith p s = true) :
    Stands chars w (pos + 1) (s.drop 1) := by
  cases s with
  | nil => cases hs
  | cons c s => exact h.cons.2

theorem readHex_reads {x : Char} (h : Stands chars w pos ('0' :: x :: s)) :
    Reads chars w (readHex chars pos) (Grammar.readHex ('0' :: x :: s) s) := by
  have hnext : Stands chars w (pos + 2) s := h.cons.2.cons.2
  obtain ⟨hstop, hcut⟩ := hnext.skip solid_hexDigit
  simp only [readHex, hcut, Grammar.readHex, ← hstop.isAt_eq solid_longSuffix]
  show Reads chars w (if _ then _ else _) _
  split
  · next hlong =>
    split
    · exact h.fail _
    · exact endNumber_reads _ _ (hstop.drop_one ((hstop.isAt_eq solid_longSuffix).symm.trans hlong))
  · split
    · exact h.fail _
    · exact endNumber_reads _ _ hstop

end

/-! ## Decimal numbers -/

/-- Cuts that lie side by side are one cut. -/
theorem cut_join {start middle stop : Nat} {text text' : List Char}
    (h : cut chars start middle = .ok text) (h' : cut chars middle stop = .ok text') :
    cut chars start stop = .ok (text ++ text') := by
  unfold cut at h h' ⊢
  split at h
  · next hleft =>
    split at h'
    · next hright =>
      cases h
      cases h'
      obtain ⟨k, rfl⟩ := Nat.exists_eq_add_of_le hleft.1
      obtain ⟨l, rfl⟩ := Nat.exists_eq_add_of_le hright.1
      rw [if_pos ⟨by omega, hright.2⟩]
      have hk : start + k - start = k := by omega
      have hl : start + k + l - (start + k) = l := by omega
      have hkl : start + k + l - start = k + l := by omega
      rw [List.drop_take, List.drop_take, List.drop_take, hk, hl, hkl, List.take_add,
        List.drop_drop]
    · cases h'
  · cases h

def fractionText (fraction : Option (List Char)) : List Char := fraction.elim [] ('.' :: ·)

def exponentText : Option (Char × Option Char × List Char) → List Char
  | some (e, sign, digits) => e :: (sign.toList ++ digits)
  | none => []

theorem text_eq (d : Decimal) : d.text =
    String.ofList (d.whole ++ fractionText d.fraction ++ exponentText d.exponent) := by
  obtain ⟨whole, fraction, exponent⟩ := d
  cases fraction <;> cases exponent <;> simp [Decimal.text, fractionText, exponentText]

theorem Stands.cut_none (h : Stands chars w pos s) : cut chars pos pos = .ok [] :=
  h.advance (t := []).2

theorem Stands.cut_one {c : Char} (h : Stands chars w pos (c :: s)) :
    cut chars pos (pos + 1) = .ok [c] :=
  h.advance (t := [c]).2

theorem exists_readFraction (h : Stands chars w pos s) :
    ∃ stop, readFraction chars pos = .ok ((Grammar.readFraction s).1, stop) ∧
      Stands chars w stop (Grammar.readFraction s).2 ∧
      cut chars pos stop = .ok (fractionText (Grammar.readFraction s).1) := by
  unfold Grammar.readFraction
  split
  · next r =>
    obtain ⟨hdot, hnext⟩ := h.cons
    have hname := hnext.isAt_eq solid_nameStart
    split
    · next hmember =>
      refine ⟨pos, if_neg ?_, h, h.cut_none⟩
      simp [hname, hmember]
    · next hmember =>
      obtain ⟨hstop, hcut⟩ := hnext.skip solid_digit
      refine ⟨_, ?_, hstop, cut_join h.cut_one hcut⟩
      rw [readFraction, if_pos ⟨hdot, by simpa [hname] using hmember⟩]
      simp only [hcut]
      rfl
  · next hdot => exact ⟨pos, if_neg fun hand => h.not_at (by decide) hdot hand.1, h, h.cut_none⟩

theorem readSign_found (h : Stands chars w pos s) :
    Found chars w (readSign chars pos) (Grammar.readSign s) ∧
      cut chars pos (readSign chars pos).2 = .ok (Grammar.readSign s).1.toList := by
  unfold Grammar.readSign
  split
  · rw [readSign, h.cons.1]
    exact ⟨⟨rfl, h.cons.2⟩, h.cut_one⟩
  · rw [readSign, h.cons.1]
    exact ⟨⟨rfl, h.cons.2⟩, h.cut_one⟩
  · next hplus hminus =>
    have hnone : readSign chars pos = (none, pos) := by
      unfold readSign
      split
      · next hat => exact absurd hat (h.not_at (by decide) hplus)
      · next hat => exact absurd hat (h.not_at (by decide) hminus)
      · rfl
    rw [hnone]
    exact ⟨⟨rfl, h⟩, h.cut_none⟩

theorem readExponent_cases (h : Stands chars w pos s) :
    (∃ e stop r, readExponent chars pos = .ok (e, stop) ∧ Grammar.readExponent s = .ok (e, r) ∧
      Stands chars w stop r ∧ cut chars pos stop = .ok (exponentText e)) ∨
    ∃ stop f, readExponent chars pos = .error stop ∧ Grammar.readExponent s = .error f ∧
      Blames chars w stop f := by
  cases s with
  | nil =>
    refine .inl ⟨none, pos, [], ?_, rfl, h, h.cut_none⟩
    rcases h.nil with hnone | ⟨c, hc, hblank, -⟩
    · rw [readExponent, hnone]
    · have hletter := (solid_or (solid_beq (d := 'e') (by decide))
        (solid_beq (d := 'E') (by decide))).false_of_isBlank hblank
      simp only [readExponent, hc, hletter]
      rfl
  | cons c r =>
    obtain ⟨hat, hnext⟩ := h.cons
    simp only [readExponent, hat, Grammar.readExponent]
    by_cases hletter : (c == 'e' || c == 'E') = true
    · obtain ⟨⟨hsign, hdigits⟩, hcut⟩ := readSign_found hnext
      rw [if_pos hletter, if_pos hletter, hdigits.isAt_eq solid_digit, hsign]
      obtain ⟨hstop, hcut'⟩ := hdigits.skip solid_digit
      split
      · refine .inl ⟨_, _, _, ?_, rfl, hstop, cut_join h.cut_one (cut_join hcut hcut')⟩
        simp only [hcut']
        rfl
      · exact .inr ⟨_, _, rfl, rfl, hdigits.blames _⟩
    · rw [if_neg hletter, if_neg hletter]
      exact .inl ⟨none, pos, _, rfl, rfl, h, h.cut_none⟩

theorem finishDecimal_reads (d : Decimal) {opening : Nat} {start : Rest}
    (hstart : Stands chars w opening start) (h : Stands chars w pos s) :
    Reads chars w (finishDecimal chars opening d.text d pos) (Grammar.finishDecimal start d s) := by
  have hsingle := h.isAt_eq (solid_or (solid_beq (d := 'f') (by decide))
    (solid_beq (d := 'F') (by decide)))
  have hdouble := h.isAt_eq (solid_or (solid_beq (d := 'd') (by decide))
    (solid_beq (d := 'D') (by decide)))
  have hlong := h.isAt_eq solid_longSuffix
  simp only [finishDecimal, Grammar.finishDecimal, hsingle, hdouble, hlong]
  cases s with
  | nil =>
    simp only [startsWith, Bool.false_and, Bool.false_eq_true, if_false]
    exact .ite (.ite (hstart.fail _) (endNumber_reads _ _ h)) (endNumber_reads _ _ h)
  | cons c r =>
    have hnext := h.cons.2
    simp only [startsWith]
    refine .ite (.ite (hstart.fail _) (endNumber_reads _ _ hnext)) ?_
    refine .ite (endNumber_reads _ _ hnext) ?_
    refine .ite (endNumber_reads _ _ hnext) ?_
    exact .ite (.ite (hstart.fail _) (endNumber_reads _ _ h)) (endNumber_reads _ _ h)

theorem readNumber_reads (h : Stands chars w pos s) :
    Reads chars w (readNumber chars pos) (Grammar.readNumber s) := by
  unfold Grammar.readNumber
  split
  · next r =>
    rw [readNumber, if_pos ⟨h.cons.1, .inl h.cons.2.cons.1⟩]
    exact readHex_reads h
  · next r =>
    rw [readNumber, if_pos ⟨h.cons.1, .inr h.cons.2.cons.1⟩]
    exact readHex_reads h
  · next hx hX =>
    have hdecimal : ¬(chars[pos]? = some '0' ∧
        (chars[pos + 1]? = some 'x' ∨ chars[pos + 1]? = some 'X')) := by
      rintro ⟨hzero, hletter⟩
      obtain ⟨r, rfl⟩ := h.exists_of_at (by decide) hzero
      rcases hletter with hletter | hletter
      · obtain ⟨t, rfl⟩ := h.cons.2.exists_of_at (by decide) hletter
        exact hx t rfl
      · obtain ⟨t, rfl⟩ := h.cons.2.exists_of_at (by decide) hletter
        exact hX t rfl
    rw [readNumber, if_neg hdecimal]
    obtain ⟨hwhole, hcut⟩ := h.skip solid_digit
    obtain ⟨middle, hfraction, hmiddle, hcut'⟩ := exists_readFraction hwhole
    simp only [readDecimal, hcut]
    show Reads chars w (readFraction chars _ >>= _) _
    rw [hfraction]
    show Reads chars w (readExponent chars _ >>= _) _
    obtain ⟨e, stop, r, hread, hread', hr, hcut''⟩ | ⟨stop, f, hread, hread', hf⟩ :=
      readExponent_cases hmiddle
    · have htext := cut_join (cut_join hcut hcut') hcut''
      rw [hread]
      simp only [hread']
      show Reads chars w (cut chars _ _ >>= _) _
      rw [htext]
      have hfinish := finishDecimal_reads ⟨s.takeWhile Char.isDigit,
        (Grammar.readFraction (s.dropWhile Char.isDigit)).1, e⟩ h hr
      rw [text_eq] at hfinish
      exact hfinish
    · rw [hread]
      simp only [hread']
      exact .fault hf

theorem exists_readLeast? (h : Stands chars w pos s) :
    ∃ found, readLeast? chars pos = .ok found ∧
      Option.Rel (Found chars w) found (Grammar.readLeast? s) := by
  obtain ⟨hskip, -⟩ := h.skipBlanks
  obtain ⟨hstop, hcut⟩ := hskip.skip solid_digit
  simp only [readLeast?, hcut]
  refine ⟨_, rfl, rel_filter ?_ fun p q hpq => ?_⟩
  · have hlong := hstop.isAt_eq solid_longSuffix
    by_cases hsuffix : startsWith isLongSuffix ((Text.skipBlanks s).dropWhile Char.isDigit) = true
    · rw [if_pos (hlong.trans hsuffix), if_pos hsuffix]
      split
      · exact .some ⟨rfl, hstop.drop_one hsuffix⟩
      · exact .none
    · rw [if_neg (hlong.symm ▸ hsuffix), if_neg hsuffix]
      split
      · exact .some ⟨rfl, hstop⟩
      · exact .none
  · rw [hpq.2.isAt_eq (solid_or solid_namePart (solid_beq (by decide)))]

end JvmDebug.Grammar.Cursor
