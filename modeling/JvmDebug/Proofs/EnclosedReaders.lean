import JvmDebug.Proofs.ParserImage

/-!
The readers in front of a closing parenthesis. Outside of quotes no token contains one, so a reader
stops there as it stops at the end of the text.
-/
namespace JvmDebug.Grammar
open Text

/-! ## Characters and signs -/

variable (k : Rest)

theorem dropWhile_enclosed {p : Char → Bool} (hp : p ')' = false) (s : Rest) :
    (s ++ ')' :: k).dropWhile p = s.dropWhile p ++ ')' :: k := by
  induction s with
  | nil => exact List.dropWhile_cons_of_neg (by simp [hp])
  | cons c s ih => by_cases hc : p c = true <;> simp [hc, ih]

theorem takeWhile_enclosed {p : Char → Bool} (hp : p ')' = false) (s : Rest) :
    (s ++ ')' :: k).takeWhile p = s.takeWhile p := by
  induction s with
  | nil => exact List.takeWhile_cons_of_neg (by simp [hp])
  | cons c s ih => by_cases hc : p c = true <;> simp [hc, ih]

theorem startsWith_enclosed {p : Char → Bool} (hp : p ')' = false) (s : Rest) :
    startsWith p (s ++ ')' :: k) = startsWith p s := by
  cases s with
  | nil => exact hp
  | cons c s => rfl

theorem skipBlanks_enclosed (s : Rest) : skipBlanks (s ++ ')' :: k) = skipBlanks s ++ ')' :: k :=
  dropWhile_enclosed k (by decide) s

theorem afterPrefix?_enclosed {p : List Char} (hp : ')' ∉ p) (s : Rest) :
    afterPrefix? p (s ++ ')' :: k) = (afterPrefix? p s).map (· ++ ')' :: k) := by
  induction p generalizing s with
  | nil => rfl
  | cons a p ih =>
    obtain ⟨ha, hp⟩ := List.ne_and_not_mem_of_not_mem_cons hp
    cases s with
    | nil => simp [afterPrefix?, Ne.symm ha]
    | cons c s => by_cases hc : a = c <;> simp [afterPrefix?, hc, ih hp]

theorem eat?_enclosed {token : String} (htoken : ')' ∉ token.toList) (s : Rest) :
    eat? token (s ++ ')' :: k) = (eat? token s).map (· ++ ')' :: k) := by
  rw [eat?, skipBlanks_enclosed, afterPrefix?_enclosed k htoken, eat?]

theorem filter_enclosed {p : Char → Bool} (hp : p ')' = false) (found : Option Rest) :
    (found.map (· ++ ')' :: k)).filter (fun r => !startsWith p r) =
      (found.filter fun r => !startsWith p r).map (· ++ ')' :: k) := by
  cases found with
  | none => rfl
  | some r => by_cases hr : startsWith p r = true <;> simp [Option.filter, startsWith_enclosed k hp, hr]

theorem eatOperator?_enclosed {token : String} (htoken : ')' ∉ token.toList) (s : Rest) :
    eatOperator? token (s ++ ')' :: k) = (eatOperator? token s).map (· ++ ')' :: k) := by
  rw [eatOperator?, eat?_enclosed k htoken, filter_enclosed k (by decide), eatOperator?]

theorem eatWord?_enclosed {word : String} (hword : ')' ∉ word.toList) (s : Rest) :
    eatWord? word (s ++ ')' :: k) = (eatWord? word s).map (· ++ ')' :: k) := by
  rw [eatWord?, eat?_enclosed k hword, filter_enclosed k (by decide), eatWord?]

theorem expect_enclosed {c : Char} {s r : Rest} (h : expect c s = .ok r) :
    expect c (s ++ ')' :: k) = .ok (r ++ ')' :: k) := by
  unfold expect at h ⊢
  rw [skipBlanks_enclosed]
  split at h
  · next d q hs =>
    split at h
    · next hd =>
      cases h
      simp [hs, hd]
    · cases h
  · cases h

theorem Machine.operator?_enclosed (level : Nat) (s : Rest) :
    operator? level (s ++ ')' :: k) = (operator? level s).map fun (op, r) => (op, r ++ ')' :: k) := by
  have plain (op : BinaryOp) : eat? op.symbol (s ++ ')' :: k) = _ :=
    eat?_enclosed k (by cases op <;> decide) s
  have guarded (op : BinaryOp) : eatOperator? op.symbol (s ++ ')' :: k) = _ :=
    eatOperator?_enclosed k (by cases op <;> decide) s
  unfold operator?
  split <;> simp only [plain, guarded, Option.map_map, Option.map_or, Option.map_none] <;> rfl

/-! ## Names -/

/-- The same is read with a closing parenthesis and more behind, or neither can be read. -/
def Enclosed {α : Type} (alone within : Read α) : Prop :=
  match alone with
  | .ok (a, r) => within = .ok (a, r ++ ')' :: k)
  | .error _ => ∃ f, within = .error f

variable {k} in
theorem Enclosed.of_ok {α : Type} {alone within : Read α} (h : Enclosed k alone within) {a : α}
    {r : Rest} (hread : alone = .ok (a, r)) : within = .ok (a, r ++ ')' :: k) := by
  rw [hread] at h
  exact h

variable {k} in
theorem Enclosed.of_error {α : Type} {alone within : Read α} (h : Enclosed k alone within)
    {f : Fault} (hread : alone = .error f) : ∃ f, within = .error f := by
  rw [hread] at h
  exact h

theorem readName_enclosed (s : Rest) : Enclosed k (readName s) (readName (s ++ ')' :: k)) := by
  unfold readName
  rw [skipBlanks_enclosed]
  cases skipBlanks s with
  | nil => exact ⟨_, rfl⟩
  | cons c r =>
    by_cases hc : isNameStart c = true
    · simp [hc, Enclosed, takeWhile_enclosed k (p := isNamePart) (by decide),
        dropWhile_enclosed k (p := isNamePart) (by decide)]
    · simp [hc, Enclosed, fail]

theorem readQualifiers_enclosed (s : Rest) :
    readQualifiers (s ++ ')' :: k) = ((readQualifiers s).1, (readQualifiers s).2 ++ ')' :: k) := by
  have hpart : isNamePart ')' = false := by decide
  fun_induction readQualifiers s with
  | case1 s r hs c t hr hc names rest heq ih =>
    have hs' : skipBlanks (s ++ ')' :: k) = '.' :: (r ++ ')' :: k) := by
      rw [skipBlanks_enclosed, hs, List.cons_append]
    have hr' : skipBlanks (r ++ ')' :: k) = c :: (t ++ ')' :: k) := by
      rw [skipBlanks_enclosed, hr, List.cons_append]
    rw [readQualifiers_cons hs' hr' hc, takeWhile_enclosed k hpart, dropWhile_enclosed k hpart, ih,
      heq]
  | case2 s r hs c t hr hc =>
    refine readQualifiers_of_next (r := r ++ ')' :: k) ?_ fun d hd => ?_
    · rw [skipBlanks_enclosed, hs, List.cons_append]
    · obtain rfl : c = d := by simpa [lead?, skipBlanks_enclosed, hr] using hd
      exact Bool.not_eq_true _ ▸ hc
  | case3 s r hs hr =>
    refine readQualifiers_of_next (r := r ++ ')' :: k) ?_ fun d hd => ?_
    · rw [skipBlanks_enclosed, hs, List.cons_append]
    · obtain rfl : ')' = d := by simpa [lead?, skipBlanks_enclosed, hr] using hd
      decide
  | case4 s hs =>
    refine readQualifiers_of_lead fun hlead => ?_
    cases hskip : skipBlanks s with
    | nil => simp [lead?, skipBlanks_enclosed, hskip] at hlead
    | cons d r =>
      obtain rfl : d = '.' := by simpa [lead?, skipBlanks_enclosed, hskip] using hlead
      exact hs r hskip

theorem readDimensions_enclosed (s : Rest) :
    readDimensions (s ++ ')' :: k) = ((readDimensions s).1, (readDimensions s).2 ++ ')' :: k) := by
  fun_induction readDimensions s with
  | case1 s r hs t hr pairs rest heq ih =>
    have hs' : skipBlanks (s ++ ')' :: k) = '[' :: (r ++ ')' :: k) := by
      rw [skipBlanks_enclosed, hs, List.cons_append]
    have hr' : skipBlanks (r ++ ')' :: k) = ']' :: (t ++ ')' :: k) := by
      rw [skipBlanks_enclosed, hr, List.cons_append]
    rw [readDimensions_cons hs' hr', ih, heq]
  | case2 s r hs hr =>
    refine readDimensions_of_ends fun q hq hlead => ?_
    obtain rfl : r ++ ')' :: k = q := by
      simpa [skipBlanks_enclosed, hs] using hq
    cases hskip : skipBlanks r with
    | nil => simp [lead?, skipBlanks_enclosed, hskip] at hlead
    | cons d t =>
      obtain rfl : d = ']' := by simpa [lead?, skipBlanks_enclosed, hskip] using hlead
      exact hr t hskip
  | case3 s hs =>
    refine readDimensions_of_ends fun q hq => ?_
    cases hskip : skipBlanks s with
    | nil => simp [skipBlanks_enclosed, hskip] at hq
    | cons d r =>
      obtain ⟨rfl, -⟩ : d = '[' ∧ _ := by simpa [skipBlanks_enclosed, hskip] using hq
      exact absurd hskip (hs r)

theorem readTypeName_enclosed (s : Rest) :
    Enclosed k (readTypeName s) (readTypeName (s ++ ')' :: k)) := by
  have hname := readName_enclosed k s
  unfold readTypeName
  cases h : readName s with
  | error f =>
    obtain ⟨f', hf⟩ := hname.of_error h
    rw [hf]
    exact ⟨f', rfl⟩
  | ok p =>
    rw [hname.of_ok h]
    simp only [readQualifiers_enclosed, readDimensions_enclosed]
    rfl

/-! ## Literals -/

theorem readStringBody_enclosed {start start' s r : Rest} {t : List Char}
    (h : readStringBody start s = .ok (t, r)) :
    readStringBody start' (s ++ ')' :: k) = .ok (t, r ++ ')' :: k) := by
  fun_induction readStringBody start s generalizing t r with
  | case1 => cases h
  | case2 r => cases h; rfl
  | case3 c s ih =>
    obtain ⟨⟨u, q⟩, hq, hp⟩ := exists_of_map_eq_ok h
    cases hp
    simp [readStringBody, ih hq, Except.map]
  | case4 => cases h
  | case5 c s hquote hescape hlast ih =>
    obtain ⟨⟨u, q⟩, hq, hp⟩ := exists_of_map_eq_ok h
    cases hp
    have hplain : c ≠ '\\' := by
      rintro rfl
      cases s with
      | nil => exact hlast rfl rfl
      | cons d s => exact hescape d s rfl rfl
    rw [List.cons_append, readStringBody.eq_5 _ _ _ (by simpa using hquote) (by simp [hplain])
      (by simp [hplain]), ih hq]
    rfl

theorem closeChar_enclosed {start start' s r : Rest} {c : Char} {u : UInt16}
    (h : closeChar start c s = .ok (u, r)) :
    closeChar start' c (s ++ ')' :: k) = .ok (u, r ++ ')' :: k) := by
  unfold closeChar at h
  split at h
  · split at h
    · next hsmall =>
      cases h
      simp [closeChar, hsmall]
    · cases h
  · cases h

theorem readCharBody_enclosed {start start' s r : Rest} {u : UInt16}
    (h : readCharBody start s = .ok (u, r)) :
    readCharBody start' (s ++ ')' :: k) = .ok (u, r ++ ')' :: k) := by
  unfold readCharBody at h
  split at h
  · cases h
  · exact closeChar_enclosed k h
  · cases h
  · cases h
  · next c s hescape hlast hquote =>
    have hplain : c ≠ '\\' := by
      rintro rfl
      cases s with
      | nil => exact hlast rfl rfl
      | cons d s => exact hescape d s rfl rfl
    rw [List.cons_append, readCharBody.eq_5 _ _ _ (by simp [hplain]) (by simp [hplain])
      (by simpa using hquote)]
    exact closeChar_enclosed k h

theorem endNumber_enclosed {text : String} {l l' : Literal} {s r : Rest}
    (h : endNumber text l s = .ok (l', r)) :
    endNumber text l (s ++ ')' :: k) = .ok (l', r ++ ')' :: k) := by
  unfold endNumber at h ⊢
  rw [startsWith_enclosed k (by decide)]
  split at h
  · cases h
  · next hend =>
    cases h
    rw [if_neg hend]

theorem readHex_enclosed {start start' s r : Rest} {l : Literal}
    (h : readHex start s = .ok (l, r)) :
    readHex start' (s ++ ')' :: k) = .ok (l, r ++ ')' :: k) := by
  have hhex : isHexDigit ')' = false := by decide
  simp only [readHex, takeWhile_enclosed k hhex, dropWhile_enclosed k hhex,
    startsWith_enclosed k (p := isLongSuffix) (by decide)] at h ⊢
  split at h
  · next hlong =>
    split at h
    · cases h
    · next hfits =>
      rw [if_pos hlong, if_neg hfits]
      cases hr : s.dropWhile isHexDigit with
      | nil => simp [hr, startsWith] at hlong
      | cons c q =>
        rw [hr] at h
        exact endNumber_enclosed k h
  · next hlong =>
    split at h
    · cases h
    · next hfits =>
      rw [if_neg hlong, if_neg hfits]
      exact endNumber_enclosed k h

theorem finishDecimal_enclosed {start start' s r : Rest} {d : Decimal} {l : Literal}
    (h : finishDecimal start d s = .ok (l, r)) :
    finishDecimal start' d (s ++ ')' :: k) = .ok (l, r ++ ')' :: k) := by
  have hlong : isLongSuffix ')' = false := by decide
  cases s with
  | nil =>
    simp only [finishDecimal, List.nil_append, hlong, Bool.false_and] at h ⊢
    split at h
    · next hwhole =>
      split at h
      · cases h
      · next hfits =>
        simp only [hwhole, if_neg hfits]
        exact endNumber_enclosed k h
    · next hwhole =>
      simp only [hwhole]
      exact endNumber_enclosed k h
  | cons c q =>
    simp only [finishDecimal, List.cons_append] at h ⊢
    split at h
    · next hsuffix =>
      rw [if_pos hsuffix]
      split at h
      · cases h
      · next hfits =>
        rw [if_neg hfits]
        exact endNumber_enclosed k h
    · next hsuffix =>
      rw [if_neg hsuffix]
      split at h
      · next hsingle =>
        rw [if_pos hsingle]
        exact endNumber_enclosed k h
      · next hsingle =>
        rw [if_neg hsingle]
        split at h
        · next hdouble =>
          rw [if_pos hdouble]
          exact endNumber_enclosed k h
        · next hdouble =>
          rw [if_neg hdouble]
          split at h
          · next hwhole =>
            rw [if_pos hwhole]
            split at h
            · cases h
            · next hfits =>
              rw [if_neg hfits]
              exact endNumber_enclosed k h
          · next hwhole =>
            rw [if_neg hwhole]
            exact endNumber_enclosed k h

theorem readFraction_enclosed (s : Rest) :
    readFraction (s ++ ')' :: k) = ((readFraction s).1, (readFraction s).2 ++ ')' :: k) := by
  have hdigit : Char.isDigit ')' = false := by decide
  have hstart : isNameStart ')' = false := by decide
  cases s with
  | nil => rfl
  | cons c q =>
    by_cases hc : c = '.'
    · subst hc
      simp only [readFraction, List.cons_append, startsWith_enclosed k hstart,
        takeWhile_enclosed k hdigit, dropWhile_enclosed k hdigit]
      split <;> rfl
    · simp [readFraction, hc]

theorem readSign_enclosed (s : Rest) :
    readSign (s ++ ')' :: k) = ((readSign s).1, (readSign s).2 ++ ')' :: k) := by
  unfold readSign
  cases s with
  | nil => rfl
  | cons c q => split <;> simp_all

theorem readExponent_enclosed {s r : Rest} {e : Option (Char × Option Char × List Char)}
    (h : readExponent s = .ok (e, r)) : readExponent (s ++ ')' :: k) = .ok (e, r ++ ')' :: k) := by
  have hdigit : Char.isDigit ')' = false := by decide
  cases s with
  | nil => cases h; rfl
  | cons c q =>
    simp only [readExponent, List.cons_append, readSign_enclosed, startsWith_enclosed k hdigit,
      takeWhile_enclosed k hdigit, dropWhile_enclosed k hdigit] at h ⊢
    split at h
    · next he =>
      split at h
      · next hsome =>
        cases h
        simp [he, hsome]
      · cases h
    · next he =>
      cases h
      simp [he]

theorem readNumber_enclosed {s r : Rest} {l : Literal} (h : readNumber s = .ok (l, r)) :
    readNumber (s ++ ')' :: k) = .ok (l, r ++ ')' :: k) := by
  have hdigit : Char.isDigit ')' = false := by decide
  unfold readNumber at h
  split at h
  · exact readHex_enclosed k h
  · exact readHex_enclosed k h
  · next hx hX =>
    simp only at h
    split at h
    · cases h
    · next e q hexponent =>
      rw [readNumber.eq_3]
      · simp only [takeWhile_enclosed k hdigit, dropWhile_enclosed k hdigit, readFraction_enclosed,
          readExponent_enclosed k hexponent]
        exact finishDecimal_enclosed k h
      · rintro t heq
        rcases s with - | ⟨c, - | ⟨d, s⟩⟩ <;> simp_all
      · rintro t heq
        rcases s with - | ⟨c, - | ⟨d, s⟩⟩ <;> simp_all

theorem drop_enclosed {p : Char → Bool} {s : Rest} (h : startsWith p s = true) :
    (s ++ ')' :: k).drop 1 = s.drop 1 ++ ')' :: k := by
  cases s with
  | nil => cases h
  | cons c s => rfl

theorem readLeast?_enclosed (s : Rest) :
    readLeast? (s ++ ')' :: k) = (readLeast? s).map fun (l, r) => (l, r ++ ')' :: k) := by
  have hdigit : Char.isDigit ')' = false := by decide
  have hlong : isLongSuffix ')' = false := by decide
  have hend (found : Option (Literal × Rest)) :
      (found.map fun (l, r) => (l, r ++ ')' :: k)).filter
          (fun p => !startsWith (fun c => isNamePart c || c == '.') p.2) =
        (found.filter fun p => !startsWith (fun c => isNamePart c || c == '.') p.2).map
          fun (l, r) => (l, r ++ ')' :: k) := by
    cases found with
    | none => rfl
    | some p =>
      simp only [Option.map_some, Option.filter, startsWith_enclosed k
        (p := fun c => isNamePart c || c == '.') (by decide)]
      split <;> rfl
  simp only [readLeast?, skipBlanks_enclosed, takeWhile_enclosed k hdigit,
    dropWhile_enclosed k hdigit, startsWith_enclosed k hlong, ← hend]
  congr 1
  split
  · next hsuffix =>
    rw [drop_enclosed k hsuffix]
    split <;> rfl
  · split <;> rfl

end JvmDebug.Grammar
