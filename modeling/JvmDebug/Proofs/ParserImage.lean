import JvmDebug.Proofs.ParserRuns

/-!
The expressions the parser gives, and that it gives each of them back from every text of it.
-/
namespace JvmDebug
namespace Grammar
open Text

/-! ## What the readers find -/

theorem exists_of_map_eq_ok {ε α β : Type} {f : α → β} {x : Except ε α} {b : β}
    (h : x.map f = .ok b) : ∃ a, x = .ok a ∧ f a = b := by
  cases x with
  | error => cases h
  | ok a => exact ⟨a, rfl, Except.ok.inj h⟩

theorem isName_takeWhile {c : Char} (r : List Char) (hc : isNameStart c = true) :
    IsName (String.ofList (c :: r.takeWhile isNamePart)) :=
  ⟨c, r.takeWhile isNamePart, String.toList_ofList, hc, fun _ hd => List.mem_takeWhile_imp hd⟩

theorem readName_isName {s r : Rest} {name : String} (h : readName s = .ok (name, r)) :
    IsName name := by
  unfold readName at h
  split at h
  · split at h
    · next hc =>
      cases h
      exact isName_takeWhile _ hc
    · cases h
  · cases h

theorem readQualifiers_names (s : Rest) :
    ∃ names, (∀ name ∈ names, IsName name) ∧ (readQualifiers s).1 = qualifiers names := by
  fun_induction readQualifiers s with
  | case1 s r h c t h' hc found rest heq ih =>
    obtain ⟨names, hnames, htext⟩ := ih
    refine ⟨String.ofList (c :: t.takeWhile isNamePart) :: names, ?_, ?_⟩
    · exact List.forall_mem_cons.2 ⟨isName_takeWhile t hc, hnames⟩
    · simp only [heq] at htext
      simp [qualifiers, htext]
  | case2 | case3 | case4 => exact ⟨[], by simp, rfl⟩

theorem readDimensions_count (s : Rest) : ∃ count, (readDimensions s).1 = dimensions count := by
  fun_induction readDimensions s with
  | case1 s r h t h' pairs rest heq ih =>
    obtain ⟨count, hcount⟩ := ih
    simp only [heq] at hcount
    exact ⟨count + 1, by rw [hcount]; rfl⟩
  | case2 | case3 => exact ⟨0, rfl⟩

theorem readTypeName_isTypeName {s r : Rest} {typeName : String}
    (h : readTypeName s = .ok (typeName, r)) : IsTypeName typeName := by
  unfold readTypeName at h
  split at h
  · cases h
  · next first q hfirst =>
    cases h
    obtain ⟨names, hnames, hqualifiers⟩ := readQualifiers_names q
    obtain ⟨count, hcount⟩ := readDimensions_count (readQualifiers q).2
    refine ⟨first, names, count, readName_isName hfirst, hnames, ?_⟩
    rw [String.toList_ofList, hqualifiers, hcount]

theorem closeChar_readable {start s r : Rest} {c : Char} {unit : UInt16}
    (h : closeChar start c s = .ok (unit, r)) : (Literal.char unit).IsReadable := by
  unfold closeChar at h
  split at h
  · split at h
    · next hsmall =>
      cases h
      exact ⟨c, (Nat.mod_eq_of_lt hsmall).symm⟩
    · cases h
  · cases h

theorem readCharBody_readable {start s r : Rest} {unit : UInt16}
    (h : readCharBody start s = .ok (unit, r)) : (Literal.char unit).IsReadable := by
  unfold readCharBody at h
  split at h
  · cases h
  · exact closeChar_readable h
  · cases h
  · cases h
  · exact closeChar_readable h

theorem endNumber_literal {text : String} {l l' : Literal} {s r : Rest}
    (h : endNumber text l s = .ok (l', r)) : l' = l := by
  unfold endNumber at h
  split at h
  · cases h
  · cases h; rfl

theorem readHex_readable {start s r : Rest} {l : Literal} (h : readHex start s = .ok (l, r)) :
    l.IsReadable := by
  simp only [readHex] at h
  split at h
  · split at h
    · cases h
    · rw [endNumber_literal h]; trivial
  · split at h
    · cases h
    · rw [endNumber_literal h]; trivial

theorem finishDecimal_readable {start s r : Rest} {d : Decimal} {l : Literal}
    (h : finishDecimal start d s = .ok (l, r)) : l.IsReadable := by
  simp only [finishDecimal] at h
  repeat' split at h
  all_goals first
    | (rw [endNumber_literal h]; trivial)
    | cases h

theorem readNumber_readable {s r : Rest} {l : Literal} (h : readNumber s = .ok (l, r)) :
    l.IsReadable := by
  unfold readNumber at h
  split at h
  · exact readHex_readable h
  · exact readHex_readable h
  · simp only at h
    split at h
    · cases h
    · exact finishDecimal_readable h

theorem readLeast?_readable {s r : Rest} {l : Literal} (h : readLeast? s = some (l, r)) :
    l.IsReadable := by
  have hfound := (Option.filter_eq_some_iff.1 h).1
  split at hfound
  · split at hfound
    · cases hfound; trivial
    · cases hfound
  · split at hfound
    · cases hfound; trivial
    · cases hfound

theorem castPrefix?_isTypeName {s r : Rest} {typeName : String}
    (h : Machine.castPrefix? s = some (typeName, r)) :
    IsTypeName typeName ∧ typeName ∉ reserved := by
  unfold Machine.castPrefix? at h
  split at h
  · split at h
    · next hread =>
      split at h
      · cases h
      · next hfree =>
        split at h
        · cases h
          exact ⟨readTypeName_isTypeName hread, hfree⟩
        · cases h
    · cases h
  · cases h

/-! ## What the machine holds -/

def Callee.Sound : Callee → Prop
  | plain name => IsName name ∧ name ∉ reserved
  | method target name => target.Sound Literal.IsReadable ∧ IsName name
  | constructor typeName => IsTypeName typeName

theorem Callee.Sound.apply {callee : Callee} {args : List Expr} (h : callee.Sound)
    (hargs : ∀ a ∈ args, a.Sound Literal.IsReadable) :
    (callee.apply args).Sound Literal.IsReadable := by
  cases callee with
  | plain name => exact .plainCall h.1 h.2 hargs
  | method target name => exact .call h.1 h.2 hargs
  | constructor typeName => exact .newObject h hargs

def Pending.Sound : Pending → Prop
  | right _ left => left.Sound Literal.IsReadable
  | unary _ | group => True
  | cast typeName => IsTypeName typeName ∧ typeName ∉ reserved
  | subscript array => array.Sound Literal.IsReadable
  | newArray elementType => IsTypeName elementType
  | argument callee before => callee.Sound ∧ ∀ b ∈ before, b.Sound Literal.IsReadable

def Mode.Sound : Mode → Prop
  | operand => True
  | postfixed e | climb e _ => e.Sound Literal.IsReadable

namespace Machine

structure Sound (m : Machine) : Prop where
  mode : m.mode.Sound
  stack : ∀ pending ∈ m.stack, pending.Sound

def Progress.Sound : Progress → Prop
  | .more m => m.Sound
  | .finished r => ∀ e, r = .ok e → e.Sound Literal.IsReadable

variable {stack : List Pending}

theorem Progress.sound_error (f : Fault) : Progress.Sound (.finished (.error f)) :=
  fun _ h => nomatch h

theorem openArguments_sound (callee : Callee) (hcallee : callee.Sound)
    (h : ∀ pending ∈ stack, pending.Sound) (s : Rest) :
    Progress.Sound (openArguments callee stack s) := by
  unfold openArguments
  split
  · exact ⟨hcallee.apply (by simp), h⟩
  · exact ⟨trivial, List.forall_mem_cons.2 ⟨⟨hcallee, by simp⟩, h⟩⟩

theorem afterName_sound (callee : Callee) {e : Expr} (hcallee : callee.Sound)
    (he : e.Sound Literal.IsReadable) (h : ∀ pending ∈ stack, pending.Sound) (s : Rest) :
    Progress.Sound (afterName callee e stack s) := by
  unfold afterName
  split
  · exact openArguments_sound callee hcallee h _
  · exact ⟨he, h⟩

theorem afterNew_sound (h : ∀ pending ∈ stack, pending.Sound) (s : Rest) :
    Progress.Sound (afterNew stack s) := by
  unfold afterNew
  split
  · exact Progress.sound_error _
  · next hread =>
    have htype := readTypeName_isTypeName hread
    split
    · exact ⟨trivial, List.forall_mem_cons.2 ⟨htype, h⟩⟩
    · exact openArguments_sound (.constructor _) htype h _
    · exact Progress.sound_error _

theorem afterWord_sound {name : String} (hname : IsName name)
    (h : ∀ pending ∈ stack, pending.Sound) (s : Rest) :
    Progress.Sound (afterWord stack name s) := by
  unfold afterWord
  split
  · exact ⟨.literal trivial, h⟩
  · exact ⟨.literal trivial, h⟩
  · exact ⟨.literal trivial, h⟩
  · exact ⟨.this, h⟩
  · exact afterNew_sound h s
  · next htrue hfalse hnull hthis hnew =>
    have hfree : name ∉ reserved := by
      simp only [reserved, List.mem_cons, List.not_mem_nil, or_false, not_or]
      exact ⟨htrue, hfalse, hnull, hthis, hnew⟩
    exact afterName_sound (.plain name) ⟨hname, hfree⟩ (.name hname hfree) h s

theorem afterLiteral_sound {read : Read Literal} (hread : ∀ l r, read = .ok (l, r) → l.IsReadable)
    (h : ∀ pending ∈ stack, pending.Sound) : Progress.Sound (afterLiteral stack read) := by
  unfold afterLiteral
  split
  · exact Progress.sound_error _
  · next l r => exact ⟨.literal (hread l r rfl), h⟩

theorem primary_sound (h : ∀ pending ∈ stack, pending.Sound) (s : Rest) :
    Progress.Sound (primary stack s) := by
  unfold primary
  split
  · exact Progress.sound_error _
  · exact ⟨trivial, List.forall_mem_cons.2 ⟨trivial, h⟩⟩
  · refine afterLiteral_sound (fun l r hread => ?_) h
    obtain ⟨⟨text, q⟩, -, hl⟩ := exists_of_map_eq_ok hread
    cases hl
    trivial
  · refine afterLiteral_sound (fun l r hread => ?_) h
    obtain ⟨⟨unit, q⟩, hbody, hl⟩ := exists_of_map_eq_ok hread
    cases hl
    exact readCharBody_readable hbody
  · next c r _ _ _ =>
    split
    · exact afterLiteral_sound (fun l r hread => readNumber_readable hread) h
    · split
      · next hc => exact afterWord_sound (isName_takeWhile r hc) h _
      · exact Progress.sound_error _

theorem operand_sound (h : ∀ pending ∈ stack, pending.Sound) (s : Rest) :
    Progress.Sound (operand stack s) := by
  unfold operand
  split
  · exact ⟨trivial, List.forall_mem_cons.2 ⟨trivial, h⟩⟩
  · split
    · split
      · next hread => exact ⟨.literal (readLeast?_readable hread), h⟩
      · exact ⟨trivial, List.forall_mem_cons.2 ⟨trivial, h⟩⟩
    · split
      · exact ⟨trivial, h⟩
      · split
        · next hcast => exact ⟨trivial, List.forall_mem_cons.2 ⟨castPrefix?_isTypeName hcast, h⟩⟩
        · exact primary_sound h _

theorem postfixed_sound {e : Expr} (he : e.Sound Literal.IsReadable)
    (h : ∀ pending ∈ stack, pending.Sound) (s : Rest) : Progress.Sound (postfixed e stack s) := by
  unfold postfixed
  split
  · split
    · exact Progress.sound_error _
    · next name r hread =>
      have hname := readName_isName hread
      exact afterName_sound (.method e name) ⟨he, hname⟩ (.field he hname) h r
  · split
    · exact ⟨trivial, List.forall_mem_cons.2 ⟨he, h⟩⟩
    · exact ⟨he, h⟩

theorem close_sound {e : Expr} (he : e.Sound Literal.IsReadable)
    (h : ∀ pending ∈ stack, pending.Sound) (s : Rest) : Progress.Sound (close e stack s) := by
  unfold close
  split
  · split
    · exact ⟨he, (List.forall_mem_cons.1 h).2⟩
    · exact Progress.sound_error _
  · obtain ⟨harray, h⟩ := List.forall_mem_cons.1 h
    split
    · exact ⟨.index harray he, h⟩
    · exact Progress.sound_error _
  · obtain ⟨htype, h⟩ := List.forall_mem_cons.1 h
    split
    · exact ⟨.newArray htype he, h⟩
    · exact Progress.sound_error _
  · obtain ⟨⟨hcallee, hbefore⟩, h⟩ := List.forall_mem_cons.1 h
    have hargs := List.forall_mem_cons.2 ⟨he, hbefore⟩
    split
    · exact ⟨trivial, List.forall_mem_cons.2 ⟨⟨hcallee, hargs⟩, h⟩⟩
    · split
      · exact ⟨hcallee.apply fun a ha => hargs a (List.mem_reverse.1 ha), h⟩
      · exact Progress.sound_error _
  · split
    · rintro e' ⟨⟩
      exact he
    · exact Progress.sound_error _

theorem climb_sound {e : Expr} (level : Nat) (he : e.Sound Literal.IsReadable)
    (h : ∀ pending ∈ stack, pending.Sound) (s : Rest) :
    Progress.Sound (climb e level stack s) := by
  unfold climb
  split
  · exact ⟨.unary he, (List.forall_mem_cons.1 h).2⟩
  · obtain ⟨⟨htype, hfree⟩, h⟩ := List.forall_mem_cons.1 h
    exact ⟨.cast htype hfree he, h⟩
  · split
    · split
      · next hread => exact ⟨.instanceOf he (readTypeName_isTypeName hread), h⟩
      · exact Progress.sound_error _
    · split
      · exact ⟨trivial, List.forall_mem_cons.2 ⟨he, h⟩⟩
      · split
        · split
          · obtain ⟨hleft, h⟩ := List.forall_mem_cons.1 h
            exact ⟨.binary hleft he, h⟩
          · exact ⟨he, h⟩
        · exact ⟨he, h⟩
        · exact close_sound he h s

theorem step_sound {m : Machine} (h : m.Sound) : Progress.Sound m.step := by
  obtain ⟨mode, stack, s⟩ := m
  cases mode with
  | operand => exact operand_sound h.stack s
  | postfixed e => exact postfixed_sound h.mode h.stack s
  | climb e level => exact climb_sound level h.mode h.stack s

theorem run_sound {m : Machine} (h : m.Sound) {e : Expr} (hrun : m.run = .ok e) :
    e.Sound Literal.IsReadable := by
  fun_induction Machine.run m with
  | case1 m n hstep ih =>
    have hnext := step_sound h
    rw [hstep] at hnext
    exact ih hnext hrun
  | case2 m r hstep =>
    have hlast := step_sound h
    rw [hstep] at hlast
    exact hlast e hrun

end Machine

theorem sound_of_parse {source : String} {e : Expr} (h : parse source = .ok e) :
    e.Sound Literal.IsReadable := by
  unfold parse at h
  cases hrun : (start source.toList).run with
  | error f => simp [hrun, Except.mapError] at h
  | ok e' =>
    obtain rfl : e' = e := by simpa [hrun, Except.mapError] using h
    exact Machine.run_sound (m := start source.toList) ⟨trivial, by simp [start]⟩ hrun

/-! ## A text of every expression -/

def hexDigit (d : Nat) : Char := Char.ofNat (if d < 10 then 48 + d else 87 + d)

theorem isHexDigit_hexDigit {d : Nat} (h : d < 16) :
    isHexDigit (hexDigit d) = true ∧ hexDigitValue (hexDigit d) = d := by
  revert d
  decide

theorem hexValue_concat (digits : List Char) (c : Char) :
    hexValue (digits ++ [c]) = 16 * hexValue digits + hexDigitValue c := by
  simp [hexValue]

theorem exists_isHex (n : Nat) : ∃ digits, IsHex n digits := by
  induction n using Nat.strongRecOn with
  | ind n ih =>
    by_cases hsmall : n < 16
    · obtain ⟨hdigit, hvalue⟩ := isHexDigit_hexDigit hsmall
      exact ⟨[hexDigit n], by simp, by simpa using hdigit, by simpa [hexValue] using hvalue⟩
    · obtain ⟨digits, -, hdigits, hvalue⟩ := ih (n / 16) (by omega)
      obtain ⟨hlast, hlastValue⟩ := isHexDigit_hexDigit (Nat.mod_lt n (by decide : 0 < 16))
      refine ⟨digits ++ [hexDigit (n % 16)], by simp, ?_, ?_⟩
      · simpa [or_imp, forall_and] using ⟨hdigits, hlast⟩
      · rw [hexValue_concat, hvalue, hlastValue]
        omega

theorem exists_escapes (quote : Char) (hquote : unescape quote = quote) (c : Char) :
    ∃ s, Escapes quote c s := by
  by_cases hc : c = quote ∨ c = '\\'
  · exact ⟨['\\', c], .escaped (by rcases hc with rfl | rfl; exacts [hquote, rfl])⟩
  · exact ⟨[c], .plain (fun h => hc (.inl h)) fun h => hc (.inr h)⟩

theorem exists_escapesAll (quote : Char) (hquote : unescape quote = quote) (text : List Char) :
    ∃ body, EscapesAll quote text body := by
  induction text with
  | nil => exact ⟨[], .nil⟩
  | cons c text ih =>
    obtain ⟨s, hs⟩ := exists_escapes quote hquote c
    obtain ⟨body, hbody⟩ := ih
    exact ⟨s ++ body, .cons hs hbody⟩

def Spellable (tokens : List Token) : Prop := ∀ token ∈ tokens, ∃ text, token.Spelled text

/-- With a blank before every token no two of them run together. -/
theorem exists_laid {tokens : List Token} (h : Spellable tokens) : ∃ s, Laid tokens s := by
  suffices ∃ s, Laid tokens s ∧ startsWith isNamePart s = false from
    let ⟨s, hs, _⟩ := this; ⟨s, hs⟩
  induction tokens with
  | nil => exact ⟨[], .nil (by simp), rfl⟩
  | cons token tokens ih =>
    obtain ⟨⟨text, htext⟩, hrest⟩ := List.forall_mem_cons.1 h
    obtain ⟨rest, hlaid, hapart⟩ := ih hrest
    have hblank : ∀ c ∈ [' '], isBlank c = true := List.forall_mem_singleton.2 (by decide)
    exact ⟨[' '] ++ text ++ rest, .cons hblank htext (fun _ => hapart) hlaid,
      by exact (by decide : isNamePart ' ' = false)⟩

theorem spellable_cons {token : Token} {tokens : List Token} :
    Spellable (token :: tokens) ↔ (∃ text, token.Spelled text) ∧ Spellable tokens :=
  List.forall_mem_cons

theorem spellable_append {tokens ts : List Token} :
    Spellable (tokens ++ ts) ↔ Spellable tokens ∧ Spellable ts :=
  List.forall_mem_append

theorem spellable_nil : Spellable [] := by simp [Spellable]

theorem spellable_mark {m : Char} (hm : m ∈ marks) : ∃ text, (Token.mark m).Spelled text :=
  ⟨[m], .mark hm⟩

theorem spellable_word {name : String} (hname : IsName name) :
    ∃ text, (Token.word name).Spelled text := ⟨name.toList, .word hname⟩

theorem spellable_call {name : String} (hname : IsName name) :
    ∃ text, (Token.call name).Spelled text := ⟨name.toList ++ ['('], .call hname⟩

theorem spellable_literal {l : Literal} (hreadable : l.IsReadable)
    (hfixed : l.isFloating = false) : ∃ text, (Token.ofLiteral l).Spelled text := by
  cases l with
  | null => exact spellable_word (by decide +kernel)
  | boolean b =>
    cases b with
    | true => exact spellable_word (by decide +kernel)
    | false => exact spellable_word (by decide +kernel)
  | char unit =>
    obtain ⟨c, hc⟩ := hreadable
    obtain ⟨s, hs⟩ := exists_escapes '\'' rfl c
    exact ⟨_, .char hc hs⟩
  | int n =>
    obtain ⟨digits, hdigits⟩ := exists_isHex n.toUInt32.toNat
    exact ⟨_, .int hdigits⟩
  | long n =>
    obtain ⟨digits, hdigits⟩ := exists_isHex n.toUInt64.toNat
    exact ⟨_, .long hdigits⟩
  | float | double => cases hfixed
  | string text =>
    obtain ⟨body, hbody⟩ := exists_escapesAll '"' rfl text.toList
    exact ⟨_, .string hbody⟩

theorem spellable_typeTokens {typeName : String} (h : IsTypeName typeName) :
    Spellable (typeTokens typeName.toList) := by
  obtain ⟨first, names, count, hfirst, hnames, htext⟩ := h
  rw [htext, List.append_assoc, typeTokens_name hfirst
    (startsWith_qualifiers names (startsWith_dimensions count)), typeTokens_qualifiers hnames,
    spellable_cons, spellable_append]
  refine ⟨spellable_word hfirst, ?_, ?_⟩
  · intro token htoken
    obtain ⟨name, hname, hmem⟩ := List.mem_flatMap.1 htoken
    rcases List.mem_pair.1 hmem with rfl | rfl
    · exact spellable_mark (by decide)
    · exact spellable_word (hnames name hname)
  · intro token htoken
    obtain ⟨pair, hpair, hmem⟩ := List.mem_flatten.1 htoken
    rw [List.eq_of_mem_replicate hpair] at hmem
    rcases List.mem_pair.1 hmem with rfl | rfl <;> exact spellable_mark (by decide)

theorem spellable_grouped {tokens : List Token} (h : Spellable tokens) :
    Spellable (grouped tokens) :=
  spellable_append.2 ⟨spellable_cons.2 ⟨spellable_mark (by decide), h⟩,
    spellable_cons.2 ⟨spellable_mark (by decide), spellable_nil⟩⟩

theorem spellable_inPlace {e : Expr} (place : Nat) {tokens : List Token} (h : Spellable tokens) :
    Spellable (e.inPlace place tokens) := by
  unfold Expr.inPlace
  split
  · exact spellable_grouped h
  · exact h

theorem spellable_arguments {args : List Expr} (h : ∀ a ∈ args, Spellable a.tokens) :
    Spellable (Expr.tokens.argumentTokens args) := by
  induction args with
  | nil => exact spellable_nil
  | cons a args ih =>
    obtain ⟨ha, hargs⟩ := List.forall_mem_cons.1 h
    cases args with
    | nil => exact ha
    | cons b args =>
      rw [Expr.tokens.argumentTokens]
      · exact spellable_append.2 ⟨ha, spellable_cons.2 ⟨spellable_mark (by decide), ih hargs⟩⟩
      · simp

theorem literals_argument {args : List Expr} {a : Expr} (ha : a ∈ args) {l : Literal}
    (hl : l ∈ a.literals) : l ∈ Expr.literals.argumentLiterals args := by
  induction args with
  | nil => cases ha
  | cons b args ih =>
    rw [Expr.literals.argumentLiterals, List.mem_append]
    rcases List.mem_cons.1 ha with rfl | ha
    · exact .inl hl
    · exact .inr (ih ha)

theorem spellable_tokens {e : Expr} (h : e.Sound Literal.IsReadable)
    (hfixed : ∀ l ∈ e.literals, l.isFloating = false) : Spellable e.tokens := by
  induction h with
  | literal hreadable =>
    rw [Expr.tokens]
    exact spellable_cons.2
      ⟨spellable_literal hreadable (hfixed _ (by simp [Expr.literals])), spellable_nil⟩
  | name hname =>
    rw [Expr.tokens]
    exact spellable_cons.2 ⟨spellable_word hname, spellable_nil⟩
  | this =>
    rw [Expr.tokens]
    exact spellable_cons.2
      ⟨spellable_word (by decide +kernel), spellable_nil⟩
  | field _ hname ih =>
    rw [Expr.literals] at hfixed
    rw [Expr.tokens]
    simp only [spellable_append, spellable_cons]
    exact ⟨spellable_inPlace 7 (ih hfixed), spellable_mark (by decide), spellable_word hname,
      spellable_nil⟩
  | plainCall hname _ _ ih =>
    rw [Expr.literals] at hfixed
    rw [Expr.tokens]
    simp only [spellable_append, spellable_cons]
    have hargs := spellable_arguments fun a ha => ih a ha fun l hl =>
      hfixed l (literals_argument ha hl)
    exact ⟨⟨spellable_call hname, hargs⟩, spellable_mark (by decide), spellable_nil⟩
  | call _ hname _ ih ihargs =>
    rw [Expr.literals, List.forall_mem_append] at hfixed
    rw [Expr.tokens]
    simp only [spellable_append, spellable_cons]
    have hargs := spellable_arguments fun a ha => ihargs a ha fun l hl =>
      hfixed.2 l (literals_argument ha hl)
    exact ⟨⟨spellable_inPlace 7 (ih hfixed.1), spellable_mark (by decide), spellable_call hname,
      hargs⟩, spellable_mark (by decide), spellable_nil⟩
  | index _ _ ih ihindex =>
    rw [Expr.literals, List.forall_mem_append] at hfixed
    rw [Expr.tokens]
    simp only [spellable_append, spellable_cons]
    exact ⟨⟨spellable_inPlace 7 (ih hfixed.1), spellable_mark (by decide), ihindex hfixed.2⟩,
      spellable_mark (by decide), spellable_nil⟩
  | binary _ _ ih ihright =>
    rw [Expr.literals, List.forall_mem_append] at hfixed
    rw [Expr.tokens]
    simp only [spellable_append, spellable_cons]
    exact ⟨spellable_inPlace _ (ih hfixed.1), ⟨_, .operator⟩,
      spellable_inPlace _ (ihright hfixed.2)⟩
  | unary _ ih =>
    rw [Expr.literals] at hfixed
    rw [Expr.tokens]
    exact spellable_cons.2 ⟨⟨_, .sign⟩, spellable_inPlace 6 (ih hfixed)⟩
  | cast htype _ _ ih =>
    rw [Expr.literals] at hfixed
    rw [Expr.tokens]
    exact spellable_append.2
      ⟨spellable_grouped (spellable_typeTokens htype), spellable_inPlace 6 (ih hfixed)⟩
  | instanceOf _ htype ih =>
    rw [Expr.literals] at hfixed
    rw [Expr.tokens]
    simp only [spellable_append, spellable_cons]
    exact ⟨spellable_inPlace 3 (ih hfixed),
      spellable_word (by decide +kernel), spellable_typeTokens htype⟩
  | newObject htype _ ih =>
    rw [Expr.literals] at hfixed
    rw [Expr.tokens]
    simp only [spellable_append, spellable_cons]
    have hargs := spellable_arguments fun a ha => ih a ha fun l hl =>
      hfixed l (literals_argument ha hl)
    exact ⟨⟨⟨spellable_word (by decide +kernel), spellable_typeTokens htype⟩,
      spellable_mark (by decide), hargs⟩, spellable_mark (by decide), spellable_nil⟩
  | newArray htype _ ih =>
    rw [Expr.literals] at hfixed
    rw [Expr.tokens]
    simp only [spellable_append, spellable_cons]
    exact ⟨⟨⟨spellable_word (by decide +kernel), spellable_typeTokens htype⟩,
      spellable_mark (by decide), ih hfixed⟩, spellable_mark (by decide), spellable_nil⟩

end Grammar

end JvmDebug
