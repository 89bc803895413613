import JvmDebug.Proofs.Exchanges
import JvmDebug.Proofs.IntegerLiterals
import JvmDebug.Proofs.Scene

/-!
The display of a string. What is shown for a string is a literal of the same characters, so the
evaluation of it makes a string that is shown alike. Main result: `display_reads_back`.
-/
namespace JvmDebug

/-! ## Quoted texts -/

namespace Grammar

/-- Between its quotes, a quoted text spells each of its characters. -/
theorem exists_quoted (text : String) : ∃ body, EscapesAll '"' text.toList body ∧
    JvmDebug.quoted text = String.ofList ('"' :: (body ++ ['"'])) := by
  refine ⟨_, ?_, rfl⟩
  induction text.toList with
  | nil => exact .nil
  | cons c text ih =>
    refine .cons ?_ ih
    dsimp only
    split_ifs with hbackslash hquote hline hreturn htab
    · exact .escaped hbackslash.symm
    · exact .escaped hquote.symm
    · exact .escaped hline.symm
    · exact .escaped hreturn.symm
    · exact .escaped htab.symm
    · exact .plain hquote hbackslash

theorem operand_string (stack : List Pending) {text body : List Char} (rest : Rest)
    (h : EscapesAll '"' text body) :
    Machine.operand stack ('"' :: (body ++ '"' :: rest)) =
      Machine.afterLiteral stack (.ok (.string (String.ofList text), rest)) := by
  rw [Machine.operand_primary stack (skipBlanks_cons _ (by decide)) (by decide), Machine.primary,
    readStringBody_escapes h]
  rfl

theorem parse_quoted (text : String) :
    parse (JvmDebug.quoted text) = .ok (.literal (.string text)) := by
  obtain ⟨body, hbody, hquoted⟩ := exists_quoted text
  have hread := operand_string [] [] hbody
  rw [String.ofList_toList] at hread
  rw [hquoted]
  exact parse_of_reaches (reaches_literal hread)

end Grammar

/-! ## Targets that keep strings -/

/-- A target with strings, where `Holds` tells which objects are strings and of which characters.
The target tells them when asked, and what it makes of a text is a string of it. -/
structure StringKeeping {ω : Type} (serve : (c : Call) → ω → c.Reply × ω)
    (Holds : ω → ObjectRef → String → Prop) : Prop where
  isString : ∀ {w o text}, Holds w o text → o.isString = true
  told : ∀ {w o text}, Holds w o text →
    ∃ w', serve (.stringValue o) w = (.ok text, w') ∧ Holds w' o text
  made : ∀ {w w' o text}, serve (.createString text) w = (.ok o, w') → Holds w' o text

section
variable {ω σ : Type} {serve : (c : Call) → ω → c.Reply × ω} {Holds : ω → ObjectRef → String → Prop}
  {w : ω} {o : ObjectRef} {text : String}

variable (σ) in
theorem StringKeeping.display (h : StringKeeping serve Holds) (ho : Holds w o text) :
    ∃ w', (Display.value (.object o) : Op DebugError σ String).Gives serve w (quoted text)
        [⟨.stringValue o, .ok text⟩] w' ∧ Holds w' o text := by
  obtain ⟨w', htold, hkept⟩ := h.told ho
  refine ⟨w', ?_, hkept⟩
  rw [Display.value, if_pos (h.isString ho)]
  exact (Op.Gives.call htold).bind (.pure _)

/-- A quoted text makes a string of what it quotes, in any frame that can be read. -/
theorem evaluate_quoted (t : ThreadId) (f : Frame) (text : String) :
    (evaluate t f (quoted text) : Op DebugError σ Evaluation) = do
      let _ ← Scope.read t f
      let o : ObjectRef ← Op.call (.createString text)
      return { value := .object o, display := ← Display.value (.object o),
               typeName := o.runtimeType } := by
  have hscope (s : Scope) :
      (s.evaluate (.literal (.string text)) : Op DebugError σ Evaluation) = do
        let o : ObjectRef ← Op.call (.createString text)
        return { value := .object o, display := ← Display.value (.object o),
                 typeName := o.runtimeType } := by
    rw [Scope.evaluate, Scope.meaning, Scope.ofValue, Scope.literal]
    simp only [bind_assoc, pure_bind]
    rfl
  rw [evaluate, Grammar.parse_quoted]
  show (Scope.read t f >>= fun s => s.evaluate (.literal (.string text))) = _
  simp only [hscope]

/-- A string is shown as a literal of its characters. To evaluate what is shown makes, wherever
the frame can be read and the target makes the string, a string of the same characters and the same
display. -/
theorem display_reads_back (h : StringKeeping serve Holds) (ho : Holds w o text) :
    ∃ shown w₁, (Display.value (.object o) : Op DebugError σ String).Gives serve w shown
        [⟨.stringValue o, .ok text⟩] w₁ ∧ Holds w₁ o text ∧
      parse shown = .ok (.literal (.string text)) ∧
      ∀ {t f scope log w₂ w₃ o' w₄},
        (Scope.read t f : Op DebugError σ Scope).Gives serve w₂ scope log w₃ →
        serve (.createString text) w₃ = (.ok o', w₄) →
        ∃ w₅, (evaluate t f shown : Op DebugError σ Evaluation).Gives serve w₂
            ⟨.object o', shown, "java.lang.String"⟩
            (log ++ [⟨.createString text, .ok o'⟩, ⟨.stringValue o', .ok text⟩]) w₅ ∧
          Holds w₅ o' text := by
  obtain ⟨w₁, hshown, hkept⟩ := h.display σ ho
  refine ⟨quoted text, w₁, hshown, hkept, Grammar.parse_quoted text, ?_⟩
  intro t f scope log w₂ w₃ o' w₄ hscope hmake
  have hmade : Holds w₄ o' text := h.made hmake
  obtain ⟨w₅, hshown', hkept'⟩ := h.display σ hmade
  have htype : o'.runtimeType = "java.lang.String" := eq_of_beq (h.isString hmade)
  refine ⟨w₅, ?_, hkept'⟩
  rw [evaluate_quoted, ← htype]
  exact hscope.bind ((Op.Gives.call hmake).bind (hshown'.bind (.pure _)))

end

/-! ## The simulated machine -/

namespace Vm

theorem stringKeeping :
    StringKeeping serve fun vm o text => o.isString = true ∧ vm.textOf? o = some text where
  isString h := h.1
  told {vm o text} h := by
    refine ⟨vm, ?_, h⟩
    obtain ⟨d, hd, htext⟩ := Option.bind_eq_some_iff.1 h.2
    show vm.answer (.stringValue o) = _
    have hobject : vm.objectOf o = .ok d := by rw [objectOf, hd]
    simp only [answer, hobject, Except.map, htext]
  made {vm vm' o text} h := by
    obtain ⟨rfl, rfl⟩ : o = (vm.newString text).1 ∧ vm' = (vm.newString text).2 := by
      cases h
      exact ⟨rfl, rfl⟩
    refine ⟨rfl, ?_⟩
    simp only [newString, textOf?, Dict.get?_insert, if_true, Option.bind_some]

/-- A string of the text, and a suspended thread with one frame. -/
def stringSample (text : String) : Vm :=
  let (_, vm) := Vm.newString {} text
  let (t, vm) := vm.addThread "main"
  let (_, vm) := vm.addFrame t ⟨0, 0, 0, 0⟩ none []
  vm.setSuspended t true

end Vm

/-- Every character that is escaped, and some that only look like it. -/
theorem display_reads_back_escapes :
    let text := "\\\"\n\r\t\x00\\u0041é\u2028"
    let o : ObjectRef := ⟨1, 0, "java.lang.String"⟩
    ∃ shown w₁ o' w₅, (Display.value (.object o) : Op DebugError Unit String).Gives Vm.serve
        (Vm.stringSample text) shown [⟨.stringValue o, .ok text⟩] w₁ ∧
      parse shown = .ok (.literal (.string text)) ∧
      (evaluate 2 ⟨3, ⟨0, 0, 0, 0⟩⟩ shown : Op DebugError Unit Evaluation).Gives Vm.serve
        (Vm.stringSample text) ⟨.object o', shown, "java.lang.String"⟩
        [⟨.visibleVariables 2 ⟨3, ⟨0, 0, 0, 0⟩⟩, .ok []⟩,
          ⟨.thisObject 2 ⟨3, ⟨0, 0, 0, 0⟩⟩, .ok none⟩, ⟨.createString text, .ok o'⟩, ⟨.stringValue o', .ok text⟩] w₅ ∧
      w₅.textOf? o' = some text := by
  intro text o
  obtain ⟨shown, w₁, hshown, -, hparse, heval⟩ := @display_reads_back Vm Unit Vm.serve _
    (Vm.stringSample text) o text Vm.stringKeeping ⟨by decide, by decide +kernel⟩
  have hscope : (Scope.read 2 ⟨3, ⟨0, 0, 0, 0⟩⟩ : Op DebugError Unit Scope).Gives Vm.serve
      (Vm.stringSample text) ⟨2, ⟨3, ⟨0, 0, 0, 0⟩⟩, [], none⟩
      [⟨.visibleVariables 2 ⟨3, ⟨0, 0, 0, 0⟩⟩, .ok []⟩, ⟨.thisObject 2 ⟨3, ⟨0, 0, 0, 0⟩⟩, .ok none⟩]
      (Vm.stringSample text) := fun _ => ⟨rfl, rfl⟩
  obtain ⟨w₅, hgives, -, hmade⟩ := heval hscope rfl
  exact ⟨shown, w₁, _, w₅, hshown, hparse, hgives, hmade⟩

end JvmDebug
