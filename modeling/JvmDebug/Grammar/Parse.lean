import JvmDebug.Error
import JvmDebug.Grammar.Progress

/-!
Parsing a whole text. The position of an error is the number of characters before it.
-/
namespace JvmDebug
namespace Grammar

def Machine.run (m : Machine) : Except Fault Expr :=
  match _h : m.step with
  | .more n => n.run
  | .finished r => r
termination_by (m.rest.length, m.weight)
decreasing_by
  rcases Machine.step_below _h with h | ⟨h, h'⟩
  · exact Prod.Lex.left _ _ h
  · rw [h]
    exact Prod.Lex.right _ h'

def start (s : Rest) : Machine := ⟨.operand, [], s⟩

end Grammar

def parse (source : String) : Except SyntaxError Expr :=
  (Grammar.start source.toList).run.mapError fun f =>
    ⟨f.kind.message, source.toList.length - f.remaining⟩

end JvmDebug
