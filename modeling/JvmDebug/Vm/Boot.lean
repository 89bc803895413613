import JvmDebug.Vm

/-!
A fresh machine with a few classes of `java.lang` loaded.
-/
namespace JvmDebug.Vm

abbrev MethodPlan := String × String × Bool × Body

def addMethods (vm : Vm) (c : TypeId) (plans : List MethodPlan) : Vm :=
  plans.foldl
    (fun vm (name, signature, isStatic, body) =>
      (vm.addMethod c name signature isStatic (some body)).2)
    vm

/-- The machine with `Object`, `String`, `Number`, `Integer` and the exceptions up to
`ArithmeticException`. -/
def boot : Vm :=
  let text := "()Ljava/lang/String;"
  let (object, vm) := addClass {} "java.lang.Object" .classType none true
  let vm := vm.addMethods object
    [("toString", text, false, .identityText), ("hashCode", "()I", false, .identityHash),
      ("<init>", "()V", false, .constant .void)]
  let (comparable, vm) := vm.addClass "java.lang.Comparable" .interface none true
  let (string, vm) := vm.addClass "java.lang.String" .classType (some object) true
  let vm := vm.addInterface string comparable
  let vm := vm.addMethods string
    [("length", "()I", false, .textLength), ("toString", text, false, .receiver)]
  let (number, vm) := vm.addClass "java.lang.Number" .classType (some object) true
  let (integer, vm) := vm.addClass "java.lang.Integer" .classType (some number) true
  let vm := (vm.addField integer "value" "I" false).2
  let vm := vm.addMethods integer
    [("valueOf", "(I)Ljava/lang/Integer;", true, .box (some integer) (.int 0)),
      ("intValue", "()I", false, .readField "value" (.int 0)),
      ("toString", text, false, .numberText "value")]
  let (throwable, vm) := vm.addClass "java.lang.Throwable" .classType (some object) true
  let vm := (vm.addField throwable "detailMessage" "Ljava/lang/String;" false).2
  let vm := vm.addMethods throwable [("getMessage", text, false, .readField "detailMessage" .null)]
  let (exception, vm) := vm.addClass "java.lang.Exception" .classType (some throwable) true
  let (runtime, vm) := vm.addClass "java.lang.RuntimeException" .classType (some exception) true
  (vm.addClass "java.lang.ArithmeticException" .classType (some runtime) true).2

end JvmDebug.Vm
