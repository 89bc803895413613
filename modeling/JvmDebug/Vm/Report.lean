import JvmDebug.Vm

/-!
Things that happen in the simulated machine and are reported to its debugger: to the requests that
ask for them, in one set that suspends every thread.
-/
namespace JvmDebug.Vm

def report (vm : Vm) (r : Report) : Vm := { vm with reports := vm.reports ++ [r] }

/-- Report a set; all threads are suspended if its policy says so. -/
def reportSet (vm : Vm) (set : EventSet) : Vm :=
  (if set.policy = .all then vm.setAllSuspended true else vm).report (.events set)

def reportAny (vm : Vm) (events : List TargetEvent) : Bool × Vm :=
  if events.isEmpty then (false, vm) else (true, vm.reportSet ⟨.all, events⟩)

def reportTo (vm : Vm) (wanted : RequestKind → Bool) (event : RequestId → TargetEvent) :
    Bool × Vm :=
  vm.reportAny ((vm.enabledRequests.filter fun r => wanted r.kind).map fun r => event r.id)

def hit (vm : Vm) (t : ThreadId) (l : Location) : Bool × Vm :=
  vm.reportTo (· == .breakpoint l) fun r => .breakpoint (some r) t l

def RequestKind.stepsOn (t : ThreadId) : RequestKind → Bool
  | .step u _ _ => u == t
  | _ => false

def finishStep (vm : Vm) (t : ThreadId) (l : Location) : Bool × Vm :=
  vm.reportTo (RequestKind.stepsOn t) fun r => .step (some r) t l

def RequestKind.catches (hierarchy : List TypeId) (isCaught : Bool) : RequestKind → Bool
  | .exception scope caught uncaught =>
    (if isCaught then caught else uncaught) && scope.all hierarchy.contains
  | _ => false

/-- A thread throws an exception that will be caught at `catchAt`, if anywhere. -/
def throwException (vm : Vm) (t : ThreadId) (l : Location) (thrown : ObjectRef)
    (catchAt : Option Location) : Bool × Vm :=
  vm.reportTo (RequestKind.catches (vm.hierarchy thrown.typeId) catchAt.isSome) fun r =>
    .exception (some r) t l thrown catchAt

def loadClass (vm : Vm) (t : ThreadId) (c : TypeId) : Bool × Vm :=
  match vm.classes.get? c with
  | none => (false, vm)
  | some k =>
    (vm.modifyClass c fun k => { k with loaded := true }).reportTo
      (· == .classPrepare k.info.name) fun r => .classPrepare (some r) t k.info

/-- A thread starts; nobody is suspended by that. -/
def startThread (vm : Vm) (name : String) : ThreadId × Vm :=
  let (t, vm) := vm.addThread name
  if vm.enabledRequests.any (·.kind == .threadStart) then
    (t, vm.report (.events ⟨.none, [.threadStart t]⟩))
  else (t, vm)

def die (vm : Vm) : Vm := vm.report (.events ⟨.none, [.vmDeath]⟩)

def hangUp (vm : Vm) : Vm := vm.report .hangUp

end JvmDebug.Vm
