import JvmDebug.Proofs.Exchanges
import JvmDebug.Proofs.MemberResolution

/-!
Lists of members when commands fail. A target on the wire takes every error for the end of the
chain of superclasses, as an interface answers with one. So a list that it gives may end early, and
it does so exactly if a superclass was asked for in vain: `Work.gathered_members`.
-/
namespace JvmDebug.Wire

/-! ## Chains of superclasses -/

/-- Classes with the members that they declare, in their order. -/
structure Hierarchy where
  methods : TypeId → List Member
  fields : TypeId → List Member
  superclass : TypeId → Option TypeId

namespace Hierarchy
variable {ω : Type} {d : Hierarchy} {c x : TypeId} {chain chain' : List TypeId}

/-- The class and its superclasses, up to the one that has none. -/
inductive Chain (d : Hierarchy) : TypeId → List TypeId → Prop
  | root {c : TypeId} (h : d.superclass c = none) : Chain d c [c]
  | step {c up : TypeId} {above : List TypeId} (h : d.superclass c = some up)
      (hup : Chain d up above) : Chain d c (c :: above)

theorem Chain.unique (h : d.Chain c chain) (h' : d.Chain c chain') : chain = chain' := by
  induction h generalizing chain' with
  | root hnone =>
    cases h' with
    | root => rfl
    | step hup => exact absurd (hnone.symm.trans hup) nofun
  | @step c up above hup _ ih =>
    cases h' with
    | root hnone => exact absurd (hnone.symm.trans hup) nofun
    | step hup' habove =>
      cases hup.symm.trans hup'
      rw [ih habove]

theorem Chain.of_mem (h : d.Chain c chain) (hx : x ∈ chain) :
    ∃ rest, d.Chain x rest ∧ rest.length ≤ chain.length := by
  induction h with
  | root hnone =>
    rw [List.mem_singleton.1 hx]
    exact ⟨_, .root hnone, Nat.le_refl _⟩
  | step hup habove ih =>
    rcases List.mem_cons.1 hx with rfl | hx
    · exact ⟨_, .step hup habove, Nat.le_refl _⟩
    · obtain ⟨rest, hrest, hle⟩ := ih hx
      exact ⟨rest, hrest, Nat.le_succ_of_le hle⟩

theorem Chain.nodup (h : d.Chain c chain) : chain.Nodup := by
  induction h with
  | root => exact List.nodup_singleton _
  | @step c up above hup habove ih =>
    refine List.nodup_cons.2 ⟨fun hc => ?_, ih⟩
    -- above itself the class would begin a chain that is shorter than its own
    obtain ⟨rest, hrest, hle⟩ := habove.of_mem hc
    cases hrest.unique (.step hup habove)
    exact absurd hle (Nat.not_succ_le_self _)

theorem Chain.length_le (h : d.Chain c chain) : chain.length ≤ Work.chainLimit :=
  (Visited.mk chain h.nodup).length_le

/-! ## What a target is told -/

/-- What the machine answers is true, but each command may fail, at any time and with any error. -/
structure ToldBy (d : Hierarchy) (serve : (c : Command) → ω → c.Reply × ω) : Prop where
  methods : ∀ c x ms, (serve (.methods c) x).1 = .ok ms → ms = d.methods c
  fields : ∀ c x fs, (serve (.fields c) x).1 = .ok fs → fs = d.fields c
  superclass : ∀ c x up, (serve (.superclass c) x).1 = .ok up → up = d.superclass c

/-- The methods that the target remembers are true. -/
def RecalledBy (d : Hierarchy) (s : TargetState) : Prop :=
  ∀ c ms, s.declared.get? c = some ms → ms = d.methods c

/-- A class that has a superclass was asked for it in vain. -/
def LosesTrack (d : Hierarchy) (log : List ((c : Command) × c.Reply)) : Prop :=
  ∃ c e, d.superclass c ≠ none ∧ ⟨.superclass c, .error e⟩ ∈ log

/-- The methods that a class has if these are the class and its superclasses. Of each name and
signature it has the first; constructors are not inherited. -/
def methodsOf (d : Hierarchy) : List TypeId → List Method
  | [] => []
  | c :: above =>
    firsts Method.key []
      (Work.kept true c (d.methods c) ++ above.flatMap fun c => Work.kept false c (d.methods c))

def fieldsOf (d : Hierarchy) (classes : List TypeId) : List Field :=
  classes.flatMap fun c => (d.fields c).map (Member.toField c)

/-- What a target comes to that went up the chain with these exchanges: the error of a class that
was asked for its members, or the members of the classes up to some of the chain. These are the
whole chain if and only if no superclass was asked for in vain. -/
inductive Gathered {μ : Type} (d : Hierarchy) (members : TypeId → Command)
    (list : List TypeId → List μ) (chain : List TypeId) (log : List ((c : Command) × c.Reply)) :
    Except TargetError (List μ) → Prop
  | failed {c : TypeId} {e : WireError} (h : ⟨members c, .error e⟩ ∈ log) :
      Gathered d members list chain log (.error e.toTarget)
  | listed {walked above : List TypeId} (hne : walked ≠ []) (hchain : walked ++ above = chain)
      (hmembers : ∀ c e, ⟨members c, .error e⟩ ∉ log) (hwhole : above = [] ↔ ¬ d.LosesTrack log) :
      Gathered d members list chain log (.ok (list walked))

end Hierarchy

/-! ## Walks -/

namespace Work
variable {ω α β μ : Type} {serve : (c : Command) → ω → c.Reply × ω} {d : Hierarchy}
  {I : TargetState → Prop} {members : TypeId → Command} {declared : TypeId → List Member}
  {query : TypeId → Work (List Member)} {add : TypeId → Bool → List μ → List Member → List μ}

theorem exchanges_ask (c : Command) (s : TargetState) (x : ω) :
    (ExceptT.run (ask c)).exchanges serve s x = [⟨c, (serve c x).1⟩] := rfl

theorem exchanges_andThen (w : Work α) (g : α → Work β) (s : TargetState) (x : ω) :
    (ExceptT.run (w >>= g)).exchanges serve s x = (ExceptT.run w).exchanges serve s x ++
      match (ExceptT.run w).run serve s x with
      | (.ok a, s, x) => (ExceptT.run (g a)).exchanges serve s x
      | (.error _, _, _) => [] := by
  rw [run_bind, Routine.exchanges_bind]
  rcases (ExceptT.run w).run serve s x with ⟨a | e, s, x⟩ <;> rfl

/-- What is common to the two kinds of members: from one class to the next, with what was found so
far and whether the class is the one that was asked for. -/
def gatherFrom (query : TypeId → Work (List Member))
    (add : TypeId → Bool → List μ → List Member → List μ) :
    (fuel : Nat) → TypeId → Bool → List μ → Work (List μ)
  | 0, _, _, found => return found
  | fuel + 1, c, own, found => do
    let found := add c own found (← query c)
    match ← superclass? c with
    | some up => gatherFrom query add fuel up false found
    | none => return found

theorem methodsFrom_eq (fuel : Nat) (c : TypeId) (own : Bool) (found : List Method) :
    methodsFrom fuel c own found = gatherFrom declaredMethods addMethods fuel c own found := by
  induction fuel generalizing c own found with
  | zero => rfl
  | succ fuel ih =>
    refine congrArg (declaredMethods c >>= ·) (funext fun _ => ?_)
    refine congrArg (superclass? c >>= ·) (funext fun up => ?_)
    cases up with
    | none => rfl
    | some up => exact ih up false _

def addFields (c : TypeId) (_ : Bool) (found : List Field) (declared : List Member) : List Field :=
  found ++ declared.map (Member.toField c)

theorem fieldsFrom_eq (fuel : Nat) (c : TypeId) (own : Bool) (found : List Field) :
    fieldsFrom fuel c found = gatherFrom (fun c => ask (.fields c)) addFields fuel c own found := by
  induction fuel generalizing c own found with
  | zero => rfl
  | succ fuel ih =>
    refine congrArg (ask (.fields c) >>= ·) (funext fun _ => ?_)
    refine congrArg (superclass? c >>= ·) (funext fun up => ?_)
    cases up with
    | none => rfl
    | some up => exact ih up false _

/-- What the classes add, one after the other. -/
def collect (add : TypeId → Bool → List μ → List Member → List μ)
    (declared : TypeId → List Member) : Bool → List μ → List TypeId → List μ
  | _, found, [] => found
  | own, found, c :: above => collect add declared false (add c own found (declared c)) above

/-- No command failed. -/
def Smooth (log : List ((c : Command) × c.Reply)) : Prop := ∀ c e, ⟨c, .error e⟩ ∉ log

theorem smooth_of_ok {c : Command} {a : c.Answer} : Smooth [⟨c, .ok a⟩] := by
  intro c' e hmem
  cases List.mem_singleton.1 hmem

/-- In a state with `I` the query comes to what the class declares, or fails as its command does. -/
def Queries (serve : (c : Command) → ω → c.Reply × ω) (I : TargetState → Prop)
    (members : TypeId → Command) (declared : TypeId → List Member)
    (query : TypeId → Work (List Member)) : Prop :=
  ∀ c s x, I s →
    (∃ s' x', (ExceptT.run (query c)).run serve s x = (.ok (declared c), s', x') ∧ I s' ∧
      Smooth ((ExceptT.run (query c)).exchanges serve s x)) ∨
    ∃ e s' x', (ExceptT.run (query c)).run serve s x = (.error e.toTarget, s', x') ∧
      (ExceptT.run (query c)).exchanges serve s x = [⟨members c, .error e⟩]

theorem queries_declaredMethods (h : d.ToldBy serve) :
    Queries serve d.RecalledBy .methods d.methods declaredMethods := by
  intro c s x hs
  rw [declaredMethods, run_andThen, run_state, exchanges_andThen, run_state]
  dsimp only
  cases hknown : s.declared.get? c with
  | some ms =>
    rw [← hs c ms hknown]
    exact .inl ⟨s, x, rfl, hs, fun _ _ => List.not_mem_nil⟩
  | none =>
    dsimp only
    rw [run_andThen, exchanges_andThen, exchanges_ask, ask, run_askAs]
    cases hreply : (serve (.methods c) x).1 with
    | error e => exact .inr ⟨e, s, _, rfl, rfl⟩
    | ok ms =>
      obtain rfl := h.methods c x ms hreply
      refine .inl ⟨_, _, rfl, fun c' ms hms => ?_, smooth_of_ok⟩
      rw [Dict.get?_insert] at hms
      split at hms
      · next hc => rw [← Option.some.inj hms, hc]
      · exact hs c' ms hms

theorem queries_fields (h : d.ToldBy serve) :
    Queries serve (fun _ => True) .fields d.fields fun c => ask (.fields c) := by
  intro c s x _
  dsimp only
  rw [exchanges_ask, ask, run_askAs]
  cases hreply : (serve (.fields c) x).1 with
  | error e => exact .inr ⟨e, s, _, rfl, rfl⟩
  | ok fs =>
    obtain rfl := h.fields c x fs hreply
    exact .inl ⟨s, _, rfl, trivial, smooth_of_ok⟩

theorem exchanges_superclass? (serve : (c : Command) → ω → c.Reply × ω) (c : TypeId)
    (s : TargetState) (x : ω) : (ExceptT.run (superclass? c)).exchanges serve s x =
      [⟨.superclass c, (serve (.superclass c) x).1⟩] := by
  have hattempt : (ExceptT.run (attempt (.superclass c))).run serve s x =
      (.ok (serve (.superclass c) x).1, s, (serve (.superclass c) x).2) := rfl
  have hlog : (ExceptT.run (attempt (.superclass c))).exchanges serve s x =
      [⟨.superclass c, (serve (.superclass c) x).1⟩] := rfl
  rw [superclass?, exchanges_andThen, hattempt, hlog]
  dsimp only
  cases (serve (.superclass c) x).1 with
  | ok up => rfl
  | error e => rfl

/-- At each class of the way its members are asked for in vain, or the way ends because no
superclass is found, or it goes on. -/
theorem gatherFrom_step (h : Queries serve I members declared query) (fuel : Nat) (c : TypeId)
    (own : Bool) (found : List μ) {s : TargetState} (hs : I s) (x : ω) :
    let w := ExceptT.run (gatherFrom query add (fuel + 1) c own found)
    let found := add c own found (declared c)
    (∃ e, (w.run serve s x).1 = .error e.toTarget ∧
      w.exchanges serve s x = [⟨members c, .error e⟩]) ∨
    ∃ log y, Smooth log ∧
      ((serve (.superclass c) y).1.toOption.join = none ∧ (w.run serve s x).1 = .ok found ∧
        w.exchanges serve s x = log ++ [⟨.superclass c, (serve (.superclass c) y).1⟩] ∨
      ∃ up s' x', (serve (.superclass c) y).1 = .ok (some up) ∧ I s' ∧
        (w.run serve s x).1 =
          ((ExceptT.run (gatherFrom query add fuel up false found)).run serve s' x').1 ∧
        w.exchanges serve s x = log ++ ⟨.superclass c, .ok (some up)⟩ ::
          (ExceptT.run (gatherFrom query add fuel up false found)).exchanges serve s' x') := by
  dsimp only
  rw [gatherFrom, run_andThen, exchanges_andThen]
  rcases h c s x hs with ⟨s', y, hrun, hs', hlog⟩ | ⟨e, s', y, hrun, hlog⟩
  · refine .inr ⟨_, y, hlog, ?_⟩
    rw [hrun]
    dsimp only
    rw [run_andThen, exchanges_andThen, run_superclass?_eq, exchanges_superclass?]
    dsimp only
    cases hreply : (serve (.superclass c) y).1 with
    | error e => exact .inl ⟨rfl, rfl, rfl⟩
    | ok up =>
      cases up with
      | none => exact .inl ⟨rfl, rfl, rfl⟩
      | some up => exact .inr ⟨up, s', _, rfl, hs', rfl, rfl⟩
  · left
    rw [hrun, hlog]
    exact ⟨e, rfl, rfl⟩

/-- What a walk comes to that ends at a class: the class has no superclass or was asked for it in
vain. -/
theorem gathered_ended (hmembers : ∀ k c, members k ≠ .superclass c) {own : Bool} {found : List μ}
    {c : TypeId} {chain : List TypeId} (hchain : d.Chain c chain)
    {log : List ((c : Command) × c.Reply)} (hlog : Smooth log)
    {reply : Command.Reply (.superclass c)} (hnone : reply.toOption.join = none)
    (htrue : ∀ up, reply = .ok up → up = d.superclass c) :
    d.Gathered members (collect add declared own found) chain (log ++ [⟨.superclass c, reply⟩])
      (.ok (add c own found (declared c))) := by
  have hmem {c' : Command} {e : WireError}
      (h : ⟨c', .error e⟩ ∈ log ++ [(⟨.superclass c, reply⟩ : (c : Command) × c.Reply)]) :
      c' = .superclass c := by
    rcases List.mem_append.1 h with h | h
    · exact absurd h (hlog c' e)
    · exact congrArg Sigma.fst (List.mem_singleton.1 h)
  have hasked : ∀ k e, ⟨members k, .error e⟩ ∉
      log ++ [(⟨.superclass c, reply⟩ : (c : Command) × c.Reply)] :=
    fun k e h => hmembers k c (hmem h)
  cases hchain with
  | root hroot =>
    refine .listed (List.cons_ne_nil c []) (List.append_nil _) hasked ⟨fun _ => ?_, fun _ => rfl⟩
    rintro ⟨k, e, hk, h⟩
    cases hmem h
    exact hk hroot
  | @step _ up above hup habove =>
    have hne : above ≠ [] := by cases habove <;> exact List.cons_ne_nil _ _
    refine .listed (List.cons_ne_nil c []) rfl hasked ⟨fun h => absurd h hne, fun h => absurd ?_ h⟩
    cases reply with
    | ok found =>
      cases htrue found rfl
      rw [hup] at hnone
      cases hnone
    | error e =>
      exact ⟨c, e, by simp [hup], List.mem_append_right _ (List.mem_singleton.2 rfl)⟩

/-- What a walk comes to once it has got beyond a class. -/
theorem gathered_beyond {own : Bool} {found : List μ} {c up : TypeId} {chain : List TypeId}
    {log more : List ((c : Command) × c.Reply)} {r : Except TargetError (List μ)}
    (hlog : Smooth log)
    (h : d.Gathered members (collect add declared false (add c own found (declared c))) chain more
      r) :
    d.Gathered members (collect add declared own found) (c :: chain)
      (log ++ ⟨.superclass c, .ok (some up)⟩ :: more) r := by
  have hmem (c' : Command) (e : WireError) :
      ⟨c', .error e⟩ ∈ log ++ ⟨.superclass c, .ok (some up)⟩ :: more ↔ ⟨c', .error e⟩ ∈ more := by
    rw [List.mem_append, List.mem_cons]
    constructor
    · rintro (hmem | heq | hmem)
      · exact absurd hmem (hlog c' e)
      · cases heq
      · exact hmem
    · exact fun hmem => .inr (.inr hmem)
  cases h with
  | failed h => exact .failed ((hmem _ _).2 h)
  | @listed walked above hne hchain hmembers hwhole =>
    refine .listed (List.cons_ne_nil c walked) (congrArg (List.cons c) hchain) ?_ ?_
    · exact fun k e hk => hmembers k e ((hmem _ _).1 hk)
    · rw [hwhole, Hierarchy.LosesTrack, Hierarchy.LosesTrack]
      simp only [hmem]

theorem gathered_gatherFrom (h : Queries serve I members declared query)
    (hmembers : ∀ k c, members k ≠ .superclass c) (htold : d.ToldBy serve) {c : TypeId}
    {chain : List TypeId} (hchain : d.Chain c chain) {fuel : Nat} (hfuel : chain.length ≤ fuel)
    (own : Bool) (found : List μ) {s : TargetState} (hs : I s) (x : ω) :
    d.Gathered members (collect add declared own found) chain
      ((ExceptT.run (gatherFrom query add fuel c own found)).exchanges serve s x)
      ((ExceptT.run (gatherFrom query add fuel c own found)).run serve s x).1 := by
  induction fuel generalizing c chain own found s x with
  | zero => cases hchain <;> exact absurd hfuel (Nat.not_succ_le_zero _)
  | succ fuel ih =>
    rcases gatherFrom_step h fuel c own found hs x with
      ⟨e, hrun, hlog⟩ | ⟨log, y, hlog, ⟨hnone, hrun, hends⟩ | ⟨up, s', x', hreply, hs', hrun, hon⟩⟩
    · rw [hrun, hlog]
      exact .failed List.mem_cons_self
    · rw [hrun, hends]
      exact gathered_ended hmembers hchain hlog hnone fun up => htold.superclass c y up
    · rw [hrun, hon]
      have hup := htold.superclass c y _ hreply
      cases hchain with
      | root hroot => exact absurd (hup.trans hroot) nofun
      | step hstep habove =>
        cases hup.trans hstep
        exact gathered_beyond hlog (ih habove (Nat.le_of_succ_le_succ hfuel) false _ hs' x')

/-! ## The two kinds of members -/

theorem collect_addMethods_above (found : List Method) (classes : List TypeId) :
    collect addMethods d.methods false found classes =
      firsts Method.key found (classes.flatMap fun c => kept false c (d.methods c)) := by
  induction classes generalizing found with
  | nil => rfl
  | cons c above ih =>
    rw [collect, ih, addMethods_eq_firsts, List.flatMap_cons, firsts, firsts, firsts,
      List.foldl_append]

theorem collect_addMethods : collect addMethods d.methods true [] = d.methodsOf := by
  funext classes
  cases classes with
  | nil => rfl
  | cons c above =>
    rw [collect, collect_addMethods_above, addMethods_eq_firsts, Hierarchy.methodsOf, firsts,
      firsts, firsts, List.foldl_append]

theorem collect_addFields (own : Bool) : collect addFields d.fields own [] = d.fieldsOf := by
  have hall (found : List Field) (classes : List TypeId) :
      collect addFields d.fields own found classes = found ++ d.fieldsOf classes := by
    induction classes generalizing own found with
    | nil => exact (List.append_nil found).symm
    | cons c above ih =>
      rw [collect, ih, addFields, List.append_assoc]
      rfl
  exact funext fun classes => hall [] classes

/-- Whatever fails, a list of members is that of the classes up to some of the chain, or the call
fails as the command that asked for members did. So a list that is given is complete if and only if
no class was asked in vain for the superclass that it has. -/
theorem gathered_members (htold : d.ToldBy serve) {c : TypeId} {chain : List TypeId}
    (hchain : d.Chain c chain) {s : TargetState} (hs : d.RecalledBy s) (x : ω) :
    let methods := ExceptT.run (answer (.methods c))
    let fields := ExceptT.run (answer (.fields c))
    d.Gathered .methods d.methodsOf chain (methods.exchanges serve s x)
        (methods.run serve s x).1 ∧
      d.Gathered .fields d.fieldsOf chain (fields.exchanges serve s x)
        (fields.run serve s x).1 := by
  constructor
  · show d.Gathered .methods d.methodsOf chain
      ((ExceptT.run (methodsFrom chainLimit c true [])).exchanges serve s x)
      ((ExceptT.run (methodsFrom chainLimit c true [])).run serve s x).1
    rw [methodsFrom_eq, ← collect_addMethods]
    exact gathered_gatherFrom (queries_declaredMethods htold) nofun htold hchain hchain.length_le
      true [] hs x
  · show d.Gathered .fields d.fieldsOf chain
      ((ExceptT.run (fieldsFrom chainLimit c [])).exchanges serve s x)
      ((ExceptT.run (fieldsFrom chainLimit c [])).run serve s x).1
    rw [fieldsFrom_eq chainLimit c true [], ← collect_addFields true]
    exact gathered_gatherFrom (queries_fields htold) nofun htold hchain hchain.length_le true []
      trivial x

end Work

/-! ## Chains cut short -/

/-- A machine with these classes on which some commands fail. -/
def Hierarchy.machine (d : Hierarchy) (fails : Command → Option WireError) :
    (c : Command) → Unit → c.Reply × Unit
  | .methods c, x => (match fails (.methods c) with
    | some e => .error e
    | none => .ok (d.methods c), x)
  | .fields c, x => (match fails (.fields c) with
    | some e => .error e
    | none => .ok (d.fields c), x)
  | .superclass c, x => (match fails (.superclass c) with
    | some e => .error e
    | none => .ok (d.superclass c), x)
  | _, x => (.error .closed, x)

theorem Hierarchy.told (d : Hierarchy) (fails : Command → Option WireError) :
    d.ToldBy (d.machine fails) where
  methods c x ms h := by
    simp only [machine] at h
    split at h <;> cases h
    rfl
  fields c x fs h := by
    simp only [machine] at h
    split at h <;> cases h
    rfl
  superclass c x up h := by
    simp only [machine] at h
    split at h <;> cases h
    rfl

/-- A class above which there is one with a method of its own and a field. -/
def twoClasses : Hierarchy where
  methods c :=
    if c = 300 then [⟨400, "run", "()V", 1⟩]
    else [⟨401, "<init>", "()V", 1⟩, ⟨402, "run", "()V", 1⟩, ⟨403, "stop", "()V", 1⟩]
  fields c := if c = 300 then [] else [⟨404, "count", "I", 1⟩]
  superclass c := if c = 300 then some 301 else none

theorem chain_twoClasses : twoClasses.Chain 300 [300, 301] := .step rfl (.root rfl)

/-- An error at the end of the chain, which has no superclass, does no harm. -/
def atTheEnd (c : Command) : Option WireError := if c = .superclass 301 then some (.vm 21) else none

theorem gathered_twoClasses :
    let serve := twoClasses.machine atTheEnd
    let methods := ExceptT.run (Work.answer (.methods 300))
    twoClasses.ToldBy serve ∧ twoClasses.Chain 300 [300, 301] ∧ twoClasses.RecalledBy {} ∧
      twoClasses.Gathered .methods twoClasses.methodsOf [300, 301] (methods.exchanges serve {} ())
        (methods.run serve {} ()).1 ∧
      (methods.run serve {} ()).1 = .ok (twoClasses.methodsOf [300, 301]) := by
  have htold := twoClasses.told atTheEnd
  have hrecalled : twoClasses.RecalledBy {} := fun _ _ h => by cases h
  exact ⟨htold, chain_twoClasses, hrecalled,
    (Work.gathered_members htold chain_twoClasses hrecalled ()).1, by rfl⟩

/-- A command that gets no reply in time. -/
def tooLate (c : Command) : Option WireError := if c = .superclass 300 then some .timeout else none

/-- If the query of a superclass times out, both lists are given without what the superclass
declares. -/
theorem lists_cut_short :
    let serve := twoClasses.machine tooLate
    twoClasses.ToldBy serve ∧ twoClasses.Chain 300 [300, 301] ∧
      ((ExceptT.run (Work.answer (.methods 300))).run serve {} ()).1 =
        .ok [⟨400, 300, "run", "()V", 1⟩] ∧
      twoClasses.methodsOf [300, 301] =
        [⟨400, 300, "run", "()V", 1⟩, ⟨403, 301, "stop", "()V", 1⟩] ∧
      ((ExceptT.run (Work.answer (.fields 300))).run serve {} ()).1 = .ok [] ∧
      twoClasses.fieldsOf [300, 301] = [⟨404, 301, "count", "I", 1⟩] :=
  ⟨twoClasses.told tooLate, chain_twoClasses, by rfl, by decide, by rfl, by decide⟩

end JvmDebug.Wire
