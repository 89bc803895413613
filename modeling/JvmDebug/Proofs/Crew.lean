import JvmDebug.Proofs.TargetReports
import JvmDebug.Simulation

/-!
A session behind a connection that may fail, with operations and the handling of events in flight,
interleaved in any order. The connection keeps notes of the calls that switch requests; when the
flag of a breakpoint is stored anew, the notes on its requests are dropped, so those that are left
are younger than the flag.
-/
namespace JvmDebug

/-! ## Connections with notes -/

/-- A call that was to switch a request; it may have failed. -/
structure SwitchNote where
  request : RequestId
  enabled : Bool
  arrived : Bool
  deriving DecidableEq, Repr

structure NotedLink where
  link : Link
  notes : List SwitchNote := []

theorem Link.due_vm (l : Link) (name : String) : (l.due name).2.vm = l.vm := by
  simp only [due]
  split
  · rfl
  · split
    · rfl
    · split <;> rfl

namespace NotedLink

abbrev vm (l : NotedLink) : Vm := l.link.vm

def note? : (c : Call) → c.Reply → Option SwitchNote
  | .setRequestEnabled r enabled, reply => some ⟨r, enabled, reply.isOk⟩
  | _, _ => none

def answer (c : Call) (l : NotedLink) : c.Reply × NotedLink :=
  let (reply, link) := l.link.answer c
  (reply, ⟨link, l.notes ++ (note? c reply).toList⟩)

def forget (l : NotedLink) (requests : List RequestId) : NotedLink :=
  { l with notes := l.notes.filter fun n => n.request ∉ requests }

/-- What the last call that reached the request switched it to. -/
def last? (l : NotedLink) (r : RequestId) : Option Bool :=
  ((l.notes.filter fun n => n.request = r ∧ n.arrived).getLast?).map SwitchNote.enabled

/-- A call for one of the requests failed. -/
def Failed (l : NotedLink) (requests : List RequestId) : Prop :=
  ∃ n ∈ l.notes, n.request ∈ requests ∧ n.arrived = false

instance (l : NotedLink) (requests : List RequestId) : Decidable (l.Failed requests) :=
  inferInstanceAs (Decidable (∃ n ∈ l.notes, _))

variable (l : NotedLink)

theorem answer_cases (c : Call) :
    ((∃ e, (l.answer c).1 = .error e) ∧ (l.answer c).2.vm = l.vm) ∨
      ((l.answer c).1 = (l.vm.answer c).1 ∧ (l.answer c).2.vm = (l.vm.answer c).2) := by
  have hvm := l.link.due_vm c.name
  simp only [answer, Link.answer]
  rcases hdue : l.link.due c.name with ⟨_ | e, link⟩
  · rw [hdue] at hvm
    refine .inr ⟨?_, ?_⟩
    · show (link.vm.answer c).1 = _
      rw [hvm]
    · show (link.vm.answer c).2 = _
      rw [hvm]
  · rw [hdue] at hvm
    exact .inl ⟨⟨e, rfl⟩, hvm⟩

theorem notes_answer {c : Call} (h : ∀ reply, note? c reply = none) :
    (l.answer c).2.notes = l.notes := by
  show l.notes ++ (note? c _).toList = _
  rw [h, Option.toList_none, List.append_nil]

theorem notes_switch (r : RequestId) (enabled : Bool) :
    (l.answer (.setRequestEnabled r enabled)).2.notes =
      l.notes ++ [⟨r, enabled, (l.answer (.setRequestEnabled r enabled)).1.isOk⟩] := rfl

theorem last?_switch (r q : RequestId) (enabled : Bool) :
    (l.answer (.setRequestEnabled r enabled)).2.last? q =
      if r = q ∧ (l.answer (.setRequestEnabled r enabled)).1.isOk then some enabled
      else l.last? q := by
  simp only [last?, notes_switch, List.filter_append]
  split
  · next h =>
    rw [List.filter_cons_of_pos (by simpa using h)]
    simp
  · next h =>
    rw [List.filter_cons_of_neg (by simpa using h), List.filter_nil, List.append_nil]

theorem last?_forget {requests : List RequestId} {r : RequestId} (h : r ∉ requests) :
    (l.forget requests).last? r = l.last? r := by
  simp only [last?, forget, List.filter_filter]
  congr 3
  funext n
  by_cases hn : n.request = r
  · simp [hn, h]
  · simp [hn]

theorem last?_forget_of_mem {requests : List RequestId} {r : RequestId} (h : r ∈ requests) :
    (l.forget requests).last? r = none := by
  have : ((l.forget requests).notes.filter fun n => n.request = r ∧ n.arrived) = [] := by
    refine List.filter_eq_nil_iff.2 fun n hn => ?_
    have hnot : n.request ∉ requests := by simpa using (List.mem_filter.1 hn).2
    simp only [decide_eq_true_eq, not_and]
    rintro rfl
    exact absurd h hnot
  rw [last?, this]
  rfl

@[simp] theorem forget_nil : l.forget [] = l := by
  simp [forget]

variable {l}

theorem failed_switch {requests : List RequestId} (h : l.Failed requests) (r : RequestId)
    (enabled : Bool) : (l.answer (.setRequestEnabled r enabled)).2.Failed requests := by
  obtain ⟨n, hn, hrest⟩ := h
  exact ⟨n, by rw [notes_switch]; exact List.mem_append_left _ hn, hrest⟩

end NotedLink

/-- The session reaches its target, and the numbers of requests have not come round. -/
def Reaching (s : Session) (l : NotedLink) : Prop :=
  s.unreachable? = none ∧ l.vm.nextRequest ≠ 0

instance (s : Session) (l : NotedLink) : Decidable (Reaching s l) :=
  inferInstanceAs (Decidable (_ ∧ _))

/-! ## Crews -/

/-- What may be in flight: an operation, or a part of what the event loop does with a set. -/
inductive Job
  | operation (o : Operation)
  | event (e : TargetEvent)
  | resumeAfter (set : EventSet)

namespace Job

def task : Job → Task Session Unit
  | operation o => Routine.bind o.task fun _ => .done ()
  | event e => Routine.bind (Session.handleEvent e) fun _ => .done ()
  | resumeAfter set => Routine.bind (Session.resumeAfter set) fun _ => .done ()

/-- The requests of the breakpoint whose flag is stored when the job begins. -/
def stores (s : Session) : Job → List RequestId
  | operation (.setEnabled id enabled) => (Session.storeEnabled id enabled s).1.getD []
  | _ => []

def isOnBreakpoints : Job → Bool
  | operation o => o.isOnBreakpoints
  | event _ | resumeAfter _ => true

end Job

structure Crew where
  session : Session
  link : NotedLink
  jobs : List (Task Session Unit) := []

/-- What comes next: a job begins with its first block of updates, one in flight makes a step,
something happens in the target, or faults are planned for a call. -/
inductive Turn
  | begin (j : Job)
  | go (n : Nat)
  | target (h : Happening)
  | plan (call : String) (f : Fault)

def Turn.isOnBreakpoints : Turn → Bool
  | .begin j => j.isOnBreakpoints
  | _ => true

namespace Crew

def step (c : Crew) : Turn → Crew
  | .begin j =>
    let (m, session) := j.task.advance c.session
    { session, link := c.link.forget (j.stores c.session), jobs := c.jobs ++ [m] }
  | .go n =>
    match c.jobs[n]? with
    | none => c
    | some m =>
      let (m, session, link) := m.move NotedLink.answer c.session c.link
      { session, link, jobs := c.jobs.set n m }
  | .target h => { c with link.link.vm := h.apply c.link.vm }
  | .plan call f => { c with link.link.faults := c.link.link.faults.insert call f }

def run (c : Crew) (turns : List Turn) : Crew := turns.foldl step c

theorem run_append (c : Crew) (xs ys : List Turn) : c.run (xs ++ ys) = (c.run xs).run ys :=
  List.foldl_append

def Idle (c : Crew) : Prop := ∀ m ∈ c.jobs, m = .done ()

end Crew

end JvmDebug
