import JvmDebug.Proofs.SelectionSteps

/-!
Which frame is selected after a stop. The note of a stop selects the thread and its top frame.
Selecting a frame writes the frame without the thread it was meant for: what the user asked for
before the stop, and what was found good by the frames of another thread, is written after the stop
all the same. Nothing else moves the frame until the user selects a thread or a frame of this one.
-/
namespace JvmDebug

open Routine Session

namespace Scene

/-- Every turn of the run is as told, in the scene in which it is taken. -/
def Along (c : Scene) (turns : List Turn) (P : Scene → Turn → Prop) : Prop :=
  ∀ xs x, xs ++ [x] <+: turns → P (c.play xs) x

section Along
variable {c : Scene} {turns : List Turn} {x : Turn} {P : Scene → Turn → Prop}

theorem along_nil : c.Along [] P := fun xs x h => by simp at h

theorem along_snoc : c.Along (turns ++ [x]) P ↔ c.Along turns P ∧ P (c.play turns) x := by
  constructor
  · intro h
    exact ⟨fun xs y hxs => h xs y (hxs.trans (List.prefix_append _ _)), h turns x List.prefix_rfl⟩
  · rintro ⟨h, hx⟩ xs y hxs
    rcases List.prefix_concat_iff.1 hxs with heq | hxs
    · obtain ⟨rfl, rfl⟩ := List.append_singleton_inj.1 heq
      exact hx
    · exact h xs y hxs

end Along

/-! ## Turns that have to do with the selection -/

/-- By the turn no stop is noted, no thread is selected, and no index is found good by the frames of
the thread. -/
structure Undecided (t : ThreadId) (c : Scene) (x : Turn) : Prop where
  stop : x = .choice .loop → ∀ u, ¬c.loop.NotesStop u
  thread : ∀ n, x = .choice (.go n) → ∀ u, c.calls[n]? ≠ some (threadJudged u)
  frame : ∀ n, x = .choice (.go n) → ∀ i frames, c.calls[n]? = some (frameAsked t i) →
    (c.vm.answer (.frames t)).1 = .ok frames → frames.length ≤ i

/-- The turn neither writes the selected frame nor forgets the selected thread. -/
structure KeepsFrame (c : Scene) (x : Turn) : Prop where
  frame : ∀ n, x = .choice (.go n) → ∀ i, c.calls[n]? ≠ some (frameJudged i)
  thread : x = .choice .loop → ∀ u, c.session.selection.thread = some u → ¬c.loop.NotesDeath u

/-- The `n`th call is about to write the frame, or has asked for the frames of another thread. -/
def UnderWay (c : Scene) (t : ThreadId) (n i : Nat) : Prop :=
  c.calls[n]? = some (frameJudged i) ∨ ∃ u, u ≠ t ∧ c.calls[n]? = some (frameAsked u i)

/-- The stop of the thread is noted while the call is under way; later the call writes its index,
and nothing touches the frame after that. -/
structure Overtakes (c : Scene) (t : ThreadId) (turns : List Turn) (n i : Nat) : Prop where
  underWay : c.UnderWay t n i
  writes : ∃ xs ys, turns = xs ++ .choice (.go n) :: ys ∧
    (c.play (.choice .loop :: xs)).calls[n]? = some (frameJudged i) ∧
    (c.play (.choice .loop :: xs ++ [.choice (.go n)])).Along ys KeepsFrame

/-! ## One turn -/

inductive Turn.Begins : Turn → Task Session (Option DebugError) → Prop
  | call (o : Operation) : Begins (.choice (.call o)) o.task
  | errand (e : Errand) : Begins (.errand e) e.task

theorem Turn.Begins.selecting {x : Turn} {m : Task Session (Option DebugError)} (h : x.Begins m) :
    Selecting m := by
  cases h with
  | call o => exact selecting_operation o
  | errand e => exact selecting_errand e

theorem Turn.Begins.ne {x : Turn} {m : Task Session (Option DebugError)} (h : x.Begins m) :
    (∀ t i, m ≠ frameAsked t i) ∧ ∀ i, m ≠ frameJudged i := by
  have hkeeps {m : Task Session (Option DebugError)} (hm : KeepsSelection m) :
      (∀ t i, m ≠ frameAsked t i) ∧ ∀ i, m ≠ frameJudged i :=
    ⟨fun t i h => frameAsked_changes t i (h ▸ hm), fun i h => frameJudged_changes i (h ▸ hm)⟩
  cases h with
  | call o => exact hkeeps (keepsSelection_operation o)
  | errand e =>
    cases he : e.selects with
    | false => exact hkeeps (keepsSelection_errand he)
    | true => exact errand_ne he

theorem calls_next {c : Scene} {x : Turn} {n : Nat} {m' : Task Session (Option DebugError)}
    (h : (c.next x).calls[n]? = some m') :
    c.calls[n]? = some m' ∨ x.Begins m' ∨ ∃ m, x = .choice (.go n) ∧ c.calls[n]? = some m ∧
      m' = (m.move Vm.serve c.session c.vm).1 := by
  have hjoin {m : Task Session (Option DebugError)} (hm : x.Begins m)
      (h : (c.calls ++ [m])[n]? = some m') : c.calls[n]? = some m' ∨ x.Begins m' := by
    by_cases hn : n < c.calls.length
    · exact .inl (by rwa [List.getElem?_append_left hn] at h)
    · rw [List.getElem?_append_right (not_lt.1 hn), List.getElem?_singleton] at h
      split at h
      · exact .inr (Option.some.inj h ▸ hm)
      · cases h
  cases x with
  | errand e => exact (hjoin (.errand e) h).imp_right .inl
  | report set => exact .inl h
  | choice x =>
    cases x with
    | call o => exact (hjoin (.call o) h).imp_right .inl
    | target _ => exact .inl h
    | loop => exact .inl h
    | go k =>
      have h : (c.step (.go k)).calls[n]? = some m' := h
      cases hk : c.calls[k]? with
      | none =>
        rw [step_go_none hk] at h
        exact .inl h
      | some m =>
        rw [step_go_some hk] at h
        by_cases hkn : k = n
        · subst hkn
          rw [List.getElem?_set_self (List.getElem?_eq_some_iff.1 hk).1] at h
          exact .inr (.inr ⟨m, rfl, hk, (Option.some.inj h).symm⟩)
        · exact .inl (by rwa [List.getElem?_set_ne hkn] at h)

/-- The calls are at one of their stages, and the loop changes the selection by its notes alone. -/
structure Traced (c : Scene) : Prop where
  calls : ∀ m ∈ c.calls, Selecting m
  loop : c.loop.Settling

variable {c d : Scene} {t : ThreadId} {x : Turn} {turns : List Turn}

theorem Traced.next (hc : c.Traced) (x : Turn) : (c.next x).Traced := by
  refine ⟨fun m' hm' => ?_, ?_⟩
  · obtain ⟨n, hn⟩ := List.mem_iff_getElem?.1 hm'
    rcases calls_next hn with hn | hbegins | ⟨m, -, hm, rfl⟩
    · exact hc.calls m' (List.mem_of_getElem? hn)
    · exact hbegins.selecting
    · exact ((hc.calls m (List.mem_of_getElem? hm)).move c.session c.vm).1
  · cases x with
    | errand | report => exact hc.loop
    | choice x =>
      cases x with
      | call | target => exact hc.loop
      | loop => exact (hc.loop.step c.session c.vm).1
      | go n =>
        show (c.step (.go n)).loop.Settling
        cases hn : c.calls[n]? with
        | none =>
          rw [step_go_none hn]
          exact hc.loop
        | some m =>
          rw [step_go_some hn]
          exact hc.loop

theorem Traced.play (hc : c.Traced) (turns : List Turn) : (c.play turns).Traced :=
  play_induction (P := fun _ c => c.Traced) c turns hc fun _ x _ h => h.next x

theorem traced_of_idle (hcalls : c.calls = []) (hloop : c.loop = .reading) : c.Traced := by
  refine ⟨by simp [hcalls], ?_⟩
  rw [hloop]
  trivial

/-- What an undecided turn does to the selection. -/
theorem Traced.selection_next (hc : c.Traced) (hx : Undecided t c x) :
    (c.next x).session.selection = c.session.selection ∨
    (∃ n i, x = .choice (.go n) ∧ c.calls[n]? = some (frameJudged i) ∧
      (c.next x).session.selection = { c.session.selection with frame := i }) ∨
    ∃ u, x = .choice .loop ∧ c.loop.NotesDeath u ∧ (c.next x).session.selection =
      if c.session.selection.thread = some u then {} else c.session.selection := by
  cases x with
  | errand e => exact .inl rfl
  | report set => exact .inl rfl
  | choice x =>
    cases x with
    | call o => exact .inl rfl
    | target h => exact .inl rfl
    | loop =>
      rcases (hc.loop.step c.session c.vm).2 with hsame | ⟨u, hstop⟩ | ⟨u, hdeath⟩
      · exact .inl hsame
      · exact absurd hstop (hx.stop rfl u)
      · exact .inr (.inr ⟨u, rfl, hdeath, hdeath.selection c.session c.vm⟩)
    | go n =>
      show (c.step (.go n)).session.selection = _ ∨ _
      cases hn : c.calls[n]? with
      | none =>
        rw [step_go_none hn]
        exact .inl rfl
      | some m =>
        obtain ⟨-, hselects⟩ := (hc.calls m (List.mem_of_getElem? hn)).move c.session c.vm
        by_cases hframe : ∃ i, m = frameJudged i
        · obtain ⟨i, rfl⟩ := hframe
          refine .inr (.inl ⟨n, i, rfl, hn, ?_⟩)
          show (c.step (.go n)).session.selection = _
          rw [step_go_some hn]
          rfl
        · refine .inl ?_
          rw [step_go_some hn]
          exact hselects.same (fun i hm => hframe ⟨i, hm⟩) fun u hm =>
            hx.thread n rfl u (hm ▸ hn)

theorem Traced.frame_next (hc : c.Traced) (hx : Undecided t c x) (hkeeps : c.KeepsFrame x) :
    (c.next x).session.selection = c.session.selection := by
  rcases hc.selection_next hx with h | ⟨n, i, hgo, hn, -⟩ | ⟨u, hloop, hdeath, h⟩
  · exact h
  · exact absurd hn (hkeeps.frame n hgo i)
  · rw [h, if_neg fun hu => hkeeps.thread hloop u hu hdeath]

/-- A turn keeps the frame, or writes it, or forgets the selected thread. -/
theorem frame_cases (c : Scene) (x : Turn) : c.KeepsFrame x ∨
    (∃ n k, x = .choice (.go n) ∧ c.calls[n]? = some (frameJudged k) ∧
      (c.next x).session.selection.frame = k) ∨
    ∃ u, x = .choice .loop ∧ c.session.selection.thread = some u ∧ c.loop.NotesDeath u ∧
      (c.next x).session.selection.frame = 0 := by
  by_cases hjudged : ∃ n k, x = .choice (.go n) ∧ c.calls[n]? = some (frameJudged k)
  · obtain ⟨n, k, rfl, hn⟩ := hjudged
    refine .inr (.inl ⟨n, k, rfl, hn, ?_⟩)
    show (c.step (.go n)).session.selection.frame = k
    rw [step_go_some hn]
    rfl
  by_cases hdeath : x = .choice .loop ∧
      ∃ u, c.session.selection.thread = some u ∧ c.loop.NotesDeath u
  · obtain ⟨rfl, u, hu, hdeath⟩ := hdeath
    refine .inr (.inr ⟨u, rfl, hu, hdeath, ?_⟩)
    have hselection := hdeath.selection c.session c.vm
    rw [if_pos hu] at hselection
    exact congrArg Selection.frame hselection
  · exact .inl ⟨fun n hgo k hn => hjudged ⟨n, k, hgo, hn⟩,
      fun hloop u hu h => hdeath ⟨hloop, u, hu, h⟩⟩

/-! ## After the stop -/

/-- A scene after the stop of the thread has been noted in `d`, with nothing decided since. -/
structure Follows (d : Scene) (t : ThreadId) (c : Scene) : Prop extends c.Traced where
  thread : c.session.selection.thread = some t ∨ c.session.selection.thread = none
  asked : ∀ (n : Nat) u i, c.calls[n]? = some (frameAsked u i) →
    u = t ∨ d.calls[n]? = some (frameAsked u i)
  judged : ∀ (n : Nat) i, c.calls[n]? = some (frameJudged i) → d.UnderWay t n i

theorem Traced.follows (hd : d.Traced) (hstop : d.loop.NotesStop t) :
    d.Follows t (d.next (.choice .loop)) := by
  refine ⟨hd.next _, .inl ?_, fun n u i hn => .inr hn, fun n i hn => .inl hn⟩
  exact congrArg Selection.thread (hstop.selection d.session d.vm)

theorem Follows.next (hc : d.Follows t c) (hx : Undecided t c x) : d.Follows t (c.next x) := by
  refine ⟨hc.toTraced.next x, ?_, fun n u i hn => ?_, fun n i hn => ?_⟩
  · rcases hc.selection_next hx with h | ⟨n, i, -, -, h⟩ | ⟨u, -, -, h⟩
    · rw [h]
      exact hc.thread
    · rw [h]
      exact hc.thread
    · rw [h]
      split
      · exact .inr rfl
      · exact hc.thread
  · rcases calls_next hn with hn | hbegins | ⟨m, rfl, hm, hmove⟩
    · exact hc.asked n u i hn
    · exact absurd rfl (hbegins.ne.1 u i)
    · obtain ⟨-, hselects⟩ := (hc.calls m (List.mem_of_getElem? hm)).move c.session c.vm
      rw [← hmove] at hselects
      have hu := hselects.asked
      rcases hc.thread with ht | ht
      · exact .inl (Option.some.inj (hu.symm.trans ht))
      · rw [ht] at hu
        cases hu
  · rcases calls_next hn with hn | hbegins | ⟨m, rfl, hm, hmove⟩
    · exact hc.judged n i hn
    · exact absurd rfl (hbegins.ne.2 i)
    · obtain ⟨-, hselects⟩ := (hc.calls m (List.mem_of_getElem? hm)).move c.session c.vm
      rw [← hmove] at hselects
      obtain ⟨u, frames, rfl, hframes, hi⟩ := hselects.judged
      have hu : u ≠ t := by
        rintro rfl
        exact absurd (hx.frame n rfl i frames hm hframes) (Nat.not_le.2 hi)
      exact .inr ⟨u, hu, (hc.asked n u i hm).resolve_left hu⟩

/-- A further turn is the last of the call, or comes after it. -/
theorem overtakes_snoc {n i : Nat} : d.Overtakes t (turns ++ [x]) n i ↔
    (x = .choice (.go n) ∧ d.UnderWay t n i ∧
      (d.play (.choice .loop :: turns)).calls[n]? = some (frameJudged i)) ∨
    (d.Overtakes t turns n i ∧ (d.play (.choice .loop :: turns)).KeepsFrame x) := by
  constructor
  · rintro ⟨hway, xs, ys, hturns, hn, hafter⟩
    rcases List.eq_nil_or_concat' ys with rfl | ⟨zs, z, rfl⟩
    · obtain ⟨rfl, hx⟩ := List.append_inj' hturns rfl
      cases hx
      exact .inl ⟨rfl, hway, hn⟩
    · rw [← List.cons_append, ← List.append_assoc] at hturns
      obtain ⟨rfl, hx⟩ := List.append_inj' hturns rfl
      cases hx
      obtain ⟨hafter, hlast⟩ := along_snoc.1 hafter
      refine .inr ⟨⟨hway, xs, zs, rfl, hn, hafter⟩, ?_⟩
      simpa [← play_append] using hlast
  · rintro (⟨rfl, hway, hn⟩ | ⟨⟨hway, xs, ys, rfl, hn, hafter⟩, hlast⟩)
    · exact ⟨hway, turns, [], rfl, hn, along_nil⟩
    · refine ⟨hway, xs, ys ++ [x], by simp, hn, along_snoc.2 ⟨hafter, ?_⟩⟩
      simpa [← play_append] using hlast

/-- A turn that decides nothing leaves the selected frame the one that was the last to be written by
a call under way at the stop. -/
theorem Follows.frame_snoc (hc : d.Follows t c) (hplay : d.play (.choice .loop :: turns) = c)
    (hx : Undecided t c x) {i : Nat} (hi : i ≠ 0)
    (hframe : c.session.selection.frame = i ↔ ∃ n, d.Overtakes t turns n i) :
    (c.next x).session.selection.frame = i ↔ ∃ n, d.Overtakes t (turns ++ [x]) n i := by
  simp only [overtakes_snoc, hplay]
  rcases c.frame_cases x with hkeeps | ⟨n, k, rfl, hn, hk⟩ | ⟨u, rfl, hu, hdeath, hzero⟩
  · rw [hc.frame_next hx hkeeps, hframe]
    constructor
    · rintro ⟨n, hn⟩
      exact ⟨n, .inr ⟨hn, hkeeps⟩⟩
    · rintro ⟨n, ⟨hgo, -, hn⟩ | ⟨hn, -⟩⟩
      · exact absurd hn (hkeeps.frame n hgo i)
      · exact ⟨n, hn⟩
  · rw [hk]
    constructor
    · rintro rfl
      exact ⟨n, .inl ⟨rfl, hc.judged n k hn, hn⟩⟩
    · rintro ⟨n', ⟨hgo, -, hn'⟩ | ⟨-, hkeeps⟩⟩
      · cases hgo
        exact frameJudged_inj (Option.some.inj (hn.symm.trans hn'))
      · exact absurd hn (hkeeps.frame n rfl k)
  · rw [hzero]
    constructor
    · intro h
      exact absurd h.symm hi
    · rintro ⟨n, ⟨hgo, -⟩ | ⟨-, hkeeps⟩⟩
      · cases hgo
      · exact absurd hdeath (hkeeps.thread rfl u hu)

theorem Traced.frame_play (hd : d.Traced) (hstop : d.loop.NotesStop t)
    (hturns : (d.next (.choice .loop)).Along turns (Undecided t)) :
    d.Follows t (d.play (.choice .loop :: turns)) ∧ ∀ i, i ≠ 0 →
      ((d.play (.choice .loop :: turns)).session.selection.frame = i ↔
        ∃ n, d.Overtakes t turns n i) := by
  induction turns using List.reverseRecOn with
  | nil =>
    refine ⟨hd.follows hstop, fun i hi => ?_⟩
    have hframe : (d.play [.choice .loop]).session.selection.frame = 0 :=
      congrArg Selection.frame (hstop.selection d.session d.vm)
    constructor
    · intro h
      exact absurd (h.symm.trans hframe) hi
    · rintro ⟨n, -, xs, ys, h, -⟩
      simp at h
  | append_singleton turns x ih =>
    obtain ⟨hturns, hx⟩ := along_snoc.1 hturns
    obtain ⟨hfollows, hframe⟩ := ih hturns
    have hplay : d.play (.choice .loop :: (turns ++ [x])) =
        (d.play (.choice .loop :: turns)).next x := play_snoc d (.choice .loop :: turns) x
    rw [hplay]
    exact ⟨hfollows.next hx, fun i hi => hfollows.frame_snoc rfl hx hi (hframe i hi)⟩

/-- From the note of a stop on, as long as nothing is decided, the thread is selected or has died,
and its top frame is selected unless a call that was under way at the stop has overtaken it. -/
theorem frame_after_stop_iff_overtaken (hcalls : c.calls = []) (hloop : c.loop = .reading)
    {xs : List Turn} (hstop : (c.play xs).loop.NotesStop t)
    (hturns : (c.play (xs ++ [.choice .loop])).Along turns (Undecided t)) :
    ((c.play (xs ++ .choice .loop :: turns)).session.selection.thread = some t ∨
      (c.play (xs ++ .choice .loop :: turns)).session.selection.thread = none) ∧
    ∀ i, i ≠ 0 → ((c.play (xs ++ .choice .loop :: turns)).session.selection.frame = i ↔
      ∃ n, (c.play xs).Overtakes t turns n i) := by
  rw [play_snoc] at hturns
  rw [play_append]
  obtain ⟨hfollows, hframe⟩ :=
    ((traced_of_idle hcalls hloop).play xs).frame_play hstop hturns
  exact ⟨hfollows.thread, hframe⟩

/-- Connected to a machine with two suspended threads of two frames each. -/
def twoStacks : Scene :=
  let (c, vm) := ({} : Vm).addClass "app.Main" .classType none true
  let (m, vm) := vm.addMethod c "run" "()V" false none
  let (l, vm) := vm.addLine m 7
  let (t, vm) := vm.addThread "main"
  let (u, vm) := vm.addThread "worker"
  let (_, vm) := vm.addFrame t l none []
  let (_, vm) := vm.addFrame t l none []
  let (_, vm) := vm.addFrame u l none []
  let (_, vm) := vm.addFrame u l none []
  connected .attachedRemote "sample" (Session.new "s" {} 0 {})
    ((vm.setSuspended t true).setSuspended u true)

/-- The user selects the second thread and asks for its second frame; the index is found good just
before the stop of the first thread is noted. -/
def untilStop : List Turn :=
  [.errand (.selectThread 4), .choice (.go 0), .choice (.go 0), .choice (.go 0),
    .errand (.selectFrame 1), .choice (.go 1), .choice (.go 1),
    .report ⟨.all, [.breakpoint none 3 ⟨1, 1, 2, 0⟩]⟩,
    .choice .loop, .choice .loop, .choice .loop, .choice .loop]

theorem notesStop_untilStop : (twoStacks.play untilStop).loop.NotesStop 3 :=
  ⟨_, _, _, _, _, rfl⟩

theorem undecided_lateWrite :
    (twoStacks.play (untilStop ++ [.choice .loop])).Along [.choice (.go 1)] (Undecided 3) := by
  have hcalls : (twoStacks.play (untilStop ++ [.choice .loop])).calls =
      [.done none, frameJudged 1] := rfl
  rw [← List.nil_append [Turn.choice (.go 1)], along_snoc]
  refine ⟨along_nil, nofun, fun n hgo u hn => ?_, fun n hgo i frames hn _ => ?_⟩
  all_goals
    cases hgo
    rw [play, List.foldl_nil, hcalls] at hn
    have hn := Option.some.inj hn
  · exact absurd hn (frameJudged_ne_threadJudged 1 u)
  · cases hn

theorem frame_after_stop_late_write :
    (twoStacks.play (untilStop ++ .choice .loop :: [.choice (.go 1)])).session.selection =
      ⟨some 3, 1⟩ ∧
    ∃ n, (twoStacks.play untilStop).Overtakes 3 [.choice (.go 1)] n 1 :=
  ⟨rfl, ((frame_after_stop_iff_overtaken rfl rfl notesStop_untilStop undecided_lateWrite).2 1
    Nat.one_ne_zero).1 rfl⟩

/-- After the stop of a thread another frame than its top one can be selected. -/
theorem not_top_frame_after_stop :
    ¬∀ (c : Scene) (xs turns : List Turn) (t : ThreadId), c.calls = [] → c.loop = .reading →
      (c.play xs).loop.NotesStop t →
      (c.play (xs ++ [.choice .loop])).Along turns (Undecided t) →
      (c.play (xs ++ .choice .loop :: turns)).session.selection.thread = some t →
      (c.play (xs ++ .choice .loop :: turns)).session.selection.frame = 0 := by
  intro h
  have hframe := h twoStacks untilStop [.choice (.go 1)] 3 rfl rfl notesStop_untilStop
    undecided_lateWrite rfl
  cases hframe

end Scene

end JvmDebug
