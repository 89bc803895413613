import JvmDebug.Wire.Line
import Mathlib.Logic.Relation

/-!
Histories of systems that go on step by step, with the ids they draw from a counter, and what a
command on the line to a scripted agent does to the client, as a sequence of the client's own moves.
-/
namespace JvmDebug

/-- The moments of the steps from a start to where the system is now, the last of them at the end. -/
inductive History {σ μ : Type} (Step : σ → μ → σ → Prop) (start : σ) : List μ → σ → Prop
  | nil : History Step start [] start
  | snoc {hs : List μ} {t t' : σ} {h : μ} (hrun : History Step start hs t) (hstep : Step t h t') :
      History Step start (hs ++ [h]) t'

theorem History.append {σ μ : Type} {Step : σ → μ → σ → Prop} {start t t' : σ} {hs hs' : List μ}
    (hrun : History Step start hs t) (hrest : History Step t hs' t') :
    History Step start (hs ++ hs') t' := by
  induction hrest with
  | nil => simpa using hrun
  | snoc _ hstep ih => rw [← List.append_assoc]; exact ih.snoc hstep

/-- What a counter gives out that starts at one and has given out so many. -/
def counted (n : Nat) : UInt32 := UInt32.ofNat (n + 1)

theorem counted_succ (n : Nat) : counted n + 1 = counted (n + 1) := by
  rw [counted, counted, UInt32.ofNat_add (n + 1) 1]
  rfl

theorem counted_injective {m n : Nat} (hm : m < UInt32.size) (hn : n < UInt32.size)
    (h : counted m = counted n) : m = n := by
  have hvalue := congrArg UInt32.toNat h
  simp only [counted, UInt32.toNat_ofNat'] at hvalue
  simp only [UInt32.size] at hm hn
  omega

namespace Wire

/-- One move of a client, with the commands under way. Packets come, and the line ends, only while it
is open. -/
inductive Client.Move : Client × List Pending → Client × List Pending → Prop
  | register {k k' : Client} {u : List Pending} {c : Command} {p : Pending} {packet : Packet}
      (h : k.issue c = .ok (p, packet, k')) : Move (k, u) (k', p :: u)
  | receive {k : Client} {u : List Pending} (hopen : k.closed = false) (packet : Packet) :
      Move (k, u) (k.receive packet, u)
  | stop {k : Client} {u : List Pending} (hopen : k.closed = false) : Move (k, u) (k.stop, u)
  | finish {k : Client} {u : List Pending} (p : Pending) : Move (k, p :: u) ((k.finish p).2, u)
  | adopt {k : Client} {u : List Pending} (sizes : IdSizes) : Move (k, u) (k.adopt sizes, u)

/-- A number of moves. -/
abbrev Client.Moves : Client × List Pending → Client × List Pending → Prop :=
  Relation.ReflTransGen Client.Move

open Client Relation

theorem Client.readStream_moves (fuel : Nat) (k : Client) (stream : Bytes) (u : List Pending) :
    Moves (k, u) ((readStream fuel k stream).1, u) := by
  induction fuel generalizing k stream with
  | zero => exact .refl
  | succ fuel ih =>
    unfold readStream
    split
    · exact .refl
    · next hclosed =>
      have hopen : k.closed = false := Bool.eq_false_iff.2 hclosed
      split
      · exact .refl
      · exact .single (.stop hopen)
      · next packet rest _ => exact .head (.receive hopen packet) (ih _ rest)

namespace Line

theorem read_moves (l : Line) (u : List Pending) : Moves (l.client, u) (l.read.client, u) := by
  have hread := readStream_moves (l.stream.length + 1) l.client l.stream u
  unfold Line.read
  dsimp only
  split
  · next hstop => exact hread.tail (.stop (Bool.eq_false_iff.2 hstop.2))
  · exact hread

theorem note_moves (l : Line) (c : Command) (reply : c.Reply) (u : List Pending) :
    Moves (l.client, u) ((l.note c reply).client, u) := by
  unfold Line.note
  split
  · next sizes => exact .single (.adopt sizes)
  · exact .refl

theorem perform_moves (l : Line) (c : Command) (u : List Pending) :
    Moves (l.client, u) ((l.perform c).2.client, u) := by
  unfold Line.perform
  split
  · exact .refl
  · next p packet k hissue =>
    obtain ⟨bytes, cut, peer⟩ := l.peer.hear packet
    let arrived : Line := { l with client := k, peer, stream := l.stream ++ bytes }
    let heard : Line := if cut then arrived.read.hangUp else arrived.read
    have hheard : Moves (arrived.read.client, p :: u) (heard.client, p :: u) := by
      by_cases hcut : cut = true
      · simp only [heard, if_pos hcut]
        exact read_moves { arrived.read with ended := true } (p :: u)
      · simp only [heard, if_neg hcut]
        exact .refl
    have hregister : Moves (l.client, u) (k, p :: u) := .single (.register hissue)
    refine ((hregister.trans (read_moves arrived _)).trans hheard).trans ?_
    exact .head (.finish p) (note_moves { heard with client := (heard.client.finish p).2 } c _ u)

end Line

end Wire

end JvmDebug
