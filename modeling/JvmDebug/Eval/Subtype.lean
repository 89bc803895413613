import JvmDebug.Connection

/-!
Subtyping as the target tells it: breadth first from an object's class through superclasses and
interfaces. Every type is visited once, so the search ends on any graph of types.
-/
namespace JvmDebug

theorem length_le_of_nodup_lt {l : List Nat} {n : Nat} (h : l.Nodup) (lt : ∀ x ∈ l, x < n) :
    l.length ≤ n := by
  induction n generalizing l with
  | zero =>
    cases l with
    | nil => simp
    | cons a l => exact absurd (lt a (by simp)) (by omega)
  | succ n ih =>
    have h' : (l.erase n).Nodup := h.sublist List.erase_sublist
    have : (l.erase n).length ≤ n := ih h' fun x hx => by
      have h1 : x ≠ n := (h.mem_erase_iff.mp hx).1
      have h2 := lt x (List.mem_of_mem_erase hx)
      omega
    have := List.length_erase (a := n) (l := l)
    split at this <;> omega

structure Visited where
  types : List TypeId
  nodup : types.Nodup

namespace Visited

def empty : Visited := ⟨[], List.nodup_nil⟩

def insert (v : Visited) (c : TypeId) (h : c ∉ v.types) : Visited :=
  ⟨c :: v.types, List.nodup_cons.mpr ⟨h, v.nodup⟩⟩

def room (v : Visited) : Nat := UInt64.size - v.types.length

theorem length_le (v : Visited) : v.types.length ≤ UInt64.size := by
  have h : (v.types.map UInt64.toNat).Nodup :=
    List.Pairwise.map _ (fun _ _ hne h => hne (UInt64.toNat_inj.mp h)) v.nodup
  have := length_le_of_nodup_lt h (n := UInt64.size) fun x hx => by
    obtain ⟨c, _, rfl⟩ := List.mem_map.mp hx
    exact c.toNat_lt
  simpa using this

theorem room_insert_lt (v : Visited) (c : TypeId) (h : c ∉ v.types) :
    (v.insert c h).room < v.room := by
  have := (v.insert c h).length_le
  simp only [room, insert, List.length_cons] at *
  omega

end Visited

namespace Subtype
variable {σ : Type}

def search (name : String) (visited : Visited) :
    List (TypeId × TypeKind) → Op DebugError σ Bool
  | [] => return false
  | (c, kind) :: queue =>
    if h : c ∈ visited.types then search name visited queue
    else do
      let above : Option TypeInfo ←
        if kind == .classType then Op.call (.superclass c) else pure none
      if above.any (·.name == name) then return true
      let interfaces : List TypeInfo ← Op.call (.interfaces c)
      if interfaces.any (·.name == name) then return true
      search name (visited.insert c h)
        (queue ++ (above.toList ++ interfaces).map fun t => (t.id, t.kind))
termination_by queue => (visited.room, queue.length)
decreasing_by
  · exact Prod.Lex.right _ (by simp)
  · exact Prod.Lex.left _ _ (visited.room_insert_lt c h)

/-- The object is an instance of the named type. Arrays have the two interfaces of all arrays. -/
def holds (o : ObjectRef) (name : String) : Op DebugError σ Bool :=
  if o.runtimeType == name || name == "java.lang.Object" then return true
  else if o.isArray then return name == "java.lang.Cloneable" || name == "java.io.Serializable"
  else search name .empty [(o.typeId, .classType)]

end Subtype

end JvmDebug
