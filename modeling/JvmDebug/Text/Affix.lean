/-!
Prefixes and suffixes of texts, on character lists.
-/
namespace JvmDebug.Text

def afterPrefix? : (p s : List Char) → Option (List Char)
  | [], s => some s
  | _ :: _, [] => none
  | a :: p, c :: s => if a = c then afterPrefix? p s else none

def beforeSuffix? (p s : List Char) : Option (List Char) :=
  (afterPrefix? p.reverse s.reverse).map List.reverse

def splitAt? (c : Char) : List Char → Option (List Char × List Char)
  | [] => none
  | a :: s => if a = c then some ([], s) else (splitAt? c s).map fun (l, r) => (a :: l, r)

/-- The parts of `s` between occurrences of `c`; there is always at least one. -/
def pieces (c : Char) : List Char → List (List Char)
  | [] => [[]]
  | a :: s =>
    if a = c then [] :: pieces c s
    else match pieces c s with
      | [] => [[a]]
      | p :: ps => (a :: p) :: ps

theorem afterPrefix?_eq_some {p s r : List Char} : afterPrefix? p s = some r ↔ s = p ++ r := by
  induction p generalizing s with
  | nil => simp [afterPrefix?, eq_comm]
  | cons a p ih =>
    cases s with
    | nil => simp [afterPrefix?]
    | cons c s => by_cases h : a = c <;> simp [afterPrefix?, h, ih, eq_comm]

theorem beforeSuffix?_eq_some {p s r : List Char} : beforeSuffix? p s = some r ↔ s = r ++ p := by
  simp only [beforeSuffix?, Option.map_eq_some_iff, afterPrefix?_eq_some]
  constructor
  · rintro ⟨t, h, rfl⟩
    have := congrArg List.reverse h
    simpa using this
  · rintro rfl
    exact ⟨r.reverse, by simp, by simp⟩

theorem afterPrefix?_length {p s r : List Char} (h : afterPrefix? p s = some r) :
    s.length = p.length + r.length := by
  rw [afterPrefix?_eq_some] at h
  simp [h]

end JvmDebug.Text
