/-!
# Ordered members

Members are pairs of a key and a value in the order in which the keys were first put in.
`Members.put` keeps the keys distinct, and looking up a key gives what was put there last
(`lookup_put`).
-/

namespace JsonSchema.Members

variable {κ α : Type} [DecidableEq κ]

/-- Puts a value under a key: in the place of the one that is there, or at the end. -/
def put (members : List (κ × α)) (key : κ) (value : α) : List (κ × α) :=
  match members with
  | [] => [(key, value)]
  | (other, old) :: rest =>
    if other = key then (key, value) :: rest else (other, old) :: put rest key value

/-- Puts a value under a key that has none. -/
def putNew (members : List (κ × α)) (key : κ) (value : α) : List (κ × α) :=
  match members.lookup key with
  | some _ => members
  | none => members ++ [(key, value)]

/-- The keys of members, in order. -/
def keys (members : List (κ × α)) : List κ :=
  members.map (·.1)

/-- Putting changes what is found under its own key and nothing else. -/
theorem lookup_put (members : List (κ × α)) (key other : κ) (value : α) :
    (put members key value).lookup other =
      if other = key then some value else members.lookup other := by
  induction members with
  | nil =>
    by_cases h : other = key
    · simp [put, h]
    · simp [put, List.lookup_cons, h, beq_eq_false_iff_ne.2 h]
  | cons head rest ih =>
    obtain ⟨first, old⟩ := head
    simp only [put]
    by_cases hk : first = key
    · subst hk
      by_cases h : other = first
      · simp [h]
      · simp [List.lookup_cons, h, beq_eq_false_iff_ne.2 h]
    · simp only [if_neg hk, List.lookup_cons]
      by_cases h : other = first
      · subst h; simp [hk]
      · simp [beq_eq_false_iff_ne.2 h, ih]

end JsonSchema.Members
