/-!
# Distinct names

A name that is taken gets the first free number, counting from two (`Name.unique`).
-/

namespace Lifeline.Name

/-- The name with a number behind it. -/
def numbered (name : String) (k : Nat) : String := name ++ "_" ++ toString k

/-- The first of `name_k`, `name_(k+1)`, … that is not taken. Among `fuel` many there is one where
`fuel` is greater than the number of names taken. -/
def firstFree (name : String) (taken : List String) : (fuel k : Nat) → String
  | 0, k => numbered name k
  | fuel + 1, k =>
    if taken.contains (numbered name k) then firstFree name taken fuel (k + 1) else numbered name k

/-- The name itself where it is free, else the name with the first free number from two on. -/
def unique (name : String) (taken : List String) : String :=
  if taken.contains name then firstFree name taken (taken.length + 1) 2 else name

/-- Each name made distinct from those taken and from those before it. -/
def uniqueAll : (names taken : List String) → List String
  | [], _ => []
  | name :: names, taken =>
    let fresh := unique name taken
    fresh :: uniqueAll names (taken ++ [fresh])

end Lifeline.Name
