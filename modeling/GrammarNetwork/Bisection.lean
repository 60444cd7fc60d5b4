/-! Bisection in an array whose entries are sorted around a key. -/

namespace GrammarNetwork

/-- An entry with index from `low` up to `high` that is level with the key, found by halving.
`side entry` says on which side of the key `entry` lies. -/
def bisect {α : Type} (entries : Array α) (side : α → Ordering) (low high : Nat) : Option α :=
  if low < high then
    match entries[(low + high) / 2]? with
    | none => none
    | some entry =>
        match side entry with
        | .eq => some entry
        | .lt => bisect entries side ((low + high) / 2 + 1) high
        | .gt => bisect entries side low ((low + high) / 2)
  else
    none
termination_by high - low

end GrammarNetwork
