import ContentType.Guess.Tally

namespace ContentType

/-- The best language so far with its score, and the sum of all scores. -/
structure Ranking where
  best : Option (Language × Float)
  sum : Float

namespace Ranking

def start : Ranking :=
  ⟨none, 0⟩

/-- One hit is no evidence. Of equal scores the first one leads. -/
def add (r : Ranking) (l : Language) (hits : Nat) : Ranking :=
  if hits ≤ 1 then r
  else
    let score := Float.ofNat hits / Float.ofNat l.hitsPerPoint * l.weight
    let leads : Bool :=
      match r.best with
      | none => 0 < score
      | some (_, best) => best < score
    ⟨if leads then some (l, score) else r.best, r.sum + score⟩

end Ranking

namespace Tally

def ranking (t : Tally) : Ranking :=
  Language.all.foldl (fun r l => r.add l (t.count l)) .start

/-- The leading language and its share of all scores, out of sixty. Java leads only when a class was
seen. -/
def weightedPick (t : Tally) : Option (Language × UInt8) :=
  let ranking := t.ranking
  match ranking.best with
  | none => none
  | some (l, score) =>
    if l = .java && !t.foundClass then none
    else some (l, (score / ranking.sum * 60).toUInt8)

end Tally

end ContentType
