import CodeHealth.Rule.Basic

/-!
# Code that is tied too closely to other code

A call is a name, a point, another name and an opening parenthesis, with nothing between them. The
calls are counted for each receiver, the name before the point.
-/

namespace CodeHealth

def callOn : Recogniser Text := fun before s => do
  guard (Text.startsWord before)
  let receiver := s.takeWhile Text.isWord
  guard (receiver ≠ [])
  let rest ← Text.after? ['.'] (s.dropWhile Text.isWord)
  guard (rest.head?.any Text.isWord)
  let rest ← Text.after? ['('] (rest.dropWhile Text.isWord)
  return (s.length - rest.length, receiver)

/-- How often each receiver is called, in the order of the first calls. -/
def Text.callCounts (s : Text) : Entries Text Nat :=
  Entries.tally ((s.scan callOn).map Hit.value)

namespace Rule

/-- Finds receivers that are called too often. -/
def featureEnvy : Rule where
  id := "COUPLERS.FEATURE_ENVY"
  name := "Feature Envy"
  category := Category.couplers.name
  order := 10
  find threshold ctx := do
    let maxCalls ← threshold .featureEnvyCalls
    let counts := (← ctx.raw.searched).callCounts
    let often ← counts.filterM fun (_, calls) => Fault.lift ((Value.nat calls).gt maxCalls)
    return often.map fun (receiver, _) =>
      "Class makes too many calls to " ++ String.ofList receiver

end Rule

end CodeHealth
