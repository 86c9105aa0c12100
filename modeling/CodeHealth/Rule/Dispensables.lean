import CodeHealth.Rule.Basic

/-!
# Code that is not needed

Comments are compared with lines, each comment counting once however many lines it covers. Duplicate
code is a window of consecutive lines that occurs a second time in the source; the windows are tried
from the first line on, and the one that ends with the last line is not tried.

The size of the window is a setting like any other. With a size of zero or less a window reaches
back from its first line, and then it is empty or ends as many lines before the end of the source.
-/

namespace CodeHealth

namespace Text

/-- The lines from a position on up to `size` positions further. An end before the first line counts
from behind the last one. -/
def window (ls : List Text) (start : Nat) (size : Int) : List Text :=
  let stop := start + size
  let stop := if stop < 0 then stop + ls.length else stop
  (ls.take stop.toNat).drop start

/-- The windows that are tried. Behind the last line all windows are alike, and one of them is tried
at most. -/
def windows (ls : List Text) (size : Int) : List (List Text) :=
  let count := ((ls.length : Int) - size).toNat
  (List.range (min count (ls.length + 1))).map fun start => window ls start size

end Text

namespace Rule

/-- Whether any element passes a test that may fail. Elements behind the first that passes are not
tested. -/
def anyPasses {α : Type} (test : α → Except Fault Bool) : List α → Except Fault Bool
  | [] => .ok false
  | x :: rest => do if ← test x then return true else anyPasses test rest

/-- The size of a window, which has to be a whole number. -/
def windowSize (v : Value) : Except Fault Int :=
  match v.number? with
  | some (.int size) => .ok size
  | some (.double _) => .error (.notWhole .double)
  | none => .error (.unsupported "-" .int v.kind)

/-- Finds more comments than lines times a ratio. -/
def comments : Rule where
  id := "DISPENSABLES.COMMENTS"
  name := "Comments"
  category := Category.dispensables.name
  order := 10
  find threshold ctx := do
    let ratio ← threshold .commentRatio
    let count := Text.commentCount (← ctx.raw.searched)
    let limit ← ratio.times (← ctx.lines).length
    if ← (Value.nat count).gt limit then return ["High ratio of comments to code"]
    return []

/-- Finds a window of lines that occurs twice. -/
def duplicateCode : Rule where
  id := "DISPENSABLES.DUPLICATE_CODE"
  name := "Duplicate Code"
  category := Category.dispensables.name
  order := 20
  description :=
    "Detects a block of duplicate_window_lines consecutive lines, longer than duplicate_min_chars "
      ++ "characters once joined, that appears verbatim elsewhere in the source."
  find threshold ctx := do
    let size ← threshold .duplicateWindowLines
    let minChars ← threshold .duplicateMinChars
    let ls ← ctx.lines
    let raw ← ctx.raw.searched
    let windows := Text.windows ls (← windowSize size)
    let found ← anyPasses (fun w => do
      let chunk := Text.unlines w
      return (← (Value.nat chunk.length).gt minChars) && chunk.recurs raw) windows
    return if found then ["Similar code blocks found"] else []

end Rule

end CodeHealth
