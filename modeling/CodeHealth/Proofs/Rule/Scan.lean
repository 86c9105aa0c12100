import CodeHealth.Proofs.Fault
import CodeHealth.Rule.Basic

/-!
# Scans of a source that is a text

A source that is a text can be searched, split into lines and taken apart into blocks. A rule makes
one smell of each description that it finds.
-/

namespace CodeHealth

namespace Context

variable {ctx : Context} {s : Text}

theorem searched_of_raw (h : ctx.raw = .text s) :
    Fault.lift ctx.raw.searched = .ok s := by
  rw [h]
  rfl

theorem lines_of_raw (h : ctx.raw = .text s) : Fault.lift ctx.lines = .ok s.lines := by
  rw [lines, h]
  rfl

theorem blocks_of_raw (h : ctx.raw = .text s) (kind : BlockKind) :
    Fault.lift (ctx.blocks kind) = .ok (ctx.scanner.blocks kind s) := by
  rw [blocks, h]
  rfl

end Context

theorem Rule.scan_of_find {r : Rule} {ctx : Context} {found : List String}
    (h : r.find (ctx.threshold r.id) ctx = .ok found) :
    r.scan ctx = .ok (found.map fun description =>
      { category := .text r.category, name := .text r.name,
        description := .text description }) := by
  rw [scan, h]
  rfl

end CodeHealth
