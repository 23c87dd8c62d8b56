/-
The summary lines of fetched blocks: one line a block, in ascending order,
between two marker lines.
-/
import AssertionReplay.Fetch.Block

namespace AssertionReplay

open Text

/-- How many transactions a block has and how many of them touch the target. -/
structure BlockCount where
  block : Int
  total : Int
  triggered : Int

def BlockResult.count (b : BlockResult) : BlockCount :=
  ⟨b.block, b.transactions.length, b.matched.length⟩

namespace BlockCount

def line (c : BlockCount) : String :=
  if c.triggered != 0 then
    "=== BLOCK " ++ decimal c.block ++ " SUMMARY | Triggered: " ++ decimal c.triggered ++
      " | Not Triggered: " ++ decimal (c.total - c.triggered) ++ " | Total: " ++
      decimal c.total ++ " ==="
  else "=== BLOCK " ++ decimal c.block ++ " | Total TXs: " ++ decimal c.total ++ " ==="

/-- The lines for block counts, in ascending order of the blocks. -/
def lines (counts : List BlockCount) : List String :=
  "BLOCK_SUMMARY_FORMATTED:START" ::
    ((counts.mergeSort fun a b => a.block ≤ b.block).map line ++
      ["BLOCK_SUMMARY_FORMATTED:END"])

end BlockCount

def BlockResult.summaries (blocks : List BlockResult) : List String :=
  BlockCount.lines (blocks.map BlockResult.count)

end AssertionReplay
