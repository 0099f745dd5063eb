/-!
How alike two words are, and the closest of several candidates. Likeness counts the characters in
common runs: the longest run first, then the longest ones on either side of it.
-/

namespace Stencil.Text

/-- A common run: where it starts in the first and the second text, and its length. -/
structure CommonRun where
  first : Nat
  second : Nat
  size : Nat

/-- One row of the table of common runs: the lengths of the runs that end at `a` and at each
character of the second text. `diagonal` is the entry before the first one of `above`. -/
def runRow (anchors : Char → Bool) (a : Char) : (diagonal : Nat) → (above : List Nat) →
    List Char → List Nat
  | _, _, [] => []
  | diagonal, above, b :: bs =>
      (if a = b ∧ anchors b then diagonal + 1 else 0) ::
        runRow anchors a (above.headD 0) above.tail bs

/-- Keeps the first of the longest runs. The entries end at row `i` and at column `j` on. -/
def longestInRow (best : CommonRun) (i : Nat) : (j : Nat) → List Nat → CommonRun
  | _, [] => best
  | j, k :: ks =>
      longestInRow (if best.size < k then ⟨i + 1 - k, j + 1 - k, k⟩ else best) i (j + 1) ks

def longestAnchored (anchors : Char → Bool) (second : List Char) :
    (best : CommonRun) → (i : Nat) → (above : List Nat) → List Char → CommonRun
  | best, _, _, [] => best
  | best, i, above, a :: as =>
      let row := runRow anchors a 0 above second
      longestAnchored anchors second (longestInRow best i 0 row) (i + 1) row as

def commonPrefix : List Char → List Char → Nat
  | a :: as, b :: bs => if a = b then commonPrefix as bs + 1 else 0
  | _, _ => 0

def longestRun (anchors : Char → Bool) (first second : List Char) : CommonRun :=
  let run := longestAnchored anchors second ⟨0, 0, 0⟩ 0 [] first
  let left := commonPrefix (first.take run.first).reverse (second.take run.second).reverse
  let right := commonPrefix (first.drop (run.first + run.size))
    (second.drop (run.second + run.size))
  ⟨run.first - left, run.second - left, left + run.size + right⟩

/-- The number of characters in common runs. Each round uses up a part of the first text. -/
def commonSize (anchors : Char → Bool) : (rounds : Nat) → List Char → List Char → Nat
  | 0, _, _ => 0
  | rounds + 1, first, second =>
      let run := longestRun anchors first second
      if run.size = 0 then 0
      else
        commonSize anchors rounds (first.take run.first) (second.take run.second) + run.size +
          commonSize anchors rounds (first.drop (run.first + run.size))
            (second.drop (run.second + run.size))

/-- In a long text the characters that make up more than a hundredth of it anchor no run. -/
def isAnchor (text : List Char) (c : Char) : Bool :=
  text.length < 200 || text.count c ≤ text.length / 100 + 1

def likeness (candidate word : List Char) : Nat × Nat :=
  let total := candidate.length + word.length
  if total = 0 then (1, 1)
  else
    (2 * commonSize (isAnchor word) (candidate.length + 1) candidate word, total)

/-- The candidate most like the word, at least three fifths alike; of equals the greater one. -/
def closest? (word : String) (candidates : List String) : Option String :=
  let scored := candidates.filterMap fun candidate =>
    let (common, total) := likeness candidate.toList word.toList
    if 3 * total ≤ 5 * common then some (candidate, common, total) else none
  let best := scored.foldl
    (fun best? next =>
      match best? with
      | none => some next
      | some best =>
          let (b, bc, bt) := best
          let (n, nc, nt) := next
          if bc * nt < nc * bt ∨ (bc * nt = nc * bt ∧ b < n) then some next else some best)
    none
  best.map (·.1)

end Stencil.Text
