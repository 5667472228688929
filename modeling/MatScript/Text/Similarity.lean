/-! How alike two words are: the length of their longest common part, of the longest one in what is
left on either side of it, and so on. -/
namespace MatScript.Text

/-- How long two words agree from their start. -/
def agreement : List Char → List Char → Nat
  | c :: cs, d :: ds => if c = d then agreement cs ds + 1 else 0
  | _, _ => 0

/-- The longest common part of two words, by its two positions and its length. Of several, the
first one counts. -/
def longestCommon (a b : List Char) : Nat × Nat × Nat :=
  let candidates := (List.range a.length).flatMap fun i : Nat =>
    (List.range b.length).map fun j : Nat => (i, j, agreement (a.drop i) (b.drop j))
  candidates.foldl (fun best c => if best.2.2 < c.2.2 then c else best) (0, 0, 0)

/-- How many characters of two words are matched, in at most `depth` steps. -/
def matched : (depth : Nat) → List Char → List Char → Nat
  | 0, _, _ => 0
  | depth + 1, a, b =>
    let (i, j, n) := longestCommon a b
    if n = 0 then 0
    else matched depth (a.take i) (b.take j) + n + matched depth (a.drop (i + n)) (b.drop (j + n))

/-- Two words are similar if at least three fifths of their characters are matched. -/
def isSimilar (a b : String) : Bool :=
  3 * (a.length + b.length) ≤ 10 * matched a.length a.toList b.toList

end MatScript.Text
