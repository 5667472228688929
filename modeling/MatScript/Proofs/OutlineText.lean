import Mathlib
import MatScript.Script.Outline
import MatScript.Script.Parse

/-! Outlines as texts. A script is drawn with one line for each of its entries, in pre-order, and
the margin of a line says where in the tree its entry stands. So the outline can be read back. -/
namespace MatScript

/-! ## Replacing what does not occur -/

namespace Text

open String.Slice.Pattern

lemma copy_slice_append_sliceFrom {s : String.Slice} {p q : s.Pos} (h : p ≤ q) :
    (s.slice! p q).copy ++ (s.sliceFrom q).copy = (s.sliceFrom p).copy := by
  have hslice : s.slice! p q = s.slice p q h := dif_pos h
  have hparts := @String.Slice.copy_eq_copy_slice s p q h
  rw [(String.Slice.Pos.splits p).eq_append, String.append_assoc, String.append_right_inj] at hparts
  rw [hslice, hparts]

/-- A search that nowhere finds its pattern gives the text back piece by piece. -/
lemma foldl_eq_of_no_match {s : String.Slice} {pattern : String} [Model.PatternModel pattern]
    {f : String → SearchStep s → String}
    (hf : ∀ sofar p q, f sofar (.rejected p q) = sofar ++ (s.slice! p q).copy)
    (hno : ¬∃ p : s.Pos, Model.MatchesAt pattern p) {p : s.Pos} {steps : List (SearchStep s)}
    (h : Model.IsValidSearchFrom pattern p steps) (sofar : String) :
    steps.foldl f sofar = sofar ++ (s.sliceFrom p).copy := by
  induction h generalizing sofar with
  | endPos => simp
  | matched hmatch _ _ => exact absurd ⟨_, hmatch.matchesAt⟩ hno
  | mismatched hlt _ _ ih =>
    rw [List.foldl_cons, ih, hf, String.append_assoc,
      copy_slice_append_sliceFrom (Std.le_of_lt hlt)]

lemma replace_eq_self {s pattern : String} (hne : pattern ≠ "")
    (h : ¬pattern.toList <:+: s.toList) (new : String) : s.replace pattern new = s := by
  let _ := Model.ForwardStringSearcher.strictPatternModel hne
  have _ := Model.ForwardStringSearcher.lawfulToForwardSearcherModel hne
  have hno : ¬∃ p : s.toSlice.Pos, Model.MatchesAt pattern p := by
    rw [Model.ForwardStringSearcher.exists_matchesAt_iff_eq_append]
    rintro ⟨before, after, hs⟩
    refine h ⟨before.toList, after.toList, ?_⟩
    rw [← String.toList_append, ← String.toList_append, ← hs, String.copy_toSlice]
  have hvalid : Model.IsValidSearchFrom pattern s.toSlice.startPos
      (ToForwardSearcher.toSearcher pattern s.toSlice).toList :=
    Model.LawfulToForwardSearcherModel.isValidSearchFrom_toList s.toSlice
  rw [String.replace, String.Slice.replace, ← Std.Iter.foldl_toList,
    foldl_eq_of_no_match (fun _ _ _ => rfl) hno hvalid ""]
  simp

/-- Lines that are each ended by a newline, as joined lines with an empty one at the end. -/
lemma intercalate_newline (lines : List String) :
    "\n".intercalate (lines ++ [""]) = String.join (lines.map (· ++ "\n")) := by
  induction lines with
  | nil => simp
  | cons line lines ih =>
    rw [List.map_cons, String.join_cons, ← ih]
    cases lines <;> simp [String.intercalate_cons_cons]

lemma splitOn_join_newline {lines : List String} (h : ∀ line ∈ lines, '\n' ∉ line.toList) :
    (String.join (lines.map (· ++ "\n"))).toList.splitOn '\n' =
      lines.map String.toList ++ [[]] := by
  have hlines : ∀ cs ∈ lines.map String.toList ++ [[]], '\n' ∉ cs :=
    List.forall_mem_append.2 ⟨List.forall_mem_map.2 h, by simp⟩
  rw [← intercalate_newline, String.toList_intercalate, List.map_append]
  exact List.splitOn_intercalate '\n' hlines (by simp)

end Text

/-! ## Places in a tree -/

section

variable {α β : Type*} {children : α → List α} {children' : β → List β}

/-- The node at a place: from `x` down, the numbers of the children that are taken. -/
def descend (children : α → List α) : List Nat → α → Option α
  | [], x => some x
  | i :: place, x => (children x)[i]?.bind (descend children place)

/-- For each node on the way down from `x` to a place, whether it is the last child. -/
def corners (children : α → List α) : List Nat → α → List Bool
  | [], _ => []
  | i :: place, x =>
    (i + 1 == (children x).length) :: (children x)[i]?.elim [] (corners children place)

lemma descend_cons_eq_some {i : Nat} {place : List Nat} {x y : α} :
    descend children (i :: place) x = some y ↔
      ∃ c, (children x)[i]? = some c ∧ descend children place c = some y :=
  Option.bind_eq_some_iff

lemma corners_cons {i : Nat} {x c : α} (hc : (children x)[i]? = some c) (place : List Nat) :
    corners children (i :: place) x =
      (i + 1 == (children x).length) :: corners children place c := by
  rw [corners, hc, Option.elim_some]

lemma length_corners {place : List Nat} {x y : α} (h : descend children place x = some y) :
    (corners children place x).length = place.length := by
  induction place generalizing x with
  | nil => rfl
  | cons i place ih =>
    obtain ⟨c, hc, h⟩ := descend_cons_eq_some.1 h
    rw [corners_cons hc, List.length_cons, List.length_cons, ih h]

variable {f : α → β} (hf : ∀ x, children' (f x) = (children x).map f)
include hf

lemma descend_map (place : List Nat) (x : α) :
    descend children' place (f x) = (descend children place x).map f := by
  induction place generalizing x with
  | nil => rfl
  | cons i place ih =>
    rw [descend, descend, hf, List.getElem?_map]
    cases (children x)[i]? with
    | none => rfl
    | some c => exact ih c

lemma corners_map (place : List Nat) (x : α) :
    corners children' place (f x) = corners children place x := by
  induction place generalizing x with
  | nil => rfl
  | cons i place ih =>
    rw [corners, corners, hf, List.length_map, List.getElem?_map]
    cases (children x)[i]? with
    | none => rfl
    | some c => exact congrArg _ (ih c)

end

/-! ## The rows of an outline -/

namespace Outline

mutual

/-- Every node has a label, of one line. -/
def OneLined : Outline → Prop
  | node label children => '\n' ∉ label.toList ∧ OneLinedAll children
  | gap _ => False

def OneLinedAll : List Outline → Prop
  | [] => True
  | o :: os => o.OneLined ∧ OneLinedAll os

end

/-- What a margin shows at the level of an ancestor, and at the level of the node itself. -/
def trunk (last : Bool) : String := if last then "    " else "│   "

def branch (last : Bool) : String := if last then "└── " else "├── "

/-- The margin of a node, from whether each node on the way to it is the last child. -/
def margin (path : List Bool) : String :=
  String.join (path.dropLast.map trunk) ++ path.getLast?.elim "" branch

/-- A node as it is drawn: where it stands, how its margin is drawn, and its label. -/
structure Row where
  place : List Nat
  path : List Bool
  label : String

def Row.line (r : Row) : String := margin r.path ++ r.label

mutual

/-- The rows of a tree in pre-order. -/
def rows (place : List Nat) (path : List Bool) : Outline → List Row
  | node label children => ⟨place, path, label⟩ :: rowsAll place path 0 children
  | gap _ => []

/-- The rows of the children from the `i`th on. -/
def rowsAll (place : List Nat) (path : List Bool) (i : Nat) : List Outline → List Row
  | [] => []
  | o :: os => o.rows (place ++ [i]) (path ++ [os.isEmpty]) ++ rowsAll place path (i + 1) os

end

lemma margin_concat (path : List Bool) (last : Bool) :
    margin (path ++ [last]) = String.join (path.map trunk) ++ branch last := by
  simp [margin]

lemma join_trunk_concat (path : List Bool) (last : Bool) :
    String.join ((path ++ [last]).map trunk) = String.join (path.map trunk) ++ trunk last := by
  simp

lemma length_margin (path : List Bool) : (margin path).length = 4 * path.length := by
  have htrunk : ∀ last, (trunk last).length = 4 := by decide
  have hbranch : ∀ last, (branch last).length = 4 := by decide
  induction path using List.reverseRecOn with
  | nil => rfl
  | append_singleton path last _ =>
    have hsum : (path.map (String.length ∘ trunk)).sum = path.length * 4 := by
      simp [Function.comp_def, htrunk]
    rw [margin_concat, String.length_append, String.length_join, List.map_map, hbranch, hsum,
      List.length_append, List.length_singleton]
    omega

lemma newline_notMem_margin (path : List Bool) : '\n' ∉ (margin path).toList := by
  have htrunk : ∀ last, '\n' ∉ (trunk last).toList := by decide
  have hbranch : ∀ last, '\n' ∉ (branch last).toList := by decide
  induction path using List.reverseRecOn with
  | nil => decide
  | append_singleton path last _ =>
    rw [margin_concat, String.toList_append, List.mem_append, String.toList_join, List.mem_flatMap]
    rintro (⟨_, hmem, h⟩ | h)
    · obtain ⟨ancestor, -, rfl⟩ := List.mem_map.1 hmem
      exact htrunk ancestor h
    · exact hbranch last h

lemma linesAll_cons (margin : String) (o : Outline) (os : List Outline) :
    linesAll margin (o :: os) = do
      let label ← o.label
      let below ← o.lines (margin ++ trunk os.isEmpty)
      let others ← linesAll margin os
      return (margin ++ branch os.isEmpty ++ hang (margin ++ trunk os.isEmpty) label) ::
        below ++ others := by
  rw [linesAll]
  cases os <;> rfl

lemma hang_eq_self {label : String} (h : '\n' ∉ label.toList) (margin : String) :
    hang margin label = label :=
  Text.replace_eq_self (by decide) (fun hbreak => h (hbreak.subset (by decide))) _

mutual

lemma lines_eq_map_rows : ∀ o : Outline, o.OneLined → ∀ (place : List Nat) (path : List Bool),
    o.lines (String.join (path.map trunk)) = .ok ((o.rows place path).tail.map Row.line)
  | node _ children, h, place, path => linesAll_eq_map_rowsAll children h.2 place path 0
  | gap _, h, _, _ => h.elim

/-- The lines below a node are those of its children's rows. -/
lemma linesAll_eq_map_rowsAll : ∀ os : List Outline, OneLinedAll os →
    ∀ (place : List Nat) (path : List Bool) (i : Nat),
      linesAll (String.join (path.map trunk)) os = .ok ((rowsAll place path i os).map Row.line)
  | [], _, _, _, _ => rfl
  | gap _ :: _, h, _, _, _ => h.1.elim
  | node label children :: os, h, place, path, i => by
    have hbelow := lines_eq_map_rows (node label children) h.1 (place ++ [i]) (path ++ [os.isEmpty])
    have hothers := linesAll_eq_map_rowsAll os h.2 place path (i + 1)
    rw [join_trunk_concat] at hbelow
    rw [linesAll_cons, hbelow, hothers]
    simp [Outline.label, rows, rowsAll, Row.line, margin_concat, hang_eq_self h.1.1,
      bind, Except.bind, pure, Except.pure]

end

/-- An outline of one-line labels is drawn row by row. -/
lemma render_eq_join_rows {o : Outline} (h : o.OneLined) :
    o.render = .ok (String.join ((o.rows [] []).map (·.line ++ "\n"))) := by
  cases o with
  | gap _ => exact h.elim
  | node label children =>
    have hlines : (node label children).lines "" = _ := lines_eq_map_rows _ h [] []
    have hroot : Row.line ⟨[], [], label⟩ = label := String.empty_append
    have hall : label :: ((node label children).rows [] []).tail.map Row.line =
        ((node label children).rows [] []).map Row.line := by
      rw [rows, List.tail_cons, List.map_cons, hroot]
    rw [render, hlines]
    change Except.ok ("\n".intercalate (label :: (_ ++ [""]))) = _
    rw [← List.cons_append, hall, Text.intercalate_newline, List.map_map]
    rfl

/-! ## Places of the rows -/

lemma mem_rowsAll {r : Row} {place : List Nat} {path : List Bool} {i : Nat} {os : List Outline} :
    r ∈ rowsAll place path i os ↔ ∃ (j : Nat) (c : Outline), os[j]? = some c ∧
      r ∈ c.rows (place ++ [i + j]) (path ++ [j + 1 == os.length]) := by
  induction os generalizing i with
  | nil => simp [rowsAll]
  | cons o os ih =>
    have hlast : os.isEmpty = (0 + 1 == (o :: os).length) := by cases os <;> rfl
    rw [rowsAll, List.mem_append, ih, hlast]
    constructor
    · rintro (h | ⟨j, c, hc, h⟩)
      · exact ⟨0, o, rfl, h⟩
      · refine ⟨j + 1, c, hc, ?_⟩
        simpa [Nat.add_assoc, Nat.add_comm 1] using h
    · rintro ⟨_ | j, c, hc, h⟩
      · cases hc
        exact .inl h
      · refine .inr ⟨j, c, hc, ?_⟩
        simpa [Nat.add_assoc, Nat.add_comm 1] using h

/-- A row is that of the node at its place. -/
lemma descend_of_mem_rows {r : Row} : ∀ (o : Outline) {place : List Nat} {path : List Bool},
    r ∈ o.rows place path → ∃ a y, descend children a o = some y ∧ y.label = .ok r.label ∧
      r.place = place ++ a ∧ r.path = path ++ corners children a o
  | node label cs, place, path, h => by
    rcases List.mem_cons.1 h with rfl | h
    · exact ⟨[], _, rfl, rfl, (List.append_nil _).symm, (List.append_nil _).symm⟩
    · obtain ⟨j, c, hc, h⟩ := mem_rowsAll.1 h
      -- the recursion ends because the child is one of `cs`
      have hmem := List.mem_of_getElem? hc
      obtain ⟨a, y, hy, hlabel, hplace, hpath⟩ := descend_of_mem_rows c h
      refine ⟨j :: a, y, descend_cons_eq_some.2 ⟨c, hc, hy⟩, hlabel, ?_, ?_⟩
      · simpa using hplace
      · rw [hpath, corners_cons hc, List.append_assoc]
        rfl
  | gap _, _, _, h => absurd h List.not_mem_nil
termination_by o => o

/-- Every node with a label has a row. -/
lemma mem_rows_of_descend {a : List Nat} {o y : Outline} {label : String} (place : List Nat)
    (path : List Bool) (h : descend children a o = some y) (hlabel : y.label = .ok label) :
    ⟨place ++ a, path ++ corners children a o, label⟩ ∈ o.rows place path := by
  induction a generalizing o place path with
  | nil =>
    cases h
    cases y with
    | gap _ => cases hlabel
    | node _ cs =>
      cases hlabel
      simp [rows, corners]
  | cons i a ih =>
    obtain ⟨c, hc, hy⟩ := descend_cons_eq_some.1 h
    cases o with
    | gap _ => cases hc
    | node _ cs =>
      refine List.mem_cons_of_mem _ (mem_rowsAll.2 ⟨i, c, hc, ?_⟩)
      have hrow := ih (place ++ [0 + i]) (path ++ [i + 1 == cs.length]) hy
      rw [List.append_assoc, List.append_assoc, Nat.zero_add] at hrow
      rw [corners_cons hc, Nat.zero_add]
      exact hrow

mutual

lemma pairwise_rows (place : List Nat) (path : List Bool) :
    ∀ o : Outline, (o.rows place path).Pairwise (·.place < ·.place)
  | gap _ => .nil
  | node label cs => by
    refine .cons (fun r hr => ?_) (pairwise_rowsAll place path 0 cs)
    obtain ⟨j, c, -, hr⟩ := mem_rowsAll.1 hr
    obtain ⟨a, -, -, -, hplace, -⟩ := descend_of_mem_rows _ hr
    have hlt : place ++ [] < place ++ (0 + j) :: a := List.append_left_lt (List.nil_lt_cons _ _)
    rwa [List.append_nil, ← List.singleton_append, ← List.append_assoc, ← hplace] at hlt

lemma pairwise_rowsAll (place : List Nat) (path : List Bool) (i : Nat) :
    ∀ os : List Outline, (rowsAll place path i os).Pairwise (·.place < ·.place)
  | [] => .nil
  | o :: os => by
    refine List.pairwise_append.2 ⟨pairwise_rows _ _ o, pairwise_rowsAll place path (i + 1) os, ?_⟩
    intro r hr r' hr'
    obtain ⟨j, c, -, hr'⟩ := mem_rowsAll.1 hr'
    obtain ⟨a, -, -, -, hplace, -⟩ := descend_of_mem_rows _ hr
    obtain ⟨a', -, -, -, hplace', -⟩ := descend_of_mem_rows _ hr'
    rw [hplace, hplace', List.append_assoc, List.append_assoc]
    exact List.append_left_lt (List.cons_lt_cons_iff.2 (.inl (by omega)))

end

lemma OneLinedAll.of_mem {os : List Outline} (h : OneLinedAll os) {o : Outline} (ho : o ∈ os) :
    o.OneLined := by
  induction os with
  | nil => cases ho
  | cons _ os ih =>
    rcases List.mem_cons.1 ho with rfl | ho
    · exact h.1
    · exact ih h.2 ho

lemma OneLined.of_descend {a : List Nat} {o y : Outline} (h : o.OneLined)
    (hy : descend children a o = some y) : y.OneLined := by
  induction a generalizing o with
  | nil =>
    cases hy
    exact h
  | cons i a ih =>
    obtain ⟨c, hc, hbelow⟩ := descend_cons_eq_some.1 hy
    cases o with
    | gap _ => exact h.elim
    | node _ _ => exact ih (OneLinedAll.of_mem h.2 (List.mem_of_getElem? hc)) hbelow

lemma newline_notMem_line {o : Outline} (h : o.OneLined) {r : Row} {place : List Nat}
    {path : List Bool} (hr : r ∈ o.rows place path) : '\n' ∉ r.line.toList := by
  obtain ⟨a, y, hy, hlabel, -, -⟩ := descend_of_mem_rows o hr
  have hone := h.of_descend hy
  cases y with
  | gap _ => exact hone.elim
  | node _ _ =>
    cases hlabel
    rw [Row.line, String.toList_append, List.mem_append, not_or]
    exact ⟨newline_notMem_margin r.path, hone.1⟩

/-! ## Reading an outline -/

/-- What a margin tells, and the label after it. -/
def readMargin : List Char → Option (List Bool × List Char)
  | ' ' :: ' ' :: ' ' :: ' ' :: cs => (readMargin cs).map (Prod.map (true :: ·) id)
  | '│' :: ' ' :: ' ' :: ' ' :: cs => (readMargin cs).map (Prod.map (false :: ·) id)
  | '└' :: '─' :: '─' :: ' ' :: cs => some ([true], cs)
  | '├' :: '─' :: '─' :: ' ' :: cs => some ([false], cs)
  | _ => none

/-- Siblings are set before those that stand at their depth. What stands deeper is below none of
them and is dropped. -/
def putAt (depth : Nat) (os : List Outline) (forest : Nat → List Outline) : Nat → List Outline :=
  fun d => if d < depth then forest d else if d = depth then os ++ forest d else []

/-- A node takes what follows it one level deeper for its children. -/
def graft (row : List Bool × List Char) (forest : Nat → List Outline) : Nat → List Outline :=
  putAt row.1.length [node (String.ofList row.2) (forest (row.1.length + 1))] forest

/-- The outline with these lines, the first of which is the root and the last empty. -/
def ofLines : List (List Char) → Option Outline
  | [] => none
  | root :: lines => (lines.dropLast.mapM readMargin).map fun rows =>
    node (String.ofList root) (rows.foldr graft (fun _ => []) 1)

/-- The outline that a text shows. -/
def ofText (text : String) : Option Outline := ofLines (text.toList.splitOn '\n')

lemma readMargin_trunk (last : Bool) (cs : List Char) :
    readMargin ((trunk last).toList ++ cs) = (readMargin cs).map (Prod.map (last :: ·) id) := by
  cases last <;> simp [trunk, readMargin]

lemma readMargin_branch (last : Bool) (cs : List Char) :
    readMargin ((branch last).toList ++ cs) = some ([last], cs) := by
  cases last <;> simp [branch, readMargin]

lemma readMargin_line {r : Row} (h : r.path ≠ []) :
    readMargin r.line.toList = some (r.path, r.label.toList) := by
  obtain ⟨place, path, label⟩ := r
  obtain ⟨above, last, rfl⟩ := List.eq_nil_or_concat' path |>.resolve_left h
  rw [Row.line, margin_concat]
  induction above with
  | nil => simpa using readMargin_branch last label.toList
  | cons ancestor above ih =>
    rw [List.map_cons, String.join_cons, String.append_assoc, String.append_assoc,
      String.toList_append, readMargin_trunk, ← String.append_assoc, ih (by simp)]
    rfl

variable {forest : Nat → List Outline} {depth : Nat}

lemma putAt_of_lt {os : List Outline} {d : Nat} (h : depth < d) : putAt depth os forest d = [] := by
  rw [putAt, if_neg (by omega), if_neg (by omega)]

lemma putAt_nil (h : ∀ d, depth < d → forest d = []) : putAt depth [] forest = forest := by
  funext d
  unfold putAt
  split_ifs with hlt heq
  · rfl
  · rfl
  · exact (h d (by omega)).symm

lemma putAt_putAt (os os' : List Outline) :
    putAt depth os (putAt depth os' forest) = putAt depth (os ++ os') forest := by
  funext d
  unfold putAt
  split_ifs <;> simp

lemma putAt_putAt_succ (os os' : List Outline) :
    putAt depth os (putAt (depth + 1) os' forest) = putAt depth os forest := by
  funext d
  unfold putAt
  split_ifs <;> first | rfl | omega

def Row.key (r : Row) : List Bool × List Char := (r.path, r.label.toList)

mutual

/-- The rows of a tree give it back, whatever stands to the right of it. -/
lemma foldr_graft_rows : ∀ o : Outline, o.OneLined → ∀ (place : List Nat) (path : List Bool)
    (forest : Nat → List Outline), (∀ d, path.length < d → forest d = []) →
      ((o.rows place path).map Row.key).foldr graft forest = putAt path.length [o] forest
  | gap _, h, _, _, _, _ => h.elim
  | node label children, h, place, path, forest, hforest => by
    have hbelow := foldr_graft_rowsAll children h.2 place path 0 forest
      fun d hd => hforest d (by omega)
    -- nothing to the right stands at the children's depth, so the node takes them alone
    have hchildren : putAt (path.length + 1) children forest (path.length + 1) = children := by
      simp [putAt, hforest]
    rw [rows, List.map_cons, List.foldr_cons, hbelow, graft, Row.key, hchildren, putAt_putAt_succ,
      String.ofList_toList]

lemma foldr_graft_rowsAll : ∀ os : List Outline, OneLinedAll os → ∀ (place : List Nat)
    (path : List Bool) (i : Nat) (forest : Nat → List Outline),
      (∀ d, path.length + 1 < d → forest d = []) →
      ((rowsAll place path i os).map Row.key).foldr graft forest =
        putAt (path.length + 1) os forest
  | [], _, _, _, _, _, hforest => (putAt_nil hforest).symm
  | o :: os, h, place, path, i, forest, hforest => by
    have hothers := foldr_graft_rowsAll os h.2 place path (i + 1) forest hforest
    have hrow := foldr_graft_rows o h.1 (place ++ [i]) (path ++ [os.isEmpty])
      (putAt (path.length + 1) os forest)
    rw [List.length_append, List.length_singleton] at hrow
    rw [rowsAll, List.map_append, List.foldr_append, hothers, hrow fun d hd => putAt_of_lt hd,
      putAt_putAt, List.singleton_append]

end

lemma path_ne_nil_of_mem_rowsAll {r : Row} {place : List Nat} {path : List Bool} {i : Nat}
    {os : List Outline} (h : r ∈ rowsAll place path i os) : r.path ≠ [] := by
  obtain ⟨j, c, -, h⟩ := mem_rowsAll.1 h
  obtain ⟨a, -, -, -, -, hpath⟩ := descend_of_mem_rows c h
  simp [hpath]

lemma mapM_readMargin {rs : List Row} (h : ∀ r ∈ rs, r.path ≠ []) :
    (rs.map (·.line.toList)).mapM readMargin = some (rs.map Row.key) := by
  induction rs with
  | nil => rfl
  | cons r rs ih =>
    rw [List.forall_mem_cons] at h
    rw [List.map_cons, List.mapM_cons, readMargin_line h.1, ih h.2]
    rfl

/-- The text of an outline can be read. -/
lemma ofText_join_rows {o : Outline} (h : o.OneLined) :
    ofText (String.join ((o.rows [] []).map (·.line ++ "\n"))) = some o := by
  have hlines : ∀ line ∈ (o.rows [] []).map Row.line, '\n' ∉ line.toList :=
    List.forall_mem_map.2 fun r hr => newline_notMem_line h hr
  have hsplit := Text.splitOn_join_newline hlines
  rw [List.map_map, List.map_map] at hsplit
  rw [ofText]
  refine (congrArg ofLines hsplit).trans ?_
  cases o with
  | gap _ => exact h.elim
  | node label children =>
    have hforest : ((rowsAll [] [] 0 children).map Row.key).foldr graft (fun _ => []) =
        putAt 1 children fun _ => [] :=
      foldr_graft_rowsAll children h.2 [] [] 0 _ fun _ _ => rfl
    have hread := mapM_readMargin fun r (hr : r ∈ rowsAll [] [] 0 children) =>
      path_ne_nil_of_mem_rowsAll hr
    have hroot : String.ofList (Row.line ⟨[], [], label⟩).toList = label := by
      simp [Row.line, margin]
    rw [rows, List.map_cons, List.cons_append, ofLines, List.dropLast_concat]
    change (List.mapM readMargin ((rowsAll [] [] 0 children).map (·.line.toList))).map _ = _
    rw [hread, Option.map_some, hforest]
    exact congrArg some (congrArg₂ node hroot (List.append_nil children))

end Outline

/-! ## What the outline of a script shows -/

/-- What stands in an outline as one node. The branches of an `if` and the indices of an element
have entries of their own. -/
inductive Entry where
  | stmt (s : Stmt)
  | expr (e : Expr)
  | branch (title : String) (body : Stmt)
  | selector (span : Span) (indices : List Expr)

def Expr.title : Expr → Except Gap String
  | .constant _ value => .ok value.display
  | .vector _ _ => .ok "VECTOR"
  | .range _ _ _ => .ok "RANGE"
  | .operator _ symbol _ => .ok symbol
  | .call _ function _ => .ok function
  | .name _ id | .element _ id _ _ _ => .ok id
  | .gap _ what => .error what

def Expr.entries : Expr → List Entry
  | .constant _ _ | .name _ _ | .gap _ _ => []
  | .vector _ parts | .operator _ _ parts | .call _ _ parts => parts.map .expr
  | .range _ start stop => [.expr start, .expr stop]
  | .element _ _ _ indices span => [.selector span indices]

def Stmt.title : Stmt → Except Gap String
  | .block _ _ => .ok "┐"
  | .assign _ _ _ => .ok "="
  | .update _ symbol _ _ => .ok symbol
  | .instruction _ name _ => .ok name
  | .whileLoop _ _ _ => .ok "WHILE"
  | .forLoop _ _ _ _ _ => .ok "FOR"
  | .ifThen _ _ _ | .ifElse _ _ _ _ => .ok "IF"
  | .expr e => e.title

def Stmt.entries : Stmt → List Entry
  | .block _ body => body.map .stmt
  | .assign _ target value | .update _ _ target value => [.expr target, .expr value]
  | .instruction _ _ arguments => arguments.map .expr
  | .whileLoop _ condition body => [.expr condition, .stmt body]
  | .forLoop _ id idSpan range body => [.expr (.name idSpan id), .expr range, .stmt body]
  | .ifThen _ condition yes => [.expr condition, .branch "THEN" yes]
  | .ifElse _ condition yes no => [.expr condition, .branch "THEN" yes, .branch "ELSE" no]
  | .expr e => e.entries

namespace Entry

def title : Entry → Except Gap String
  | stmt s => s.title
  | expr e => e.title
  | branch title _ => .ok title
  | selector _ _ => .ok "SELECTOR"

def span : Entry → Span
  | stmt s | branch _ s => s.span
  | expr e => e.span
  | selector span _ => span

def children : Entry → List Entry
  | stmt s => s.entries
  | expr e => e.entries
  | branch _ body => [stmt body]
  | selector _ indices => indices.map expr

def outline (style : SpanStyle) : Entry → Outline
  | stmt s => s.outline style
  | expr e => e.outline style
  | branch title body => .node (outlineLabel style title body.span) [body.outline style]
  | selector span indices =>
    .node (outlineLabel style "SELECTOR" span) (Expr.outlineAll style indices)

variable (style : SpanStyle)

lemma exprs_outlineAll (es : List Expr) :
    Expr.outlineAll style es = (es.map expr).map (outline style) := by
  induction es with
  | nil => rfl
  | cons e es ih => rw [Expr.outlineAll, ih, List.map_cons, List.map_cons, outline]

lemma stmts_outlineAll (ss : List Stmt) :
    Stmt.outlineAll style ss = (ss.map stmt).map (outline style) := by
  induction ss with
  | nil => rfl
  | cons s ss ih => rw [Stmt.outlineAll, ih, List.map_cons, List.map_cons, outline]

lemma label_outline_expr (e : Expr) :
    (e.outline style).label = e.title.map (outlineLabel style · e.span) := by
  cases e <;> rfl

lemma children_outline_expr (e : Expr) :
    (e.outline style).children = e.entries.map (outline style) := by
  cases e with
  | vector _ parts | operator _ _ parts | call _ _ parts => exact exprs_outlineAll style parts
  | _ => rfl

lemma label_outline (x : Entry) :
    (x.outline style).label = x.title.map (outlineLabel style · x.span) := by
  cases x with
  | stmt s =>
    cases s with
    | expr e => exact label_outline_expr style e
    | _ => rfl
  | expr e => exact label_outline_expr style e
  | branch _ _ | selector _ _ => rfl

/-- The outline of an entry has below it the outlines of the entry's children. -/
lemma children_outline (x : Entry) :
    (x.outline style).children = x.children.map (outline style) := by
  cases x with
  | stmt s =>
    cases s with
    | block _ body => exact stmts_outlineAll style body
    | instruction _ _ arguments => exact exprs_outlineAll style arguments
    | expr e => exact children_outline_expr style e
    | _ => rfl
  | expr e => exact children_outline_expr style e
  | branch _ _ => rfl
  | selector _ indices => exact exprs_outlineAll style indices

variable {style} {x y : Entry} {place : List Nat}

/-- Every entry has a row in the outline. -/
lemma exists_row (h : (x.outline style).OneLined) (hy : descend children place x = some y) :
    ∃ r ∈ (x.outline style).rows [] [], r.place = place := by
  have hplace : descend Outline.children place (x.outline style) = some (y.outline style) := by
    rw [descend_map (children_outline style), hy, Option.map_some]
  have hone := h.of_descend hplace
  cases hshown : y.outline style with
  | gap _ =>
    rw [hshown] at hone
    exact hone.elim
  | node label _ =>
    rw [hshown] at hplace
    exact ⟨_, Outline.mem_rows_of_descend [] [] hplace rfl, rfl⟩

/-- Every row shows an entry. -/
lemma of_mem_rows {r : Outline.Row} (hr : r ∈ (x.outline style).rows [] []) :
    ∃ y title, descend children r.place x = some y ∧ y.title = .ok title ∧
      r.label = outlineLabel style title y.span ∧ r.path = corners children r.place x := by
  obtain ⟨place, o, ho, hlabel, hplace, hpath⟩ := Outline.descend_of_mem_rows _ hr
  rw [List.nil_append] at hplace hpath
  subst hplace
  rw [descend_map (children_outline style)] at ho
  rw [corners_map (children_outline style)] at hpath
  obtain ⟨y, hy, rfl⟩ := Option.map_eq_some_iff.1 ho
  rw [label_outline] at hlabel
  cases htitle : y.title with
  | error _ =>
    rw [htitle] at hlabel
    cases hlabel
  | ok title =>
    rw [htitle] at hlabel
    exact ⟨y, title, hy, htitle, (Except.ok.inj hlabel).symm, hpath⟩

end Entry

lemma outlineLabel_plain (title : String) (span : Span) : outlineLabel .plain title span =
    title ++ "  [" ++ toString span.first ++ "-" ++ toString span.last ++ "]" := by
  have hgap : "  [" = " " ++ " [" := by decide
  rw [hgap]
  change title ++ " " ++
    ("" ++ (" [" ++ toString span.first ++ "-" ++ toString span.last ++ "]") ++ "") = _
  rw [String.empty_append, String.append_empty]
  simp only [String.append_assoc]

open Outline

/-- Both branches of an `if`, an element with two indices, and a text that looks like a margin. -/
def branchingText : String := "if (x[1, 2] > 0) \x7b print \"├── a\"; \x7d\nelse y = 0;"

def branchingScript : Stmt :=
  let at1 : Span := ⟨1, 1⟩
  let at2 : Span := ⟨2, 2⟩
  let int (n : Int) : Expr := .constant at1 (.int n)
  .block ⟨1, 2⟩ [.ifElse ⟨1, 2⟩
    (.operator at1 ">" [.element at1 "x" at1 [int 1, int 2] at1, int 0])
    (.block at1 [.instruction at1 "print" [.constant at1 (.text "├── a")]])
    (.assign at2 (.name at2 "y") (.constant at2 (.int 0)))]

def branchingOutline : String :=
  "┐  [1-2]\n" ++
  "└── IF  [1-2]\n" ++
  "    ├── >  [1-1]\n" ++
  "    │   ├── x  [1-1]\n" ++
  "    │   │   └── SELECTOR  [1-1]\n" ++
  "    │   │       ├── 1  [1-1]\n" ++
  "    │   │       └── 2  [1-1]\n" ++
  "    │   └── 0  [1-1]\n" ++
  "    ├── THEN  [1-1]\n" ++
  "    │   └── ┐  [1-1]\n" ++
  "    │       └── print  [1-1]\n" ++
  "    │           └── ├── a  [1-1]\n" ++
  "    └── ELSE  [2-2]\n" ++
  "        └── =  [2-2]\n" ++
  "            ├── y  [2-2]\n" ++
  "            └── 0  [2-2]\n"

end MatScript
