import Mathlib
import MatScript.Ty

/-! A type can be read off its text. The base type stands before the first bracket, and the commas
between the brackets divide the dimensions, whose own texts have neither commas nor brackets. -/
namespace MatScript

/-! ## Texts of numbers -/

namespace Text

lemma isDigit_of_mem_toString {n : Nat} {c : Char} (h : c ∈ (toString n).toList) :
    c.isDigit = true := by
  have hmem : c ∈ Nat.toDigits 10 n := by simpa [toString, Nat.repr] using h
  exact Nat.isDigit_of_mem_toDigits (by decide) (by decide) hmem

lemma mem_toString_int {n : Int} {c : Char} (h : c ∈ (toString n).toList) :
    c = '-' ∨ c.isDigit = true := by
  cases n with
  | ofNat n => exact .inr (isDigit_of_mem_toString h)
  | negSucc n =>
    have hneg : toString (Int.negSucc n) = "-" ++ toString (n + 1) := rfl
    rw [hneg, String.toList_append, List.mem_append] at h
    exact h.imp List.mem_singleton.1 isDigit_of_mem_toString

end Text

/-- A text is cut at the first place of a character, if the second part starts with it or is
empty. -/
lemma append_eq_append_of_not_mem {α : Type} {c : α} {xs xs' ys ys' : List α} (hx : c ∉ xs)
    (hx' : c ∉ xs') (hy : ∀ y ∈ ys.head?, y = c) (hy' : ∀ y ∈ ys'.head?, y = c)
    (h : xs ++ ys = xs' ++ ys') : xs = xs' ∧ ys = ys' := by
  induction xs generalizing xs' with
  | nil =>
    cases xs' with
    | nil => exact ⟨rfl, h⟩
    | cons x' xs' =>
      have hhead : ys.head? = some x' := by rw [← List.nil_append ys, h]; rfl
      exact absurd (hy x' hhead ▸ List.mem_cons_self) hx'
  | cons x xs ih =>
    cases xs' with
    | nil =>
      have hhead : ys'.head? = some x := by rw [← List.nil_append ys', ← h]; rfl
      exact absurd (hy' x hhead ▸ List.mem_cons_self) hx
    | cons x' xs' =>
      obtain ⟨rfl, hrest⟩ := List.cons.inj h
      obtain ⟨rfl, rfl⟩ := ih (List.not_mem_of_not_mem_cons hx) (List.not_mem_of_not_mem_cons hx') hrest
      exact ⟨rfl, rfl⟩

namespace Ty

/-! ## The parts of the text -/

/-- What stands before the dimensions. -/
def baseText : Option BaseType → String
  | some b => b.display
  | .none => "None"

/-- What stands after the base type. -/
def shapeText : List (Option Int) → List Char
  | [] => []
  | dims => '[' :: ([','].intercalate (dims.map fun d => (displayDim d).toList) ++ [']'])

lemma toList_display (t : Ty) : t.display.toList = (baseText t.base).toList ++ shapeText t.shape := by
  obtain ⟨base, shape⟩ := t
  cases shape with
  | nil => cases base <;> simp [display, isScalar, baseText, shapeText]
  | cons d dims =>
    cases base <;>
      simp [display, isScalar, baseText, shapeText, String.toList_intercalate, Function.comp_def]

lemma baseText_injective : Function.Injective baseText := by
  have hnone : ∀ b : BaseType, b.display ≠ "None" := by
    intro b
    cases b <;> decide
  intro a b h
  rcases a with _ | a <;> rcases b with _ | b
  · rfl
  · exact absurd h.symm (hnone b)
  · exact absurd h (hnone a)
  · cases a <;> cases b <;> revert h <;> decide

lemma bracket_not_mem_baseText (b : Option BaseType) : '[' ∉ (baseText b).toList := by
  rcases b with _ | b
  · decide
  · cases b <;> decide

lemma head?_shapeText (dims : List (Option Int)) : ∀ c ∈ (shapeText dims).head?, c = '[' := by
  cases dims with
  | nil => simp [shapeText]
  | cons d dims => simp [shapeText]

/-! ## Dimensions -/

lemma comma_not_mem_displayDim (d : Option Int) : ',' ∉ (displayDim d).toList := by
  cases d with
  | none => decide
  | some n =>
    intro h
    rcases Text.mem_toString_int h with h | h
    · exact absurd h (by decide)
    · exact absurd h (by decide)

lemma displayDim_injective : Function.Injective displayDim := by
  have hstar : ∀ n : Int, displayDim (some n) ≠ "*" := by
    intro n h
    have hmem : '*' ∈ (toString n).toList := by rw [show toString n = "*" from h]; decide
    rcases Text.mem_toString_int hmem with h | h
    · exact absurd h (by decide)
    · exact absurd h (by decide)
  intro d e h
  rcases d with _ | m <;> rcases e with _ | n
  · rfl
  · exact absurd h.symm (hstar n)
  · exact absurd h (hstar m)
  · exact congrArg some (Int.repr_injective h)

/-- The texts between the commas are those of the dimensions. -/
lemma splitOn_dims {dims : List (Option Int)} (h : dims ≠ []) :
    ([','].intercalate (dims.map fun d => (displayDim d).toList)).splitOn ',' =
      dims.map fun d => (displayDim d).toList := by
  refine List.splitOn_intercalate ',' ?_ (by simpa using h)
  intro l hl
  obtain ⟨d, -, rfl⟩ := List.mem_map.1 hl
  exact comma_not_mem_displayDim d

lemma shapeText_injective : Function.Injective shapeText := by
  intro dims dims' h
  rcases dims with _ | ⟨d, dims⟩ <;> rcases dims' with _ | ⟨d', dims'⟩
  · rfl
  · cases h
  · cases h
  · have hjoined := List.append_cancel_right (List.cons.inj h).2
    have hsplit := congrArg (List.splitOn ',') hjoined
    rw [splitOn_dims (List.cons_ne_nil _ _), splitOn_dims (List.cons_ne_nil _ _)] at hsplit
    refine List.map_injective_iff.2 ?_ hsplit
    exact fun _ _ he => displayDim_injective (String.toList_inj.1 he)

/-- Types have one text only if they are one type, whatever their base types, ranks and
dimensions. -/
theorem display_injective : Function.Injective Ty.display := by
  intro t u h
  have htexts : (baseText t.base).toList ++ shapeText t.shape =
      (baseText u.base).toList ++ shapeText u.shape := by
    rw [← toList_display, ← toList_display, h]
  obtain ⟨hbase, hshape⟩ := append_eq_append_of_not_mem (bracket_not_mem_baseText _)
    (bracket_not_mem_baseText _) (head?_shapeText _) (head?_shapeText _) htexts
  have hb : t.base = u.base := baseText_injective (String.toList_inj.1 hbase)
  have hs : t.shape = u.shape := shapeText_injective hshape
  obtain ⟨base, shape⟩ := t
  cases hb
  cases hs
  rfl

end Ty

end MatScript
