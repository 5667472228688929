import MatScript.Proofs.FirstFault
import MatScript.Proofs.TypedExpressions

/-! Joined shapes. A dotted operator whose operands have no dimension known to be zero joins their
shapes, and does not tell the first from the second. Where two dimensions are merged, a first one
that is zero counts as unknown, so with such dimensions it would. -/
namespace MatScript

open Typing

/-- Every known dimension is at least one. -/
def Ty.Sized (t : Ty) : Prop := ∀ d ∈ t.shape, ∀ n ∈ d, 1 ≤ n

namespace Typing

/-! ## Joined shapes -/

/-- Two dimensions that are not known to differ. -/
abbrev AgreeDim (x y : Option Int) : Prop := ∀ i ∈ x, ∀ j ∈ y, i = j

/-- The shape `zs` joins `xs` and `ys`: it is of their rank, and a dimension is known exactly where
one of them knows it, and equal to what is known there. -/
structure IsJoin (xs ys zs : List (Option Int)) : Prop where
  left : zs.length = xs.length
  right : zs.length = ys.length
  known : ∀ (i : Nat) (n : Int),
    zs[i]? = some (some n) ↔ xs[i]? = some (some n) ∨ ys[i]? = some (some n)

namespace IsJoin

variable {xs ys zs zs' : List (Option Int)}

lemma comm (h : IsJoin xs ys zs) : IsJoin ys xs zs :=
  ⟨h.right, h.left, fun i n => (h.known i n).trans or_comm⟩

lemma unique (h : IsJoin xs ys zs) (h' : IsJoin xs ys zs') : zs = zs' := by
  refine List.ext_getElem (h.left.trans h'.left.symm) fun i hi hi' => Option.ext fun n => ?_
  have hknown := (h.known i n).trans (h'.known i n).symm
  simpa [hi, hi'] using hknown

/-- Where a join exists, no dimension is known to differ. -/
lemma agree (h : IsJoin xs ys zs) : List.Forall₂ AgreeDim xs ys := by
  refine List.forall₂_iff_get.2 ⟨h.left.symm.trans h.right, fun k hx hy i hi j hj => ?_⟩
  have hzi : zs[k]? = some (some i) := (h.known k i).2 (.inl (by simpa [hx] using hi))
  have hzj : zs[k]? = some (some j) := (h.known k j).2 (.inr (by simpa [hy] using hj))
  simpa [hzi] using hzj

end IsJoin

/-- Merging takes what is known. -/
lemma mergeDim_eq_some_iff {x y : Option Int} (h : AgreeDim x y) (hx : ∀ i ∈ x, 1 ≤ i)
    {n : Int} : mergeDim x y = some n ↔ x = some n ∨ y = some n := by
  cases x with
  | none => simp [mergeDim]
  | some m =>
    have hm : m ≠ 0 := by
      have := hx m rfl
      omega
    rw [mergeDim, if_neg hm]
    constructor
    · exact .inl
    · rintro (hn | hn)
      · exact hn
      · rw [h m rfl n hn]

lemma isJoin_zipWith {xs ys : List (Option Int)} (h : List.Forall₂ AgreeDim xs ys)
    (hx : ∀ d ∈ xs, ∀ n ∈ d, 1 ≤ n) : IsJoin xs ys (List.zipWith mergeDim xs ys) := by
  have hlen := h.length_eq
  refine ⟨by simp [hlen], by simp [hlen], ?_⟩
  induction h with
  | nil => simp
  | cons hd _ ih =>
    rw [List.forall_mem_cons] at hx
    intro i n
    cases i with
    | zero => simpa using mergeDim_eq_some_iff hd hx.1
    | succ i => simpa using ih hx.2 (Nat.succ.inj hlen) i n

/-! ## Dotted operators -/

section

variable {α : Type} {Q : α → Prop} {p : Policy} {span : Span} {symbol : String}
  {op : ScalarOperator} {a b t : Ty} {st : State}

/-- What a collecting check accepts, a raising one accepts, and the other way round. -/
lemma Mirrors.ok_iff {c r : Check α} (h : Mirrors Q c r) {x : α} :
    c st = .ok x st ↔ r st = .ok x st := by
  obtain ⟨table, old⟩ := st
  obtain ⟨y, table', new, -, hc, hr⟩ := h table old
  rw [hc]
  cases new with
  | nil =>
    rw [show r ⟨table, old⟩ = .ok y ⟨table', old⟩ from hr]
    simp
  | cons f rest =>
    obtain ⟨st', hst'⟩ := hr
    rw [hst']
    simp

/-- Whether a dotted operator is accepted does not hang on the policy. -/
lemma dottedType_ok_iff_raising :
    dottedType p span symbol op a b st = .ok t st ↔
      dottedType .raising span symbol op a b st = .ok t st := by
  have hmirrors (pick pick' : List Ty → Nat) : Mirrors (fun _ => True)
      (dottedType (.collectingBy pick) span symbol op a b)
      (dottedType (.raisingBy pick') span symbol op a b) := mirrors_dottedType span symbol op a b
  obtain ⟨collect, pick⟩ := p
  cases collect with
  | true => exact (hmirrors pick fun _ => 0).ok_iff
  | false => exact (hmirrors pick pick).ok_iff.symm.trans (hmirrors pick fun _ => 0).ok_iff

lemma matchDims_of_agree {i : Nat} {xs ys : List (Option Int)} (h : List.Forall₂ AgreeDim xs ys) :
    matchDims p span symbol i xs ys = pure () := by
  induction h generalizing i with
  | nil => rfl
  | @cons x y _ _ hd _ ih =>
    cases x with
    | none => exact ih
    | some m =>
      cases y with
      | none => exact ih
      | some n =>
        rw [matchDims, if_neg (not_not.2 (hd m rfl n rfl))]
        exact ih

/-- A dotted operator accepts two operands, with a type for its result, exactly if its table has
their base types and the shape of the result joins theirs. -/
lemma dottedType_ok_iff_isJoin (ha : a.Sized) :
    dottedType p span symbol op a b st = .ok t st ↔
      op.result? [⟨a.base, []⟩, ⟨b.base, []⟩] = some ⟨t.base, []⟩ ∧
        IsJoin a.shape b.shape t.shape := by
  constructor
  · intro h
    obtain ⟨-, A, B, R, hA, hB, hR, hagree, rfl⟩ :=
      dottedType_raising (dottedType_ok_iff_raising.1 h)
    refine ⟨?_, isJoin_zipWith hagree ha⟩
    rw [hA, hB, ScalarOperator.result?, hR]
    rfl
  · rintro ⟨hr, hjoin⟩
    have hlen : ¬a.shape.length ≠ b.shape.length := not_not.2 (hjoin.left.symm.trans hjoin.right)
    have hshape := hjoin.unique (isJoin_zipWith hjoin.agree ha)
    unfold dottedType
    rw [hr]
    dsimp only
    rw [if_neg hlen, matchDims_of_agree hjoin.agree, ← hshape]
    rfl

/-- A zero on the left is lost, one on the right is not. -/
example :
    dottedType .raising ⟨1, 1⟩ ".+" .add ⟨some .int, [some 0]⟩ ⟨some .int, [none]⟩ {} =
      .ok ⟨some .int, [none]⟩ {} ∧
    dottedType .raising ⟨1, 1⟩ ".+" .add ⟨some .int, [none]⟩ ⟨some .int, [some 0]⟩ {} =
      .ok ⟨some .int, [some 0]⟩ {} := ⟨rfl, rfl⟩

lemma binary?_comm (op : ScalarOperator) (A B : BaseType) : op.binary? A B = op.binary? B A := by
  cases op <;> cases A <;> cases B <;> rfl

lemma result?_comm (op : ScalarOperator) (x y : Option BaseType) :
    op.result? [⟨x, []⟩, ⟨y, []⟩] = op.result? [⟨y, []⟩, ⟨x, []⟩] := by
  cases x with
  | none => cases y <;> rfl
  | some A =>
    cases y with
    | none => rfl
    | some B => rw [ScalarOperator.result?, ScalarOperator.result?, binary?_comm]

end

end Typing

end MatScript
