import Mathlib
import MatScript.Scopes

/-! What assignment, lookup and leaving a scope do to a stack of scopes. Every fact about assignment
follows from `Scopes.set_spec`: one scope of the stack changes. -/
namespace MatScript

namespace Scope

variable {α : Type}

lemma lookup_insertBinding (key k : String) (v : α) (bs : List (String × α)) :
    (insertBinding key v bs).lookup k = if k = key then some v else bs.lookup k := by
  induction bs with
  | nil => by_cases h : k = key <;> simp [insertBinding, h]
  | cons b bs ih =>
    obtain ⟨k', v'⟩ := b
    by_cases hk : k' = key
    · by_cases h : k = key
      · simp [insertBinding, hk, h]
      · have hne : (k == k') = false := by simp [hk, h]
        simp only [insertBinding, hk, if_true, List.lookup, h, if_false]
        simp [hk ▸ hne]
    · by_cases h : k = k'
      · subst h
        simp [insertBinding, hk]
      · have hne : (k == k') = false := by simp [h]
        simp only [insertBinding, hk, if_false, List.lookup, hne, ih]

@[simp] lemma get?_insert (s : Scope α) (key k : String) (v : α) :
    (s.insert key v).get? k = if k = key then some v else s.get? k :=
  lookup_insertBinding key k v s.bindings

@[simp] lemma name_insert (s : Scope α) (key : String) (v : α) : (s.insert key v).name = s.name := rfl

@[simp] lemma contains_insert (s : Scope α) (key k : String) (v : α) :
    (s.insert key v).contains k = (decide (k = key) || s.contains k) := by
  by_cases h : k = key <;> simp [contains, h]

@[simp] lemma contains_nil (name k : String) : (⟨name, []⟩ : Scope α).contains k = false := rfl

/-- Scope `t` has the name of `s` and every key of it. -/
def Covers (s t : Scope α) : Prop := t.name = s.name ∧ ∀ k, s.contains k = true → t.contains k = true

/-- The two scopes have one name and the same keys. -/
def SameKeys (s t : Scope α) : Prop := t.name = s.name ∧ ∀ k, t.contains k = s.contains k

lemma Covers.refl (s : Scope α) : s.Covers s := ⟨rfl, fun _ h => h⟩

lemma Covers.trans {s t u : Scope α} (h : s.Covers t) (h' : t.Covers u) : s.Covers u :=
  ⟨h'.1.trans h.1, fun k hk => h'.2 k (h.2 k hk)⟩

lemma covers_insert (s : Scope α) (key : String) (v : α) : s.Covers (s.insert key v) :=
  ⟨rfl, fun k hk => by simp [hk]⟩

lemma SameKeys.refl (s : Scope α) : s.SameKeys s := ⟨rfl, fun _ => rfl⟩

lemma SameKeys.trans {s t u : Scope α} (h : s.SameKeys t) (h' : t.SameKeys u) : s.SameKeys u :=
  ⟨h'.1.trans h.1, fun k => (h'.2 k).trans (h.2 k)⟩

lemma SameKeys.covers {s t : Scope α} (h : s.SameKeys t) : s.Covers t :=
  ⟨h.1, fun k hk => (h.2 k).trans hk⟩

lemma sameKeys_insert {s : Scope α} {key : String} (h : s.contains key = true) (v : α) :
    s.SameKeys (s.insert key v) := by
  refine ⟨rfl, fun k => ?_⟩
  by_cases hk : k = key
  · simp [hk, h]
  · simp [hk]

end Scope

namespace Scopes

variable {α : Type}

lemma toList_ne_nil (s : Scopes α) : s.toList ≠ [] := by simp [toList]

@[simp] lemma toList_push (s : Scopes α) (name : String) :
    (s.push name).toList = ⟨name, []⟩ :: s.toList := rfl

/-- Leaving a scope drops the innermost one, if there is another below it. -/
lemma toList_pop {s : Scopes α} (h : 1 < s.toList.length) : s.pop.toList = s.toList.tail := by
  obtain ⟨inner, base⟩ := s
  cases inner with
  | nil => simp [toList] at h
  | cons a rest => rfl

lemma pop_sublist (s : Scopes α) : s.pop.toList.Sublist s.toList := by
  obtain ⟨inner, base⟩ := s
  cases inner with
  | nil => exact List.Sublist.refl _
  | cons a rest => exact List.sublist_cons_self _ _

lemma assignIn?_eq_none {key : String} {v : α} {l : List (Scope α)} (h : assignIn? key v l = none) :
    ∀ a ∈ l, a.contains key = false := by
  induction l with
  | nil => simp
  | cons a l ih =>
    by_cases ha : a.contains key = true
    · simp [assignIn?, ha] at h
    · simp only [assignIn?, ha, Bool.false_eq_true, if_false, Option.map_eq_none_iff] at h
      intro b hb
      rcases List.mem_cons.mp hb with rfl | hb
      · simpa using ha
      · exact ih h b hb

lemma assignIn?_eq_some {key : String} {v : α} {l l' : List (Scope α)}
    (h : assignIn? key v l = some l') :
    ∃ above a below, l = above ++ a :: below ∧ l' = above ++ a.insert key v :: below ∧
      (∀ b ∈ above, b.contains key = false) ∧ a.contains key = true := by
  induction l generalizing l' with
  | nil => simp [assignIn?] at h
  | cons a l ih =>
    by_cases ha : a.contains key = true
    · simp only [assignIn?, ha, if_true, Option.some.injEq] at h
      exact ⟨[], a, l, rfl, h.symm, by simp, ha⟩
    · simp only [assignIn?, ha, Bool.false_eq_true, if_false, Option.map_eq_some_iff] at h
      obtain ⟨l', hl, rfl⟩ := h
      obtain ⟨above, b, below, rfl, rfl, hn, hb⟩ := ih hl
      refine ⟨a :: above, b, below, rfl, rfl, ?_, hb⟩
      intro c hc
      rcases List.mem_cons.mp hc with rfl | hc
      · simpa using ha
      · exact hn c hc

/-- Assignment changes one scope: the innermost one that has the name, and if no scope has it, the
innermost one. -/
theorem set_spec (s : Scopes α) (key : String) (v : α) :
    ∃ above a below, s.toList = above ++ a :: below ∧
      (s.set key v).toList = above ++ a.insert key v :: below ∧
      (∀ b ∈ above, b.contains key = false) ∧
      (a.contains key = true ∨ above = [] ∧ ∀ b ∈ s.toList, b.contains key = false) := by
  obtain ⟨inner, base⟩ := s
  cases hi : assignIn? key v inner with
  | some inner' =>
    obtain ⟨above, a, below, rfl, rfl, hn, ha⟩ := assignIn?_eq_some hi
    exact ⟨above, a, below ++ [base], by simp [toList], by simp [toList, set, hi], hn, .inl ha⟩
  | none =>
    have hn := assignIn?_eq_none hi
    by_cases hb : base.contains key = true
    · exact ⟨inner, base, [], rfl, by simp [toList, set, hi, hb], hn, .inl hb⟩
    · have hall : ∀ b ∈ inner ++ [base], b.contains key = false := by
        intro b hm
        rcases List.mem_append.mp hm with hm | hm
        · exact hn b hm
        · obtain rfl := List.mem_singleton.mp hm
          simpa using hb
      cases inner with
      | nil => exact ⟨[], base, [], rfl, by simp [toList, set, hi, hb], by simp, .inr ⟨rfl, hall⟩⟩
      | cons a rest =>
        exact ⟨[], a, rest ++ [base], rfl, by simp [toList, set, hi, hb], by simp, .inr ⟨rfl, hall⟩⟩

lemma contains_iff {s : Scopes α} {k : String} :
    s.contains k = true ↔ ∃ a ∈ s.toList, a.contains k = true := by
  simp [contains]

lemma get?_isSome (s : Scopes α) (k : String) : (s.get? k).isSome = s.contains k := by
  rw [Bool.eq_iff_iff, contains_iff, get?, List.findSome?_isSome_iff]
  rfl

lemma contains_of_get? {s : Scopes α} {k : String} {v : α} (h : s.get? k = some v) :
    s.contains k = true := by rw [← get?_isSome, h]; rfl

lemma findSome?_get?_eq_none {l : List (Scope α)} {k : String}
    (h : ∀ b ∈ l, b.contains k = false) : l.findSome? (·.get? k) = none := by
  rw [List.findSome?_eq_none_iff]
  intro b hb
  simpa [Scope.contains] using h b hb

/-- The last value assigned to a name is the one found. -/
@[simp] theorem get?_set (s : Scopes α) (key k : String) (v : α) :
    (s.set key v).get? k = if k = key then some v else s.get? k := by
  obtain ⟨above, a, below, hs, hs', hn, -⟩ := set_spec s key v
  unfold get?
  rw [hs, hs', List.findSome?_append, List.findSome?_append]
  by_cases h : k = key
  · subst h
    simp [findSome?_get?_eq_none hn]
  · simp [h, List.findSome?_cons]

@[simp] lemma contains_set (s : Scopes α) (key k : String) (v : α) :
    (s.set key v).contains k = (decide (k = key) || s.contains k) := by
  rw [← get?_isSome, ← get?_isSome, get?_set]
  by_cases h : k = key <;> simp [h]

@[simp] lemma get?_push (s : Scopes α) (name k : String) : (s.push name).get? k = s.get? k := by
  simp [get?, List.findSome?_cons, Scope.get?]

@[simp] lemma contains_push (s : Scopes α) (name k : String) :
    (s.push name).contains k = s.contains k := by simp [contains]

@[simp] lemma contains_empty (k : String) : (empty : Scopes α).contains k = false := rfl

@[simp] lemma hasScope_push (s : Scopes α) (name scope : String) :
    (s.push name).hasScope scope = (name == scope || s.hasScope scope) := by simp [hasScope]

private lemma forall₂_trans {R : Scope α → Scope α → Prop} (hR : ∀ a b c, R a b → R b c → R a c)
    {l₁ l₂ l₃ : List (Scope α)} (h : List.Forall₂ R l₁ l₂) (h' : List.Forall₂ R l₂ l₃) :
    List.Forall₂ R l₁ l₃ := by
  induction h generalizing l₃ with
  | nil => exact h'
  | cons hab _ ih =>
    obtain ⟨c, l₃, hbc, hl, rfl⟩ := List.forall₂_cons_left_iff.mp h'
    exact .cons (hR _ _ _ hab hbc) (ih hl)

/-- The scopes of `s`, changed as `R` says, are the lowest scopes of `t`. -/
def Carries (R : Scope α → Scope α → Prop) (s t : Scopes α) : Prop :=
  ∃ n, List.Forall₂ R s.toList (t.toList.drop n)

namespace Carries

variable {R : Scope α → Scope α → Prop} {s t u : Scopes α}

lemma refl (hR : ∀ a, R a a) (s : Scopes α) : s.Carries R s :=
  ⟨0, List.forall₂_same.mpr fun a _ => hR a⟩

lemma trans (hR : ∀ a b c, R a b → R b c → R a c) (h : s.Carries R t) (h' : t.Carries R u) :
    s.Carries R u := by
  obtain ⟨n, hn⟩ := h
  obtain ⟨m, hm⟩ := h'
  refine ⟨m + n, ?_⟩
  have hd := List.forall₂_drop n hm
  rw [List.drop_drop] at hd
  exact forall₂_trans hR hn hd

lemma push (hR : ∀ a, R a a) (s : Scopes α) (name : String) : s.Carries R (s.push name) :=
  ⟨1, List.forall₂_same.mpr fun a _ => hR a⟩

/-- Assignment changes one scope. -/
lemma set (hR : ∀ a, R a a) {key : String} {v : α} (hset : ∀ a, R a (a.insert key v))
    (s : Scopes α) : s.Carries R (s.set key v) := by
  obtain ⟨above, a, below, hs, hs', -, -⟩ := set_spec s key v
  refine ⟨0, ?_⟩
  rw [List.drop_zero, hs, hs']
  refine List.rel_append (List.forall₂_same.mpr fun b _ => hR b) ?_
  exact .cons (hset a) (List.forall₂_same.mpr fun b _ => hR b)

/-- What carries a new scope carries, without its innermost scope, the scopes below the new one. -/
lemma pop {name : String} (h : (s.push name).Carries R t) : s.Carries R t.pop := by
  obtain ⟨n, hn⟩ := h
  rw [toList_push] at hn
  obtain ⟨b, rest, -, hr, hd⟩ := List.forall₂_cons_left_iff.mp hn
  have hlen : 1 < t.toList.length := by
    have h1 := hr.length_eq
    have h2 : 0 < s.toList.length := List.length_pos_of_ne_nil s.toList_ne_nil
    have h3 := congrArg List.length hd
    simp only [List.length_drop, List.length_cons] at h3
    omega
  refine ⟨n, ?_⟩
  have htail : t.toList.tail.drop n = rest := by
    rw [← List.drop_one, List.drop_drop, Nat.add_comm, ← List.drop_drop, hd]
    rfl
  rwa [toList_pop hlen, htail]

/-- Between stacks of one height, scope goes with scope. -/
lemma forall₂ (h : s.Carries R t) (hlen : t.toList.length = s.toList.length) :
    List.Forall₂ R s.toList t.toList := by
  obtain ⟨n, hn⟩ := h
  have hdrop := hn.length_eq
  have hpos : 0 < s.toList.length := List.length_pos_of_ne_nil s.toList_ne_nil
  rw [List.length_drop] at hdrop
  obtain rfl : n = 0 := by omega
  exact hn

end Carries

/-- The scopes of `s` are the lowest scopes of `t`, which have all their keys. -/
def Grows (s t : Scopes α) : Prop := ∃ n, List.Forall₂ Scope.Covers s.toList (t.toList.drop n)

namespace Grows

lemma refl (s : Scopes α) : s.Grows s := Carries.refl Scope.Covers.refl s

lemma trans {s t u : Scopes α} (h : s.Grows t) (h' : t.Grows u) : s.Grows u :=
  Carries.trans (fun _ _ _ h h' => h.trans h') h h'

lemma contains {s t : Scopes α} (h : s.Grows t) {k : String} (hk : s.contains k = true) :
    t.contains k = true := by
  obtain ⟨n, hn⟩ := h
  obtain ⟨a, ha, hak⟩ := contains_iff.mp hk
  obtain ⟨i, hi, rfl⟩ := List.getElem_of_mem ha
  have hlen := hn.length_eq
  have hc := hn.get hi (hlen ▸ hi)
  exact contains_iff.mpr ⟨_, List.mem_of_mem_drop (List.getElem_mem _), hc.2 k hak⟩

end Grows

lemma grows_set (s : Scopes α) (key : String) (v : α) : s.Grows (s.set key v) :=
  Carries.set Scope.Covers.refl (fun a => Scope.covers_insert a key v) s

lemma grows_push (s : Scopes α) (name : String) : s.Grows (s.push name) :=
  Carries.push Scope.Covers.refl s name

/-- What has grown from a new scope has, without its innermost scope, grown from the scopes below
the new one. -/
theorem Grows.pop {s t : Scopes α} {name : String} (h : (s.push name).Grows t) : s.Grows t.pop :=
  Carries.pop h

/-- The two stacks have the same scopes with the same keys. -/
def SameKeys (s t : Scopes α) : Prop := List.Forall₂ Scope.SameKeys s.toList t.toList

/-- The two stacks have the same scopes, and only the innermost one may have gained keys. -/
def Widens (s t : Scopes α) : Prop :=
  ∃ a as b bs, s.toList = a :: as ∧ t.toList = b :: bs ∧ a.Covers b ∧ List.Forall₂ Scope.SameKeys as bs

private lemma any_eq_of_sameKeys {f : Scope α → Bool} (hf : ∀ a b, Scope.SameKeys a b → f b = f a)
    {l l' : List (Scope α)} (h : List.Forall₂ Scope.SameKeys l l') : l'.any f = l.any f := by
  induction h with
  | nil => rfl
  | cons hab _ ih => rw [List.any_cons, List.any_cons, ih, hf _ _ hab]

lemma SameKeys.contains {s t : Scopes α} (h : s.SameKeys t) (k : String) :
    t.contains k = s.contains k := any_eq_of_sameKeys (fun _ _ hab => hab.2 k) h

lemma SameKeys.widens {s t : Scopes α} (h : s.SameKeys t) : s.Widens t := by
  obtain ⟨a, as, hs⟩ := List.exists_cons_of_ne_nil s.toList_ne_nil
  unfold SameKeys at h
  rw [hs] at h
  obtain ⟨b, bs, hab, hl, ht⟩ := List.forall₂_cons_left_iff.mp h
  exact ⟨a, as, b, bs, hs, ht, hab.covers, hl⟩

namespace Widens

lemma refl (s : Scopes α) : s.Widens s :=
  SameKeys.widens (List.forall₂_same.mpr fun a _ => Scope.SameKeys.refl a)

lemma trans {s t u : Scopes α} (h : s.Widens t) (h' : t.Widens u) : s.Widens u := by
  obtain ⟨a, as, b, bs, hs, ht, hab, hl⟩ := h
  obtain ⟨b', bs', c, cs, ht', hu, hbc, hl'⟩ := h'
  obtain ⟨rfl, rfl⟩ := List.cons.inj (ht.symm.trans ht')
  exact ⟨a, as, c, cs, hs, hu, hab.trans hbc, forall₂_trans (fun _ _ _ h h' => h.trans h') hl hl'⟩

lemma grows {s t : Scopes α} (h : s.Widens t) : s.Grows t := by
  obtain ⟨a, as, b, bs, hs, ht, hab, hl⟩ := h
  refine ⟨0, ?_⟩
  rw [List.drop_zero, hs, ht]
  exact .cons hab (hl.imp fun _ _ h => h.covers)

lemma hasScope {s t : Scopes α} (h : s.Widens t) (name : String) :
    t.hasScope name = s.hasScope name := by
  obtain ⟨a, as, b, bs, hs, ht, hab, hl⟩ := h
  have hnames : bs.any (·.name == name) = as.any (·.name == name) :=
    any_eq_of_sameKeys (fun _ _ h => by rw [h.1]) hl
  unfold Scopes.hasScope
  rw [hs, ht, List.any_cons, List.any_cons, hnames, hab.1]

/-- When a new scope is left, the scopes below it have the keys they had. -/
theorem pop {s t : Scopes α} {name : String} (h : (s.push name).Widens t) : s.SameKeys t.pop := by
  obtain ⟨a, as, b, bs, hs, ht, -, hl⟩ := h
  rw [toList_push] at hs
  obtain ⟨-, rfl⟩ := List.cons.inj hs
  have hlen : 1 < t.toList.length := by
    have h1 := hl.length_eq
    have h2 : 0 < s.toList.length := List.length_pos_of_ne_nil s.toList_ne_nil
    rw [ht, List.length_cons]
    omega
  unfold SameKeys
  rwa [toList_pop hlen, ht]

end Widens

lemma widens_set (s : Scopes α) (key : String) (v : α) : s.Widens (s.set key v) := by
  obtain ⟨above, a, below, hs, hs', -, ha⟩ := set_spec s key v
  have hsame : ∀ l : List (Scope α), List.Forall₂ Scope.SameKeys l l := fun l =>
    List.forall₂_same.mpr fun b _ => Scope.SameKeys.refl b
  cases above with
  | nil => exact ⟨a, below, _, below, hs, hs', Scope.covers_insert a key v, hsame below⟩
  | cons c above =>
    -- below the innermost scope only a scope that has the name is changed
    have hk : a.contains key = true := by
      rcases ha with ha | ⟨h, -⟩
      · exact ha
      · exact absurd h (List.cons_ne_nil _ _)
    refine ⟨c, above ++ a :: below, c, _, hs, hs', Scope.Covers.refl c, ?_⟩
    exact List.rel_append (hsame above) (.cons (Scope.sameKeys_insert hk v) (hsame below))

/-- No key is bound in two scopes. -/
def Separate (s : Scopes α) : Prop :=
  s.toList.Pairwise fun a b => ∀ k, a.contains k = true → b.contains k = false

lemma separate_empty : (empty : Scopes α).Separate := List.pairwise_singleton _ _

lemma Separate.push {s : Scopes α} (h : s.Separate) (name : String) : (s.push name).Separate := by
  refine List.pairwise_cons.mpr ⟨?_, h⟩
  intro b _ k hk
  exact absurd hk (by simp)

lemma Separate.pop {s : Scopes α} (h : s.Separate) : s.pop.Separate := h.sublist s.pop_sublist

lemma Separate.set {s : Scopes α} (h : s.Separate) (key : String) (v : α) :
    (s.set key v).Separate := by
  obtain ⟨above, a, below, hs, hs', hn, ha⟩ := set_spec s key v
  unfold Separate at h ⊢
  rw [hs, List.pairwise_append, List.pairwise_cons] at h
  obtain ⟨habove, ⟨hab, hbelow⟩, hcross⟩ := h
  rw [hs', List.pairwise_append, List.pairwise_cons]
  refine ⟨habove, ⟨?_, hbelow⟩, ?_⟩
  · intro b hb k hk
    by_cases hkey : k = key
    · subst hkey
      rcases ha with ha | ⟨-, hall⟩
      · exact hab b hb k ha
      · exact hall b (by simp [hs, hb])
    · exact hab b hb k (by simpa [hkey] using hk)
  · intro x hx y hy k hk
    rcases List.mem_cons.mp hy with rfl | hy
    · have hne : k ≠ key := by
        rintro rfl
        rw [hn x hx] at hk
        exact Bool.false_ne_true hk
      simpa [hne] using hcross x hx a (by simp) k hk
    · exact hcross x hx y (by simp [hy]) k hk

/-- Leaving a scope does not change the value of a name that is still bound. -/
theorem Separate.get?_pop {s : Scopes α} (h : s.Separate) {k : String}
    (hk : s.pop.contains k = true) : s.pop.get? k = s.get? k := by
  obtain ⟨inner, base⟩ := s
  cases inner with
  | nil => rfl
  | cons a rest =>
    obtain ⟨b, hb, hbk⟩ := contains_iff.mp hk
    have ha : a.contains k = false := by
      by_contra hak
      have := (List.pairwise_cons.mp h).1 b hb k (by simpa using hak)
      rw [hbk] at this
      exact Bool.false_ne_true this.symm
    have hnone : a.get? k = none := by simpa [Scope.contains] using ha
    change (rest ++ [base]).findSome? _ = (a :: (rest ++ [base])).findSome? _
    rw [List.findSome?_cons, hnone]

/-- What the scopes of a run become: they grow, and no key comes to be bound twice. -/
structure Evolves (s t : Scopes α) : Prop where
  grows : s.Grows t
  separate : s.Separate → t.Separate

namespace Evolves

lemma refl (s : Scopes α) : s.Evolves s := ⟨.refl s, id⟩

lemma trans {s t u : Scopes α} (h : s.Evolves t) (h' : t.Evolves u) : s.Evolves u :=
  ⟨h.grows.trans h'.grows, h'.separate ∘ h.separate⟩

lemma set (s : Scopes α) (key : String) (v : α) : s.Evolves (s.set key v) :=
  ⟨grows_set s key v, fun h => h.set key v⟩

lemma push (s : Scopes α) (name : String) : s.Evolves (s.push name) :=
  ⟨grows_push s name, fun h => h.push name⟩

lemma pop {s t : Scopes α} {name : String} (h : (s.push name).Evolves t) : s.Evolves t.pop :=
  ⟨h.grows.pop, fun hs => (h.separate (hs.push name)).pop⟩

end Evolves

/-- Every binding of every scope, found or hidden, has the property. -/
def All (P : String → α → Prop) (s : Scopes α) : Prop :=
  ∀ a ∈ s.toList, ∀ k v, a.get? k = some v → P k v

namespace All

variable {P : String → α → Prop} {s : Scopes α}

lemma empty : (Scopes.empty : Scopes α).All P := by
  intro a ha k v hv
  obtain rfl := List.mem_singleton.1 ha
  cases hv

lemma push (h : s.All P) (name : String) : (s.push name).All P := by
  intro a ha k v hv
  rcases List.mem_cons.1 ha with rfl | ha
  · cases hv
  · exact h a ha k v hv

lemma pop (h : s.All P) : s.pop.All P := fun a ha => h a (s.pop_sublist.subset ha)

lemma set (h : s.All P) {key : String} {v : α} (hv : P key v) : (s.set key v).All P := by
  obtain ⟨above, a, below, hs, hs', -, -⟩ := set_spec s key v
  intro b hb k w hw
  rw [hs', List.mem_append, List.mem_cons] at hb
  have hold : ∀ c ∈ above ++ a :: below, ∀ k w, c.get? k = some w → P k w := by
    rw [← hs]
    exact h
  rcases hb with hb | rfl | hb
  · exact hold b (List.mem_append_left _ hb) k w hw
  · rw [Scope.get?_insert] at hw
    split at hw
    · next hk =>
      cases hw
      rw [hk]
      exact hv
    · exact hold a (List.mem_append_right _ List.mem_cons_self) k w hw
  · exact hold b (List.mem_append_right _ (List.mem_cons_of_mem _ hb)) k w hw

lemma get? (h : s.All P) {k : String} {v : α} (hv : s.get? k = some v) : P k v := by
  obtain ⟨a, ha, hak⟩ := List.exists_of_findSome?_eq_some hv
  exact h a ha k v hak

end All

end Scopes

end MatScript
