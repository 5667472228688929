import MatScript.Proofs.Checking
import MatScript.Proofs.Leaving

/-! A scope that is left by a jump or an error stays in memory, with all its names. An accepted
script does not notice: it reads only names that are in scope where it stands, and for these the
last value written is the one found, whatever other scopes lie on the stack. -/
namespace MatScript

open Run Typing

/-- The machines have one store and one output, and each of the names is bound in both, to one
value. -/
structure Agree (names : String → Prop) (m n : Machine) : Prop where
  store : m.store = n.store
  output : m.output = n.output
  bound : ∀ x, names x → m.memory.contains x = true ∧ m.memory.get? x = n.memory.get? x
  separate : m.memory.Separate ∧ n.memory.Separate

namespace Agree

variable {V W : String → Prop} {m n m' n' : Machine}

lemma mono (h : Agree W m n) (hVW : ∀ x, V x → W x) : Agree V m n :=
  ⟨h.store, h.output, fun x hx => h.bound x (hVW x hx), h.separate⟩

lemma contains_right (h : Agree V m n) {x : String} (hx : V x) : n.memory.contains x = true := by
  obtain ⟨hm, he⟩ := h.bound x hx
  rw [← Scopes.get?_isSome] at hm ⊢
  rwa [← he]

lemma push (h : Agree V m n) (scope : String) : Agree V (m.push scope) (n.push scope) := by
  refine ⟨h.store, h.output, fun x hx => ?_, h.separate.1.push scope, h.separate.2.push scope⟩
  simpa using h.bound x hx

lemma bind (h : Agree V m n) (id : String) (v : Value) :
    Agree (fun x => x = id ∨ V x) (m.bind id v) (n.bind id v) := by
  rw [Machine.bind_eq, Machine.bind_eq, h.store]
  refine ⟨rfl, h.output, fun x hx => ?_, h.separate.1.set _ _, h.separate.2.set _ _⟩
  by_cases hid : x = id
  · simp [hid]
  · simpa [hid] using h.bound x (hx.resolve_left hid)

lemma change (h : Agree V m n) (p : Patch) : Agree V (m.change p) (n.change p) :=
  ⟨congrArg p.apply h.store, h.output, h.bound, h.separate⟩

lemma of_beside (h : Agree V m n) (h' : Beside m.memory n.memory m' n') : Agree V m' n' := by
  refine ⟨h'.store, h'.output, ?_, ?_⟩
  · rw [h'.left, h'.right]; exact h.bound
  · rw [h'.left, h'.right]; exact h.separate

end Agree

/-- What is left of the machine `m` when a scope opened on it ends in `m'`: the scope is removed or
stays, and the names that `m` had keep the values they have in `m'`. -/
inductive Left (m m' : Machine) : Machine → Prop where
  | kept : m.memory.Evolves m'.memory → Left m m' m'
  | removed : m.memory.Evolves m'.memory.pop → Left m m' m'.pop

namespace Left

variable {m m' m'' : Machine}

lemma after (d : Leaving) {scope : String} (h : (m.memory.push scope).Evolves m'.memory) :
    Left m m' (d.after m') := by
  cases d with
  | keep => exact .kept ((Scopes.Evolves.push _ scope).trans h)
  | remove => exact .removed h.pop

lemma store (h : Left m m' m'') : m''.store = m'.store := by cases h <;> rfl

lemma output (h : Left m m' m'') : m''.output = m'.output := by cases h <;> rfl

lemma separate (h : Left m m' m'') (hs : m.memory.Separate) : m''.memory.Separate := by
  cases h with
  | kept h => exact h.separate hs
  | removed h => exact h.separate hs

lemma bound (h : Left m m' m'') (hs : m'.memory.Separate) {x : String}
    (hx : m.memory.contains x = true) :
    m''.memory.contains x = true ∧ m''.memory.get? x = m'.memory.get? x := by
  cases h with
  | kept h => exact ⟨h.grows.contains hx, rfl⟩
  | removed h =>
    have hc : m'.memory.pop.contains x = true := h.grows.contains hx
    exact ⟨hc, hs.get?_pop hc⟩

end Left

/-- Names on which two machines agree when a scope is opened, and still agree when it ends, they
agree on after it is left, by whatever rule on each side. -/
lemma Agree.left {V : String → Prop} {m n m' n' m'' n'' : Machine} (h : Agree V m n)
    (h' : Agree V m' n') (hm : Left m m' m'') (hn : Left n n' n'') : Agree V m'' n'' := by
  refine ⟨?_, ?_, fun x hx => ?_, hm.separate h.separate.1, hn.separate h.separate.2⟩
  · rw [hm.store, hn.store, h'.store]
  · rw [hm.output, hn.output, h'.output]
  · obtain ⟨hc, hmx⟩ := hm.bound h'.separate.1 (h.bound x hx).1
    obtain ⟨-, hnx⟩ := hn.bound h'.separate.2 (h.contains_right hx)
    exact ⟨hc, hmx.trans ((h'.bound x hx).2.trans hnx.symm)⟩

namespace Run

variable {α : Type} {V W : String → Prop} {m n : Machine}

/-- A blind computation keeps the agreement. -/
lemma Blind.agree {r : Run α} (h : Agree V m n) (hr : Blind m.memory n.memory r) :
    EndAlike (r m) (r n) (fun _ => Agree V) (fun _ => Agree V) :=
  (hr m n ⟨rfl, rfl, h.store, h.output⟩).imp (fun _ _ _ hb => h.of_beside hb)
    (fun _ _ _ hb => h.of_beside hb)

lemma agree_within {d d' : Leaving} {scope : String} {body body' : Run α} (h : Agree V m n)
    (hVW : ∀ x, V x → W x) (hb : Evolves body) (hb' : Evolves body')
    (halike : EndAlike (body (m.push scope)) (body' (n.push scope)) (fun _ => Agree W)
      (fun _ => Agree V)) :
    EndAlike (withinBy d scope body m) (withinBy d' scope body' n) (fun _ => Agree V)
      (fun _ => Agree V) := by
  have hm := hb (m.push scope)
  have hn := hb' (n.push scope)
  unfold withinBy
  cases hx : body (m.push scope) <;> cases hy : body' (n.push scope) <;>
    rw [hx] at hm <;> rw [hy] at hn <;> rw [hx, hy] at halike
  · exact ⟨rfl, h.left (halike.2.mono hVW) (.removed hm.pop) (.removed hn.pop)⟩
  · exact halike
  · exact halike
  · exact ⟨halike.1, h.left halike.2 (.after d hm) (.after d' hn)⟩

lemma agree_round {d d' : Leaving} {scope : String} {body body' : Run α} (h : Agree V m n)
    (hVW : ∀ x, V x → W x) (hb : Evolves body) (hb' : Evolves body')
    (halike : EndAlike (body (m.push scope)) (body' (n.push scope)) (fun _ => Agree W)
      (fun _ => Agree V)) :
    EndAlike (roundBy d scope body m) (roundBy d' scope body' n) (fun _ => Agree V)
      (fun _ => Agree V) := by
  have hm := hb (m.push scope)
  have hn := hb' (n.push scope)
  unfold roundBy
  cases hx : body (m.push scope) with
  | ok a m' =>
    cases hy : body' (n.push scope) with
    | ok b n' =>
      rw [hx] at hm halike
      rw [hy] at hn halike
      exact ⟨rfl, h.left (halike.2.mono hVW) (.removed hm.pop) (.removed hn.pop)⟩
    | error e n' =>
      rw [hx, hy] at halike
      exact halike.elim
  | error stop m' =>
    cases hy : body' (n.push scope) with
    | ok b n' =>
      rw [hx, hy] at halike
      exact halike.elim
    | error stop' n' =>
      rw [hx] at hm halike
      rw [hy] at hn halike
      obtain ⟨rfl, ha⟩ := halike
      have hpop : Agree V m'.pop n'.pop := h.left ha (.removed hm.pop) (.removed hn.pop)
      have hafter : Agree V (d.after m') (d'.after n') := h.left ha (.after d hm) (.after d' hn)
      -- a jump that belongs to the loop ends the round, all else ends the loop
      cases stop with
      | breakLoop _ => exact ⟨rfl, hpop⟩
      | continueLoop _ => exact ⟨rfl, hpop⟩
      | giveBack _ => exact ⟨rfl, hafter⟩
      | failed _ => exact ⟨rfl, hafter⟩
      | outOfFuel => exact ⟨rfl, hafter⟩

/-- Conditions and rounds that keep a relation keep it over a whole loop. -/
lemma alike_repeatWhile {J : Machine → Machine → Prop} {c c' : Run Bool} {b b' : Run Round}
    (hc : ∀ m n, J m n → EndAlike (c m) (c' n) (fun _ => J) (fun _ => J))
    (hb : ∀ m n, J m n → EndAlike (b m) (b' n) (fun _ => J) (fun _ => J)) (fuel : Nat) :
    ∀ m n, J m n → EndAlike (repeatWhile c b fuel m) (repeatWhile c' b' fuel n) (fun _ => J)
      (fun _ => J) := by
  induction fuel with
  | zero => exact fun m n h => ⟨rfl, h⟩
  | succ fuel ih =>
    intro m n h
    have hcond := hc m n h
    unfold repeatWhile
    cases hx : c m <;> cases hy : c' n <;> rw [hx, hy] at hcond
    · obtain ⟨rfl, h₁⟩ := hcond
      rename_i go m₁ n₁
      cases go with
      | false => exact ⟨rfl, h₁⟩
      | true =>
        have hround := hb m₁ n₁ h₁
        dsimp only
        cases hx' : b m₁ <;> cases hy' : b' n₁ <;> rw [hx', hy'] at hround
        · obtain ⟨rfl, h₂⟩ := hround
          rename_i r m₂ n₂
          cases r with
          | leave => exact ⟨rfl, h₂⟩
          | next => exact ih m₂ n₂ h₂
        · exact hround.elim
        · exact hround.elim
        · exact hround
    · exact hcond.elim
    · exact hcond.elim
    · exact hcond

lemma alike_repeatFrom {J : Machine → Machine → Prop} {b b' : Nat → Run Round}
    (hb : ∀ i m n, J m n → EndAlike (b i m) (b' i n) (fun _ => J) (fun _ => J)) (count i : Nat) :
    ∀ m n, J m n → EndAlike (repeatFrom b count i m) (repeatFrom b' count i n) (fun _ => J)
      (fun _ => J) := by
  induction count generalizing i with
  | zero => exact fun m n h => ⟨rfl, h⟩
  | succ count ih =>
    intro m n h
    have hround := hb i m n h
    unfold repeatFrom
    cases hx : b i m <;> cases hy : b' i n <;> rw [hx, hy] at hround
    · obtain ⟨rfl, h₁⟩ := hround
      rename_i r m₁ n₁
      cases r with
      | leave => exact ⟨rfl, h₁⟩
      | next => exact ih (i + 1) m₁ n₁ h₁
    · exact hround.elim
    · exact hround.elim
    · exact hround

end Run

section

variable {loops inside : List String} {st st' : Typing.State} {m n : Machine}

lemma Agree.get?_eq {V : String → Prop} (h : Agree V m n) {xs : List String} (hV : ∀ x ∈ xs, V x) :
    ∀ x ∈ xs, m.memory.get? x = n.memory.get? x := fun x hx => (h.bound x (hV x hx)).2

lemma agree_assign {span : Span} {target value : Expr}
    (hc : checkAssign .raising span target value st = .ok () st')
    (hf : FreeFit loops inside (target.names ++ value.names))
    (h : Agree (Readable loops inside st.table) m n) :
    EndAlike (assign target value m) (assign target value n)
      (fun _ => Agree (Readable loops inside st'.table))
      (fun _ => Agree (Readable loops inside st.table)) := by
  cases target with
  | name _ id =>
    obtain ⟨t, st₁, hv, rfl⟩ := Stmt.checkAssign_name hc
    have hread := readable_of_check hv hf.append.2
    have htable : st₁.table = st.table := value.keepsTable _ _ _ _ hv
    refine (Blind.agree h (value.blind (h.get?_eq hread))).bind fun v m n h => ⟨rfl, ?_⟩
    refine (h.bind id v).mono fun x hx => ?_
    rw [State.table_set, htable] at hx
    exact hx.of_set
  | element elementSpan id idSpan indices indexSpan =>
    obtain ⟨t, st₁, ht, hv⟩ := Stmt.checkAssign_element hc
    have htable : st₁.table = st.table := Expr.keepsTable _ _ _ _ _ ht
    have hread := readable_of_check ht hf.append.1
    have hreadv := readable_of_check hv hf.append.2
    rw [htable] at hreadv
    simp only [Expr.names, List.mem_cons] at hread
    rw [value.keepsTable _ _ _ _ hv, htable]
    have hid := hread id (.inl rfl)
    have hindices : ∀ x ∈ Expr.namesAll indices, Readable loops inside st.table x :=
      fun x hx => hread x (.inr hx)
    refine (Blind.agree h (blind_lookup (h.bound id hid).2)).bind fun array m n h => ?_
    refine (Blind.agree h (blind_evalIndices indices (h.get?_eq hindices))).bind fun sel m n h => ?_
    refine (Blind.agree h (value.blind (h.get?_eq hreadv))).bind fun v m n h => ?_
    exact (Blind.agree h (blind_ofStore _)).bind fun p m n h => ⟨rfl, h.change p⟩
  | _ =>
    obtain rfl : st = st' := by cases hc; rfl
    exact ⟨rfl, h⟩

lemma agree_update {span : Span} {symbol : String} {target value : Expr}
    (hc : checkUpdate .raising span symbol target value st = .ok () st')
    (hf : FreeFit loops inside (target.names ++ value.names))
    (h : Agree (Readable loops inside st.table) m n) :
    EndAlike (update symbol target value m) (update symbol target value n)
      (fun _ => Agree (Readable loops inside st'.table))
      (fun _ => Agree (Readable loops inside st.table)) := by
  obtain ⟨t, st₁, v, st₂, op, result, ht, hv, -, -, rfl⟩ := Stmt.checkUpdate_raising hc
  have htable₁ : st₁.table = st.table := target.keepsTable _ _ _ _ ht
  have htable₂ : st₂.table = st.table := (value.keepsTable _ _ _ _ hv).trans htable₁
  have hread := readable_of_check ht hf.append.1
  have hreadv := readable_of_check hv hf.append.2
  rw [htable₁] at hreadv
  unfold update
  generalize (symbol.take 1).toString = operator
  refine (Blind.agree h (value.blind (h.get?_eq hreadv))).bind fun v m n h => ?_
  cases target with
  | name _ id =>
    have hid := hread id (by simp [Expr.names])
    refine (Blind.agree h (blind_lookup (h.bound id hid).2)).bind fun old m n h => ?_
    refine (Blind.agree h (blind_apply _ _)).bind fun new m n h => ⟨rfl, ?_⟩
    refine (h.bind id new).mono fun x hx => ?_
    rw [State.assign, State.table_set, htable₂] at hx
    exact hx.of_set
  | element elementSpan id idSpan indices indexSpan =>
    simp only [Expr.names, List.mem_cons] at hread
    change EndAlike _ _ (fun _ => Agree (Readable loops inside st₂.table)) _
    rw [htable₂]
    have hid := hread id (.inl rfl)
    have hindices : ∀ x ∈ Expr.namesAll indices, Readable loops inside st.table x :=
      fun x hx => hread x (.inr hx)
    refine (Blind.agree h (blind_lookup (h.bound id hid).2)).bind fun array m n h => ?_
    refine (Blind.agree h (blind_evalIndices indices (h.get?_eq hindices))).bind fun sel m n h => ?_
    cases Operation.ofName? operator with
    | none => exact ⟨rfl, h⟩
    | some op =>
      refine (Blind.agree h (blind_ofStore _)).bind fun old m n h => ?_
      refine (Blind.agree h (blind_perform _ _)).bind fun new m n h => ?_
      exact (Blind.agree h (blind_ofStore _)).bind fun p m n h => ⟨rfl, h.change p⟩
  | _ =>
    change EndAlike _ _ (fun _ => Agree (Readable loops inside st₂.table)) _
    rw [htable₂]
    exact ⟨rfl, h⟩

variable {α : Type} {d d' : Leaving} {name scope : String} {body body' : Run α}

lemma readable_of_widens (hw : (st.push name).table.Widens st'.table) {x : String}
    (hx : Readable loops inside st.table x) : Readable loops inside st'.table x := by
  rw [← readable_push name] at hx
  exact hx.mono hw.grows

/-- Two runs, in new scopes, of what is checked in a scope of its own. -/
lemma agree_pushed (name : String) (h : Agree (Readable loops inside st.table) m n)
    (hs : ∀ m n, Agree (Readable loops inside (st.push name).table) m n →
      EndAlike (body m) (body' n) (fun _ => Agree (Readable loops inside st'.table))
        (fun _ => Agree (Readable loops inside (st.push name).table))) :
    EndAlike (body (m.push scope)) (body' (n.push scope))
      (fun _ => Agree (Readable loops inside st'.table))
      (fun _ => Agree (Readable loops inside st.table)) := by
  have hrun := hs (m.push scope) (n.push scope) (by rw [readable_push]; exact h.push scope)
  rwa [readable_push] at hrun

/-- A round of a `for` loop: its body reads the names of the table and the name the loop is over. -/
lemma agree_round_bindItem {id : String} {t : Ty} {item : Store → Nat → Value} {i : Nat}
    (hw : ((st.set id t).push name).table.Widens st'.table) (hb : Evolves body)
    (hb' : Evolves body') (h : Agree (Readable loops inside st.table) m n)
    (hs : ∀ m n, Agree (Readable loops (id :: inside) ((st.set id t).push name).table) m n →
      EndAlike (body m) (body' n) (fun _ => Agree (Readable loops (id :: inside) st'.table))
        (fun _ => Agree (Readable loops (id :: inside) ((st.set id t).push name).table))) :
    EndAlike
      (roundBy d scope (do
        Run.bind id (item (← get).store i)
        body) m)
      (roundBy d' scope (do
        Run.bind id (item (← get).store i)
        body') n)
      (fun _ => Agree (Readable loops inside st.table))
      (fun _ => Agree (Readable loops inside st.table)) := by
  have hgrow : ∀ x, Readable loops inside st.table x →
      Readable loops (id :: inside) ((st.set id t).push name).table x :=
    fun x hx => readable_in_forLoop.mpr (.inr hx)
  have hbound : Agree (Readable loops (id :: inside) ((st.set id t).push name).table)
      ((m.push scope).bind id (item m.store i)) ((n.push scope).bind id (item m.store i)) :=
    ((h.push scope).bind id _).mono fun x hx => readable_in_forLoop.mp hx
  refine agree_round h (fun x hx => (hgrow x hx).mono hw.grows) (hb.bindItem id item i)
    (hb'.bindItem id item i) ?_
  rw [bindItem_apply, bindItem_apply]
  change EndAlike _ (body' ((n.push scope).bind id (item n.store i))) _ _
  rw [← h.store]
  exact (hs _ _ hbound).imp (fun _ _ _ h => h) fun _ _ _ h => h.mono hgrow

end

/-- Two runs of an accepted statement that agree on the names that it may read end alike and agree
again, wherever it stands and whatever each of them does with scopes that are left by a jump or an
error. -/
def Stmt.RunsAgree (d d' : Leaving) (fuel : Nat) (loops : List String) (s : Stmt) : Prop :=
  ∀ ⦃inside : List String⦄ ⦃st st' : Typing.State⦄ ⦃t : Ty⦄ ⦃m n : Machine⦄,
    s.check .raising st = .ok t st' → s.Fits loops inside →
    (∀ x ∈ inside, st.table.contains x = true) → Agree (Readable loops inside st.table) m n →
    EndAlike (s.execBy d fuel m) (s.execBy d' fuel n)
      (fun _ => Agree (Readable loops inside st'.table))
      (fun _ => Agree (Readable loops inside st.table))

/-- The same for statements one after another. -/
def Stmt.RunAgree (d d' : Leaving) (fuel : Nat) (loops : List String) (ss : List Stmt) : Prop :=
  ∀ ⦃inside : List String⦄ ⦃st st' : Typing.State⦄ ⦃m n : Machine⦄,
    Stmt.checkAll .raising ss st = .ok () st' → Stmt.FitsAll loops inside ss →
    (∀ x ∈ inside, st.table.contains x = true) → Agree (Readable loops inside st.table) m n →
    EndAlike (Stmt.execAllBy d fuel ss m) (Stmt.execAllBy d' fuel ss n)
      (fun _ => Agree (Readable loops inside st'.table))
      (fun _ => Agree (Readable loops inside st.table))

namespace Stmt

variable {d d' : Leaving} {fuel : Nat} {loops : List String} {span : Span} {condition : Expr}

section

variable {s : Stmt} {inside : List String} {st st' : Typing.State} {t : Ty} {m n : Machine}
  {name scope : String}

/-- A branch: after its scope is left, the names are those from before it. -/
lemma RunsAgree.within (ih : s.RunsAgree d d' fuel loops)
    (hc : s.check .raising (st.push name) = .ok t st') (hf : s.Fits loops inside)
    (hin : ∀ x ∈ inside, st.table.contains x = true) (h : Agree (Readable loops inside st.table) m n) :
    EndAlike (withinBy d scope (s.execBy d fuel) m) (withinBy d' scope (s.execBy d' fuel) n)
      (fun _ => Agree (Readable loops inside st.table))
      (fun _ => Agree (Readable loops inside st.table)) := by
  have hw := s.widensTable _ _ _ _ hc
  refine agree_within h (fun _ => readable_of_widens hw) (s.evolves d fuel) (s.evolves d' fuel)
    (agree_pushed name h fun m n h => ?_)
  exact ih hc hf (by simpa using hin) h

/-- A round of a loop with a condition. -/
lemma RunsAgree.round (ih : s.RunsAgree d d' fuel loops)
    (hc : s.check .raising (st.push name) = .ok t st') (hf : s.Fits loops inside)
    (hin : ∀ x ∈ inside, st.table.contains x = true) (h : Agree (Readable loops inside st.table) m n) :
    EndAlike (roundBy d scope (s.execBy d fuel) m) (roundBy d' scope (s.execBy d' fuel) n)
      (fun _ => Agree (Readable loops inside st.table))
      (fun _ => Agree (Readable loops inside st.table)) := by
  have hw := s.widensTable _ _ _ _ hc
  refine agree_round h (fun _ => readable_of_widens hw) (s.evolves d fuel) (s.evolves d' fuel)
    (agree_pushed name h fun m n h => ?_)
  exact ih hc hf (by simpa using hin) h

end

lemma runsAgree_block {body : List Stmt} (ih : Stmt.RunAgree d d' fuel loops body) :
    (Stmt.block span body).RunsAgree d d' fuel loops := by
  intro inside st st' t m n hc hf hin h
  obtain ⟨st₁, hb, rfl⟩ := Stmt.check_block hc
  have hw := Stmt.widensTable_all _ body _ _ _ hb
  simp only [Stmt.execBy]
  rw [readable_pop hw]
  refine EndAlike.bind (agree_within h (fun _ => readable_of_widens hw)
    (Stmt.evolves_all d fuel body) (Stmt.evolves_all d' fuel body)
    (agree_pushed "program" h fun m n h => ?_)) fun _ m n h => ⟨rfl, h⟩
  exact ih hb hf.block (by simpa using hin) h

lemma runsAgree_whileLoop {body : Stmt} (ih : body.RunsAgree d d' fuel loops) :
    (Stmt.whileLoop span condition body).RunsAgree d d' fuel loops := by
  intro inside st st' t m n hc hf hin h
  obtain ⟨st₁, st₂, t₂, hcond, hb, rfl⟩ := Stmt.check_whileLoop hc
  have htable : st₁.table = st.table := condition.keepsTable _ _ _ _ hcond
  have hread := readable_of_check hcond hf.whileLoop.1
  rw [readable_pop (body.widensTable _ _ _ _ hb), htable]
  simp only [Stmt.execBy]
  refine EndAlike.bind (alike_repeatWhile (fun m n h => ?_) (fun m n h => ?_) fuel m n h)
    fun _ m n h => ⟨rfl, h⟩
  · exact Blind.agree h (blind_test condition (h.get?_eq hread))
  · rw [← htable] at h hin ⊢
    exact ih.round hb hf.whileLoop.2 hin h

lemma runsAgree_forLoop {id : String} {idSpan : Span} {range : Expr} {body : Stmt}
    (ih : body.RunsAgree d d' fuel loops) :
    (Stmt.forLoop span id idSpan range body).RunsAgree d d' fuel loops := by
  intro inside st st' t m n hc hf hin h
  obtain ⟨t₁, st₁, st₂, t₂, hrange, hb, rfl⟩ := Stmt.check_forLoop hc
  obtain ⟨hid, hfrange, hfbody⟩ := hf.forLoop
  have htable : st₁.table = st.table := range.keepsTable _ _ _ _ hrange
  have hread := readable_of_check hrange hfrange
  have hw := body.widensTable _ _ _ _ hb
  rw [← htable] at hin
  rw [readable_after_forLoop hid hin hw, htable]
  simp only [Stmt.execBy]
  refine (Blind.agree h (range.blind (h.get?_eq hread))).bind fun v m n h => ?_
  refine (Blind.agree h (blind_ofStore _)).bind fun items m n h => ?_
  refine EndAlike.bind (alike_repeatFrom (fun i m n h => ?_) items.1 0 m n h)
    fun _ m n h => ⟨rfl, h⟩
  rw [← htable] at h ⊢
  refine agree_round_bindItem hw (body.evolves d fuel) (body.evolves d' fuel) h fun m n h => ?_
  exact ih hb hfbody (contains_in_forLoop hin) h

lemma runsAgree_ifThen {yes : Stmt} (ih : yes.RunsAgree d d' fuel loops) :
    (Stmt.ifThen span condition yes).RunsAgree d d' fuel loops := by
  intro inside st st' t m n hc hf hin h
  obtain ⟨st₁, st₂, t₂, hcond, hy, rfl⟩ := Stmt.check_ifThen hc
  have htable : st₁.table = st.table := condition.keepsTable _ _ _ _ hcond
  have hread := readable_of_check hcond hf.ifThen.1
  rw [readable_pop (yes.widensTable _ _ _ _ hy), htable]
  simp only [Stmt.execBy]
  refine (Blind.agree h (blind_test condition (h.get?_eq hread))).bind fun b m n h => ?_
  rw [← htable] at h hin ⊢
  cases b with
  | false => exact ⟨rfl, h⟩
  | true => exact EndAlike.bind (ih.within hy hf.ifThen.2 hin h) fun _ m n h => ⟨rfl, h⟩

lemma runsAgree_ifElse {yes no : Stmt} (ihYes : yes.RunsAgree d d' fuel loops)
    (ihNo : no.RunsAgree d d' fuel loops) :
    (Stmt.ifElse span condition yes no).RunsAgree d d' fuel loops := by
  intro inside st st' t m n hc hf hin h
  obtain ⟨st₁, st₂, t₂, st₃, t₃, hcond, hy, hn, rfl⟩ := Stmt.check_ifElse hc
  have htable : st₁.table = st.table := condition.keepsTable _ _ _ _ hcond
  have hread := readable_of_check hcond hf.ifElse.1
  have hwy := yes.widensTable _ _ _ _ hy
  have hnames : Readable loops inside st₂.pop.table = Readable loops inside st₁.table :=
    readable_pop hwy
  rw [readable_pop (no.widensTable _ _ _ _ hn), hnames, htable]
  simp only [Stmt.execBy]
  refine (Blind.agree h (blind_test condition (h.get?_eq hread))).bind fun b m n h => ?_
  rw [← htable] at h hin ⊢
  cases b with
  | false =>
    rw [← hnames] at h ⊢
    refine EndAlike.bind (ihNo.within hn hf.ifElse.2.2 (fun x hx => ?_) h) fun _ m n h => ⟨rfl, h⟩
    rw [State.table_pop, hwy.pop.contains x]
    exact hin x hx
  | true => exact EndAlike.bind (ihYes.within hy hf.ifElse.2.1 hin h) fun _ m n h => ⟨rfl, h⟩

lemma runAgree_cons {s : Stmt} {ss : List Stmt} (ih : s.RunsAgree d d' fuel loops)
    (ihs : Stmt.RunAgree d d' fuel loops ss) : Stmt.RunAgree d d' fuel loops (s :: ss) := by
  intro inside st st' m n hc hf hin h
  obtain ⟨t₁, st₁, hs, hss⟩ := Stmt.checkAll_cons hc
  have hw := (s.widensTable _ _ _ _ hs).grows
  have hrun := ih hs hf.cons.1 hin h
  simp only [Stmt.execAllBy]
  cases hx : s.execBy d fuel m <;> cases hy : s.execBy d' fuel n <;> rw [hx, hy] at hrun
  · have hrest := ihs hss hf.cons.2 (fun x hx => hw.contains (hin x hx)) hrun.2
    exact hrest.imp (fun _ _ _ h => h) fun _ _ _ h => h.mono fun x hx => hx.mono hw
  · exact hrun.elim
  · exact hrun.elim
  · exact hrun

end Stmt

mutual

theorem Stmt.runs_agree (d d' : Leaving) (fuel : Nat) (loops : List String) :
    (s : Stmt) → s.RunsAgree d d' fuel loops
  | .block _ body => runsAgree_block (Stmt.runs_agree_all d d' fuel loops body)
  | .assign _ target value => by
    intro inside st st' t m n hc hf hin h
    simp only [Stmt.execBy]
    exact (agree_assign (Stmt.check_assign hc) hf.free h).bind fun _ m n h => ⟨rfl, h⟩
  | .update _ symbol target value => by
    intro inside st st' t m n hc hf hin h
    simp only [Stmt.execBy]
    exact (agree_update (Stmt.check_update hc) hf.free h).bind fun _ m n h => ⟨rfl, h⟩
  | .instruction _ name arguments => by
    intro inside st st' t m n hc hf hin h
    obtain ⟨-, ts, hts⟩ := Stmt.check_instruction hc
    have hread := readable_of_checkAll hts hf.free
    rw [Expr.keepsTable_all _ _ _ _ _ hts]
    simp only [Stmt.execBy]
    refine (Blind.agree h (Expr.blind_all arguments (h.get?_eq hread))).bind fun vs m n h => ?_
    exact Blind.agree h (blind_apply _ _)
  | .whileLoop _ _ body => runsAgree_whileLoop (Stmt.runs_agree d d' fuel loops body)
  | .forLoop _ _ _ _ body => runsAgree_forLoop (Stmt.runs_agree d d' fuel loops body)
  | .ifThen _ _ yes => runsAgree_ifThen (Stmt.runs_agree d d' fuel loops yes)
  | .ifElse _ _ yes no =>
    runsAgree_ifElse (Stmt.runs_agree d d' fuel loops yes) (Stmt.runs_agree d d' fuel loops no)
  | .expr e => by
    intro inside st st' t m n hc hf hin h
    simp only [Stmt.check] at hc
    have hread := readable_of_check hc hf.free
    rw [e.keepsTable _ _ _ _ hc]
    simp only [Stmt.execBy]
    exact Blind.agree h (e.blind (h.get?_eq hread))

theorem Stmt.runs_agree_all (d d' : Leaving) (fuel : Nat) (loops : List String) :
    (ss : List Stmt) → Stmt.RunAgree d d' fuel loops ss
  | [] => by
    intro inside st st' m n hc hf hin h
    simp only [Stmt.checkAll] at hc
    cases hc
    simp only [Stmt.execAllBy]
    exact ⟨rfl, h⟩
  | s :: ss =>
    runAgree_cons (Stmt.runs_agree d d' fuel loops s) (Stmt.runs_agree_all d d' fuel loops ss)

end

/-- What can be seen of a run: its value or why it stopped, what it has printed, and the elements of
the arrays that its value may be or hold. -/
def Run.seen (result : EStateM.Result Run.Stop Machine Value) :
    Except Run.Stop Value × String × Store :=
  match result with
  | .ok v m => (.ok v, m.output, m.store)
  | .error stop m => (.error stop, m.output, m.store)

/-- That scopes stay in memory when they are left by a jump or an error cannot be seen: on a new
machine an accepted script, whose loop names occur only in bodies of loops over them, prints the
same, gives back the same value, stops for the same reason or goes on as long, as it does when
every scope is removed however it is left. -/
theorem Stmt.seen_run_eq_remove {s : Stmt} {t : Ty} {st : Typing.State}
    (hc : s.check .raising {} = .ok t st) (hl : s.LoopNamesLocal) (fuel : Nat) :
    seen (s.run fuel {}) = seen (s.runBy .remove fuel {}) := by
  have hempty : Agree (Readable s.loopNames [] Scopes.empty) {} {} :=
    ⟨rfl, rfl, fun x hx => absurd hx.1 (by simp), Scopes.separate_empty, Scopes.separate_empty⟩
  have hrun := s.runs_agree .keep .remove fuel s.loopNames hc hl.fits (by simp) hempty
  rw [← Stmt.runBy_keep]
  unfold Stmt.runBy
  cases hx : s.execBy .keep fuel {} <;> cases hy : s.execBy .remove fuel {} <;> rw [hx, hy] at hrun
  · obtain ⟨rfl, h⟩ := hrun
    simp only [seen, h.store, h.output]
  · exact hrun.elim
  · exact hrun.elim
  · obtain ⟨rfl, h⟩ := hrun
    rename_i stop _ _
    cases stop <;> simp only [seen, h.store, h.output]

/-- Counts in a `for` loop inside a loop without end. It skips one, and leaves the outer loop at two
from inside three scopes. -/
def skippingScript : Stmt :=
  let at1 : Span := ⟨1, 1⟩
  let i : Expr := .name at1 "i"
  let n : Expr := .name at1 "n"
  let int (k : Int) : Expr := .constant at1 (.int k)
  .block at1 [
    .assign at1 n (int 0),
    .whileLoop at1 (.constant at1 (.bool true)) (.block at1 [
      .forLoop at1 "i" at1 (.range at1 (int 0) (int 3)) (.block at1 [
        .ifThen at1 (.operator at1 "==" [i, int 1]) (.block at1 [.instruction at1 "continue" []]),
        .assign at1 n (.operator at1 "+" [n, i])]),
      .assign at1 (.name at1 "k") n,
      .ifThen at1 (.operator at1 "==" [.name at1 "k", int 2]) (.instruction at1 "break" [])]),
    .instruction at1 "return" [n]]

theorem seen_run_skippingScript : skippingScript.check .raising {} = .ok .none {} ∧
    skippingScript.LoopNamesLocal ∧
    ∀ fuel, seen (skippingScript.run fuel {}) = seen (skippingScript.runBy .remove fuel {}) := by
  have hc : skippingScript.check .raising {} = .ok .none {} := by cbv
  have hl : skippingScript.LoopNamesLocal := by decide
  exact ⟨hc, hl, Stmt.seen_run_eq_remove hc hl⟩

end MatScript
