import NameResolution.Misuse

/-!
# Laws of operations

An operation gives a result and a new state, also when it is refused.

* `WhenOk`: a property of a result that is no error.
* `Op.bind_apply` and its like: what operations do to a state, step by step.
* `Op.bind_eq_ok`: an operation that succeeds does so in all its steps.
* `Op.Succeeds`: from good states an operation is never refused, and leads to good states again.
* `Op.Ensures`: from good states an operation that is not refused leads to good states again.
* `Moves`, `Op.Obeys`: the states before and after an operation are always in some relation. For a
  relation that is reflexive and transitive it is enough that each step obeys it (`Obeys.bind`).
* `Op.Triple`: what an operation leads to from given states, also when it is refused on the way.
* `Op.Keeps`: from good states an operation leads to good states again, even where it is refused.
-/

namespace NameResolution

/-- A `result` has the property unless it is an error. -/
def WhenOk {ε α : Type} (P : α → Prop) (result : Except ε α) : Prop :=
  ∀ value, result = .ok value → P value

@[simp] theorem whenOk_ok {ε α : Type} {P : α → Prop} {value : α} :
    WhenOk P (.ok value : Except ε α) ↔ P value :=
  ⟨fun holds => holds value rfl, fun holds _ same => Except.ok.inj same ▸ holds⟩

@[simp] theorem whenOk_error {ε α : Type} {P : α → Prop} {error : ε} :
    WhenOk P (.error error : Except ε α) := fun _ same => nomatch same

section StateM

variable {σ α β : Type}

@[simp] theorem stateM_bind_apply (op : StateM σ α) (next : α → StateM σ β) (state : σ) :
    (op >>= next) state = next (op state).1 (op state).2 := rfl

@[simp] theorem stateM_map_apply (f : α → β) (op : StateM σ α) (state : σ) :
    (f <$> op) state = (f (op state).1, (op state).2) := rfl

@[simp] theorem stateM_pure_apply (value : α) (state : σ) :
    (pure value : StateM σ α) state = (value, state) := rfl

@[simp] theorem stateM_get_apply (state : σ) : (get : StateM σ σ) state = (state, state) := rfl

@[simp] theorem stateM_set_apply (next state : σ) :
    (set next : StateM σ Unit) state = ((), next) := rfl

@[simp] theorem stateM_modify_apply (f : σ → σ) (state : σ) :
    (modify f : StateM σ Unit) state = ((), f state) := rfl

/-- The `state` after the operation is always in the relation to the state before. -/
def Moves (rel : σ → σ → Prop) (op : StateM σ α) : Prop := ∀ state, rel state (op state).2

namespace Moves

variable {rel : σ → σ → Prop}

theorem pure [Std.Refl rel] (value : α) : Moves rel (Pure.pure value) := fun state =>
  Std.Refl.refl state

theorem bind [Trans rel rel rel] {op : StateM σ α} {next : α → StateM σ β} (first : Moves rel op)
    (rest : ∀ value, Moves rel (next value)) : Moves rel (op >>= next) :=
  fun state => Trans.trans (first state) (rest _ _)

end Moves

end StateM

namespace Op

variable {σ τ α β : Type}

@[simp] theorem bind_apply (op : Op σ α) (next : α → Op σ β) (state : σ) :
    (op >>= next) state =
      match op state with
      | (.ok value, state) => next value state
      | (.error misuse, state) => (.error misuse, state) := by
  simp only [bind, ExceptT.bind, ExceptT.mk, StateT.bind]
  rcases op state with ⟨_ | _, _⟩ <;> rfl

@[simp] theorem map_apply (f : α → β) (op : Op σ α) (state : σ) :
    (f <$> op) state = ((op state).1.map f, (op state).2) := by
  simp only [Functor.map, ExceptT.map, ExceptT.mk, bind, StateT.bind]
  rcases op state with ⟨_ | _, _⟩ <;> rfl

@[simp] theorem pure_apply (value : α) (state : σ) :
    (pure value : Op σ α) state = (.ok value, state) := rfl

@[simp] theorem throw_apply (misuse : Misuse) (state : σ) :
    (throw misuse : Op σ α) state = (.error misuse, state) := rfl

@[simp] theorem get_apply (state : σ) : (get : Op σ σ) state = (.ok state, state) := rfl

@[simp] theorem set_apply (next state : σ) : (set next : Op σ Unit) state = (.ok (), next) := rfl

@[simp] theorem modify_apply (f : σ → σ) (state : σ) :
    (modify f : Op σ Unit) state = (.ok (), f state) := rfl

@[simp] theorem lift_apply (op : StateM σ α) (state : σ) :
    (ExceptT.lift op : Op σ α) state = (.ok (op state).1, (op state).2) := rfl

@[simp] theorem liftM_apply (op : StateM σ α) (state : σ) :
    (liftM op : Op σ α) state = (.ok (op state).1, (op state).2) := rfl

@[simp] theorem ofExcept_apply (result : Except Misuse α) (state : σ) :
    ofExcept result state = (result, state) := rfl

@[simp] theorem runOn_eq (op : Op σ α) (state : σ) : op.runOn state = op state := rfl

@[simp] theorem onPart_apply (part : σ → τ) (replace : σ → τ → σ) (op : Op τ α) (state : σ) :
    (onPart part replace op : Op σ α) state =
      ((op (part state)).1, replace state (op (part state)).2) := rfl

/-! ## Operations that succeed -/

theorem bind_eq_ok {op : Op σ α} {next : α → Op σ β} {before after : σ} {value : β} :
    (op >>= next) before = (.ok value, after) ↔
      ∃ middle state, op before = (.ok middle, state) ∧ next middle state = (.ok value, after) := by
  rw [bind_apply]
  constructor
  · intro ran
    split at ran
    · exact ⟨_, _, ‹_›, ran⟩
    · cases ran
  · rintro ⟨middle, state, first, rest⟩
    rw [first]
    exact rest

theorem map_eq_ok {op : Op σ α} {f : α → β} {before after : σ} {value : β} :
    (f <$> op) before = (.ok value, after) ↔
      ∃ middle, op before = (.ok middle, after) ∧ f middle = value := by
  rw [map_apply]
  rcases op before with ⟨misuse | middle, state⟩
  · constructor
    · intro ran
      cases ran
    · rintro ⟨_, ran, -⟩
      cases ran
  · constructor
    · intro ran
      cases ran
      exact ⟨_, rfl, rfl⟩
    · rintro ⟨_, ran, rfl⟩
      cases ran
      rfl

/-! ## Operations that are never refused -/

/-- From a state with the invariant `inv` the operation `op` is never refused; the state after it
has the invariant again, and its value has the property `P`. -/
def Succeeds (inv : σ → Prop) (op : Op σ α) (P : α → Prop) : Prop :=
  ∀ before, inv before → ∃ value after, op before = (.ok value, after) ∧ inv after ∧ P value

namespace Succeeds

variable {inv : σ → Prop} {op : Op σ α} {P : α → Prop} {Q : β → Prop}

theorem pure {value : α} (holds : P value) : Succeeds inv (Pure.pure value) P :=
  fun before good => ⟨value, before, rfl, good, holds⟩

theorem get : Succeeds inv (MonadState.get : Op σ σ) inv :=
  fun before good => ⟨before, before, rfl, good, good⟩

theorem modify {f : σ → σ} (keeps : ∀ state, inv state → inv (f state)) :
    Succeeds inv (modify f : Op σ Unit) fun _ => True :=
  fun before good => ⟨(), f before, rfl, keeps before good, trivial⟩

theorem bind {next : α → Op σ β} (first : Succeeds inv op P)
    (rest : ∀ value, P value → Succeeds inv (next value) Q) : Succeeds inv (op >>= next) Q := by
  intro before good
  obtain ⟨value, middle, ran, kept, holds⟩ := first before good
  obtain ⟨result, after, ran', kept', holds'⟩ := rest value holds middle kept
  exact ⟨result, after, bind_eq_ok.mpr ⟨value, middle, ran, ran'⟩, kept', holds'⟩

theorem map {f : α → β} (succeeds : Succeeds inv op P) (image : ∀ value, P value → Q (f value)) :
    Succeeds inv (f <$> op) Q := by
  intro before good
  obtain ⟨value, after, ran, kept, holds⟩ := succeeds before good
  exact ⟨f value, after, map_eq_ok.mpr ⟨value, ran, rfl⟩, kept, image value holds⟩

theorem lift {op : StateM σ α} (keeps : ∀ state, inv state → inv (op state).2 ∧ P (op state).1) :
    Succeeds inv (ExceptT.lift op) P :=
  fun before good => ⟨_, _, rfl, keeps before good⟩

/-- An operation on a part of the `state` succeeds where the part is good. -/
theorem onPart {part : σ → τ} {replace : σ → τ → σ} {own : τ → Prop} {op : Op τ α}
    (inside : ∀ state, inv state → own (part state))
    (back : ∀ state next, inv state → own next → inv (replace state next))
    (succeeds : Succeeds own op P) : Succeeds inv (Op.onPart part replace op) P := by
  intro before good
  obtain ⟨value, after, ran, kept, holds⟩ := succeeds (part before) (inside before good)
  refine ⟨value, replace before after, ?_, back before after good kept, holds⟩
  rw [onPart_apply, ran]

end Succeeds

/-! ## Operations that may be refused -/

/-- From a state with the invariant `inv`, unless the operation `op` is refused, the state after it
has the invariant again, and its value has the property `P`. -/
def Ensures (inv : σ → Prop) (op : Op σ α) (P : α → Prop) : Prop :=
  ∀ before, inv before → ∀ value after, op before = (.ok value, after) → inv after ∧ P value

namespace Ensures

variable {inv : σ → Prop} {op : Op σ α} {P : α → Prop} {Q : β → Prop}

theorem pure {value : α} (holds : P value) : Ensures inv (Pure.pure value) P := by
  intro before good value after ran
  cases ran
  exact ⟨good, holds⟩

theorem bind {next : α → Op σ β} (first : Ensures inv op P)
    (rest : ∀ value, P value → Ensures inv (next value) Q) : Ensures inv (op >>= next) Q := by
  intro before good value after ran
  obtain ⟨middle, state, ran, ran'⟩ := bind_eq_ok.mp ran
  obtain ⟨kept, holds⟩ := first before good middle state ran
  exact rest middle holds state kept value after ran'

theorem imp {P' : α → Prop} (ensures : Ensures inv op P)
    (weaker : ∀ value, P value → P' value) : Ensures inv op P' :=
  fun before good value after ran =>
    (ensures before good value after ran).imp_right (weaker value)

/-- The `value` is one that the operation can give in a state with the invariant. -/
theorem and_ran (ensures : Ensures inv op P) : Ensures inv op fun value =>
    P value ∧ ∃ before after, inv before ∧ op before = (.ok value, after) :=
  fun before good value after ran =>
    (ensures before good value after ran).imp_right fun holds =>
      ⟨holds, before, after, good, ran⟩

end Ensures

/-! ## Relations between the states before and after an operation -/

/-- The `state` after the operation is always in the relation to the state before. -/
def Obeys (rel : σ → σ → Prop) (op : Op σ α) : Prop := ∀ state, rel state (op state).2

namespace Obeys

variable {rel : σ → σ → Prop}

theorem of_same [Std.Refl rel] {op : Op σ α} (same : ∀ state, (op state).2 = state) :
    Obeys rel op := by
  intro state
  rw [same]
  exact Std.Refl.refl state

theorem pure [Std.Refl rel] (value : α) : Obeys rel (Pure.pure value) := of_same fun _ => rfl

theorem get [Std.Refl rel] : Obeys rel (MonadState.get : Op σ σ) := of_same fun _ => rfl

theorem bind [Trans rel rel rel] {op : Op σ α} {next : α → Op σ β} (first : Obeys rel op)
    (rest : ∀ value, Obeys rel (next value)) : Obeys rel (op >>= next) := by
  intro state
  have before := first state
  rw [bind_apply]
  rcases found : op state with ⟨misuse | value, middle⟩
  · simpa [found] using before
  · have after := rest value middle
    rw [found] at before
    exact Trans.trans before after

theorem map {op : Op σ α} {f : α → β} (obeys : Obeys rel op) : Obeys rel (f <$> op) := by
  intro state
  rw [map_apply]
  exact obeys state

end Obeys

/-! ## Triples -/

/-- What has come of an operation: if it was not refused, its `value` and the state are as wanted,
and otherwise the state is still good enough. -/
def Lands (post : α → σ → Prop) (refused : σ → Prop) : Except Misuse α × σ → Prop
  | (.ok value, after) => post value after
  | (.error _, after) => refused after

/-- From a state with the precondition `pre` the operation `op` leads to a value and a state as
`post` wants them, or it is `refused` in a state that is still good enough. -/
def Triple (pre : σ → Prop) (op : Op σ α) (post : α → σ → Prop) (refused : σ → Prop) : Prop :=
  ∀ before, pre before → Lands post refused (op before)

namespace Triple

variable {pre refused : σ → Prop} {op : Op σ α} {post : α → σ → Prop} {goal : β → σ → Prop}

theorem ret {value : α} (holds : ∀ state, pre state → post value state) :
    Triple pre (pure value) post refused := holds

/-- What is true of the `state` after the operation, whether it was refused or not, is kept. -/
theorem invariant (keeps : ∀ state, pre state → pre (op state).2) :
    Triple pre op (fun _ => pre) pre := by
  intro before holds
  have after := keeps before holds
  rcases found : op before with ⟨misuse | value, state⟩
  all_goals
    rw [found] at after
    exact after

theorem bind {next : α → Op σ β} (first : Triple pre op post refused)
    (rest : ∀ value, Triple (post value) (next value) goal refused) :
    Triple pre (op >>= next) goal refused := by
  intro before holds
  have middle := first before holds
  rw [bind_apply]
  rcases found : op before with ⟨misuse | value, state⟩
  all_goals rw [found] at middle
  · exact middle
  · exact rest value state middle

theorem conseq {pre' refused' : σ → Prop} {post' : α → σ → Prop}
    (triple : Triple pre op post refused) (stronger : ∀ state, pre' state → pre state)
    (weaker : ∀ value state, post value state → post' value state)
    (enough : ∀ state, refused state → refused' state) : Triple pre' op post' refused' := by
  intro before holds
  have middle := triple before (stronger before holds)
  rcases found : op before with ⟨misuse | value, state⟩
  all_goals rw [found] at middle
  · exact enough state middle
  · exact weaker value state middle

theorem weaken {post' : α → σ → Prop} (triple : Triple pre op post refused)
    (weaker : ∀ value state, post value state → post' value state) :
    Triple pre op post' refused :=
  triple.conseq (fun _ => id) weaker fun _ => id

/-- What has nothing to do with the `state` stays true. -/
theorem frame (fact : Prop) (triple : Triple pre op post refused) :
    Triple (fun state => pre state ∧ fact) op (fun value state => post value state ∧ fact)
      (fun state => refused state ∧ fact) := by
  intro before ⟨holds, sure⟩
  have middle := triple before holds
  rcases found : op before with ⟨misuse | value, state⟩
  all_goals
    rw [found] at middle
    exact ⟨middle, sure⟩

theorem map {f : α → β} (triple : Triple pre op (fun value => goal (f value)) refused) :
    Triple pre (f <$> op) goal refused := by
  rw [← bind_pure_comp]
  exact triple.bind fun value => .ret fun _ => id

end Triple

/-! ## Invariants -/

/-- From a state with the invariant `inv` the operation `op` leads to a state with it again, even
where it is refused. If it is not, its value has the property `P`. -/
def Keeps (inv : σ → Prop) (op : Op σ α) (P : α → Prop) : Prop :=
  Triple inv op (fun value state => inv state ∧ P value) inv

namespace Keeps

variable {inv : σ → Prop} {op : Op σ α} {P : α → Prop} {Q : β → Prop}

theorem pure {value : α} (holds : P value) : Keeps inv (Pure.pure value) P :=
  .ret fun _ good => ⟨good, holds⟩

theorem get : Keeps inv (MonadState.get : Op σ σ) inv := fun _ good => ⟨good, good⟩

theorem bind {next : α → Op σ β} (first : Keeps inv op P)
    (rest : ∀ value, P value → Keeps inv (next value) Q) : Keeps inv (op >>= next) Q :=
  Triple.bind first fun value state ⟨good, holds⟩ => rest value holds state good

theorem imp {P' : α → Prop} (keeps : Keeps inv op P) (weaker : ∀ value, P value → P' value) :
    Keeps inv op P' :=
  Triple.weaken keeps fun value _ both => both.imp_right (weaker value)

theorem map {f : α → β} (keeps : Keeps inv op P) (image : ∀ value, P value → Q (f value)) :
    Keeps inv (f <$> op) Q := by
  rw [← bind_pure_comp]
  exact keeps.bind fun value holds => .pure (image value holds)

/-- The states (`kept`) and the values (`gives`) can be looked at one after the other. -/
theorem of_run (kept : ∀ state, inv state → inv (op state).2)
    (gives : ∀ state, inv state → WhenOk P (op state).1) : Keeps inv op P := by
  intro before good
  have after := kept before good
  have value := gives before good
  rcases found : op before with ⟨misuse | result, state⟩
  all_goals rw [found] at after value
  · exact after
  · exact ⟨after, value result rfl⟩

theorem ensures (keeps : Keeps inv op P) : Ensures inv op P := by
  intro before good value after ran
  have lands := keeps before good
  rw [ran] at lands
  exact lands

/-- Only the `state` is of interest. -/
theorem of_state (kept : ∀ state, inv state → inv (op state).2) :
    Keeps inv op fun _ => True :=
  .of_run kept fun _ _ _ _ => trivial

theorem after (keeps : Keeps inv op P) {state : σ} (good : inv state) : inv (op state).2 := by
  have lands := keeps state good
  rcases found : op state with ⟨misuse | value, next⟩
  all_goals rw [found] at lands
  · exact lands
  · exact lands.1

theorem whenOk (keeps : Keeps inv op P) {state : σ} (good : inv state) :
    WhenOk P (op state).1 := by
  intro value same
  have lands := keeps state good
  rcases found : op state with ⟨misuse | result, next⟩
  all_goals rw [found] at lands same
  · cases same
  · obtain rfl := Except.ok.inj same
    exact lands.2

end Keeps

end Op

end NameResolution
