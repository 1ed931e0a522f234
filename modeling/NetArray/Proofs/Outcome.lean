import Mathlib
import NetArray.Array.Error

/-!
# Reading the outcome of an operation

Operations are written in three monads: `Checked` may fault, `Attempt` may also refuse, `Change` also
carries a state. A proof about an operation takes its run apart at each `←`, and the lemmas of this file
are what it takes the run apart with.

* `bind_eq_ok` and `change_bind_eq_ok` split a run that answered into the runs of its two halves.
* The `lift` lemmas say that lifting from one monad into the next changes neither the answer nor the
  state.
* `Keeps` is the other reading: a relation between the state before and the state after *whatever* the
  outcome is. It is closed under sequencing (`Keeps.bind`), so that it is proved of a long operation by
  following its text.
* `Faultless` is about faults only: a run without one answers or refuses.
* `Answers` is about operations that must not fail: from every state of a kind they give a certain answer, and leave a
  state of another kind. A loop has an invariant (`Answers.forM`).
* `Spares` is about refusals only: they leave the state as it was. The checks of an operation come first
  (`Spares.guard`), and what follows them answers or faults (`NeverRefuses`).
* `RefusesFor` is about the causes of refusals. It is closed under sequencing as `Keeps` is.
-/

namespace NetArray

variable {σ ε ε' α β : Type}

/-! ### Computations without a state -/

/-- A sequence answers just when both halves do. -/
@[simp] theorem bind_eq_ok {x : Except ε α} {f : α → Except ε β} {b : β} :
    (x >>= f) = .ok b ↔ ∃ a, x = .ok a ∧ f a = .ok b := by
  cases x with
  | ok a => exact ⟨fun h => ⟨a, rfl, h⟩, fun ⟨_, h, h'⟩ => by cases h; exact h'⟩
  | error e => exact ⟨fun h => (nomatch h), fun ⟨_, h, _⟩ => (nomatch h)⟩

/-- A sequence fails just when one of its halves does. -/
theorem bind_eq_error {x : Except ε α} {f : α → Except ε β} {e : ε} :
    (x >>= f) = .error e ↔ x = .error e ∨ ∃ a, x = .ok a ∧ f a = .error e := by
  cases x <;> simp [bind, Except.bind]

@[simp] theorem pure_eq_ok {a b : α} : (pure a : Except ε α) = .ok b ↔ a = b :=
  ⟨fun h => Except.ok.inj h, fun h => congrArg _ h⟩

@[simp] theorem throw_eq_ok {e : ε} {a : α} : (throw e : Except ε α) = .ok a ↔ False :=
  ⟨fun h => (nomatch h), False.elim⟩

@[simp] theorem lift_checked_eq_ok {x : Checked α} {a : α} :
    (liftM x : Attempt ε α) = .ok a ↔ x = .ok a := by
  cases x with
  | ok b => exact ⟨fun h => congrArg _ (Except.ok.inj h), fun h => congrArg _ (Except.ok.inj h)⟩
  | error e => exact ⟨fun h => (nomatch h), fun h => (nomatch h)⟩

theorem lift_checked_bind (x : Checked α) (f : α → Checked β) :
    (liftM (x >>= f) : Attempt ε β) = liftM x >>= fun a => liftM (f a) := by
  cases x <;> rfl

@[simp] theorem lift_index_eq_ok {x : Attempt IndexError α} {a : α} :
    (liftM x : Attempt ArrayError α) = .ok a ↔ x = .ok a := by
  cases x with
  | ok b => exact ⟨fun h => congrArg _ (Except.ok.inj h), fun h => congrArg _ (Except.ok.inj h)⟩
  | error e => exact ⟨fun h => (nomatch h), fun h => (nomatch h)⟩

@[simp] theorem lift_shape_eq_ok {x : Attempt ShapeError α} {a : α} :
    (liftM x : Attempt ArrayError α) = .ok a ↔ x = .ok a := by
  cases x with
  | ok b => exact ⟨fun h => congrArg _ (Except.ok.inj h), fun h => congrArg _ (Except.ok.inj h)⟩
  | error e => exact ⟨fun h => (nomatch h), fun h => (nomatch h)⟩

theorem sized_eq_ok {n m : Nat} : sized n = .ok m ↔ n < sizeBound ∧ n = m := by
  unfold sized
  split <;> simp [*]

theorem word_eq_ok {n m : Nat} : word n = .ok m ↔ n < wordBound ∧ n = m := by
  unfold word
  split <;> simp [*]

theorem lowWord_lt (n : Nat) : lowWord n < wordBound :=
  Nat.mod_lt _ (by decide)

/-- Nothing is lost of a number that fits. -/
theorem lowWord_of_lt {n : Nat} (h : n < wordBound) : lowWord n = n :=
  Nat.mod_eq_of_lt h

theorem addressable_eq_ok {bytes n m : Nat} :
    addressable bytes n = .ok m ↔ n * bytes < signedBound ∧ n = m := by
  unfold addressable
  split <;> simp [*]

theorem signedBound_lt_sizeBound : signedBound < sizeBound := by decide

theorem wordBound_lt_sizeBound : wordBound < sizeBound := by decide

theorem itemAt_eq_ok {items : List α} {position : Nat} {a : α} :
    itemAt items position = .ok a ↔ items[position]? = some a := by
  unfold itemAt
  split <;> simp [*]

/-! ### Running over lists -/

/-- Items that all have a partner make two related lists. -/
theorem exists_forall₂ {R : α → β → Prop} {xs : List α} (h : ∀ x ∈ xs, ∃ y, R x y) :
    ∃ ys, List.Forall₂ R xs ys := by
  induction xs with
  | nil => exact ⟨[], .nil⟩
  | cons x xs ih =>
    obtain ⟨⟨y, hy⟩, hxs⟩ := List.forall_mem_cons.mp h
    obtain ⟨ys, hys⟩ := ih hxs
    exact ⟨y :: ys, .cons hy hys⟩

/-- Items at the same place are related. -/
theorem forall₂_getElem? {R : α → β → Prop} {xs : List α} {ys : List β} (h : List.Forall₂ R xs ys)
    {place : Nat} {x : α} (hx : xs[place]? = some x) : ∃ y, ys[place]? = some y ∧ R x y := by
  obtain ⟨hplace, rfl⟩ := List.getElem?_eq_some_iff.mp hx
  have hplace' : place < ys.length := by rwa [← h.length_eq]
  exact ⟨ys[place], List.getElem?_eq_getElem hplace', h.get hplace hplace'⟩

/-- Where a relation is a function, so is its extension to lists. -/
theorem forall₂_det {R S : α → β → Prop} {as : List α} {bs bs' : List β}
    (hR : List.Forall₂ R as bs) (hS : List.Forall₂ S as bs')
    (h : ∀ a b b', R a b → S a b' → b = b') : bs = bs' := by
  induction hR generalizing bs' with
  | nil => exact (List.forall₂_nil_left_iff.mp hS).symm
  | cons hab _ ih =>
    obtain ⟨b', rest, hab', hrest, rfl⟩ := List.forall₂_cons_left_iff.mp hS
    rw [h _ _ _ hab hab', ih hrest]

/-- Relations that agree on the items of a list relate it to the same lists. -/
theorem forall₂_congr_of_mem {R S : α → β → Prop} {xs : List α} {ys : List β}
    (h : ∀ x ∈ xs, ∀ y, R x y ↔ S x y) : List.Forall₂ R xs ys ↔ List.Forall₂ S xs ys := by
  induction xs generalizing ys with
  | nil => rw [List.forall₂_nil_left_iff, List.forall₂_nil_left_iff]
  | cons x xs ih =>
    obtain ⟨hx, hxs⟩ := List.forall_mem_cons.mp h
    simp only [List.forall₂_cons_left_iff, hx, ih hxs]

/-- What is related to two lists in a row comes in two parts. -/
theorem forall₂_append_left_iff {R : α → β → Prop} {xs xs' : List α} {ys : List β} :
    List.Forall₂ R (xs ++ xs') ys ↔
      ∃ zs zs', List.Forall₂ R xs zs ∧ List.Forall₂ R xs' zs' ∧ zs ++ zs' = ys := by
  constructor
  · intro h
    have hhead := (List.forall₂_take_append ys xs xs' h.flip).flip
    have htail := (List.forall₂_drop_append ys xs xs' h.flip).flip
    exact ⟨_, _, hhead, htail, List.take_append_drop _ _⟩
  · rintro ⟨zs, zs', hhead, htail, rfl⟩
    exact List.rel_append hhead htail

/-- Items that are written at the same place of related lists must be related. -/
theorem forall₂_set {R : α → β → Prop} {xs : List α} {ys : List β} (h : List.Forall₂ R xs ys) {x : α} {y : β}
    (hxy : R x y) (place : Nat) : List.Forall₂ R (xs.set place x) (ys.set place y) := by
  induction h generalizing place with
  | nil => exact .nil
  | cons hhead htail ih =>
    cases place with
    | zero => exact .cons hxy htail
    | succ place => exact .cons hhead (ih place)

theorem exists_of_forall₂_of_mem {R : α → β → Prop} {xs : List α} {ys : List β}
    (h : List.Forall₂ R xs ys) {y : β} (hy : y ∈ ys) : ∃ x ∈ xs, R x y := by
  obtain ⟨place, hplace, rfl⟩ := List.mem_iff_getElem.mp hy
  have hplace' : place < xs.length := by rwa [h.length_eq]
  exact ⟨xs[place], List.getElem_mem hplace', h.get hplace' hplace⟩

/-- The items of a list that is related to the numbers below a bound. -/
theorem forall₂_range {R : Nat → β → Prop} {bound : Nat} {ys : List β}
    (h : List.Forall₂ R (List.range bound) ys) :
    ys.length = bound ∧ ∀ place < bound, ∃ y, ys[place]? = some y ∧ R place y := by
  refine ⟨by rw [← h.length_eq, List.length_range], fun place hplace => ?_⟩
  exact forall₂_getElem? h (List.getElem?_range hplace)

/-- Running over a list answers just when every run does. -/
theorem mapM_eq_ok {f : α → Except ε β} {xs : List α} {ys : List β} :
    xs.mapM f = .ok ys ↔ List.Forall₂ (fun x y => f x = .ok y) xs ys := by
  induction xs generalizing ys with
  | nil =>
    rw [List.mapM_nil, pure_eq_ok, List.forall₂_nil_left_iff]
    exact eq_comm
  | cons x xs ih =>
    rw [List.mapM_cons]
    simp only [bind_eq_ok, pure_eq_ok, ih, List.forall₂_cons_left_iff]
    constructor
    · rintro ⟨y, hy, ys', hys, rfl⟩
      exact ⟨y, ys', hy, hys, rfl⟩
    · rintro ⟨y, ys', hy, hys, rfl⟩
      exact ⟨y, hy, ys', hys, rfl⟩

/-- Running over a list fails at one of its items. -/
theorem exists_of_mapM_eq_error {f : α → Except ε β} {xs : List α} {e : ε} (h : xs.mapM f = .error e) :
    ∃ x ∈ xs, f x = .error e := by
  induction xs with
  | nil => cases h
  | cons x xs ih =>
    rw [List.mapM_cons] at h
    rcases bind_eq_error.mp h with hx | ⟨_, -, hrest⟩
    · exact ⟨x, List.mem_cons_self, hx⟩
    rcases bind_eq_error.mp hrest with hxs | ⟨_, -, hpure⟩
    · obtain ⟨x', hmem, herror⟩ := ih hxs
      exact ⟨x', List.mem_cons_of_mem _ hmem, herror⟩
    · cases hpure

/-! ### Computations on a state -/

section Change

variable {x : Change σ ε α} {f : α → Change σ ε β} {s s' : σ}

theorem change_bind (x : Change σ ε α) (f : α → Change σ ε β) (s : σ) :
    (x >>= f) s = match x s with
      | .ok a s' => f a s'
      | .error e s' => .error e s' := by
  change EStateM.bind x f s = _
  unfold EStateM.bind
  cases x s <;> rfl

@[simp] theorem change_pure (a : α) (s : σ) : (pure a : Change σ ε α) s = .ok a s := rfl

@[simp] theorem change_throw (e : Failure ε) (s : σ) :
    (throw e : Change σ ε α) s = .error e s := rfl

@[simp] theorem change_get (s : σ) : (get : Change σ ε σ) s = .ok s s := rfl

@[simp] theorem change_set (s t : σ) : (set t : Change σ ε PUnit) s = .ok .unit t := rfl

@[simp] theorem change_lift_checked_ok (a : α) (s : σ) :
    (liftM (.ok a : Checked α) : Change σ ε α) s = .ok a s := rfl

theorem change_get_bind {g : σ → Change σ ε β} : (get >>= g) s = g s s := rfl

/-- What follows an operation that answers runs on what that leaves. -/
theorem change_run {a : α} (h : x s = .ok a s') : (x >>= f) s = f a s' := by
  rw [change_bind, h]

/-- An operation that fails has nothing follow it. -/
theorem change_run_error {failure : Failure ε} (h : x s = .error failure s') : (x >>= f) s = .error failure s' := by
  rw [change_bind, h]

/-- A computation that answers leaves it to what follows. -/
theorem change_lift_run {y : Attempt ε α} {a : α} (h : y = .ok a) :
    (liftM y >>= f : Change σ ε β) s = f a s := by
  rw [h]
  rfl

theorem change_lift_checked_run {y : Checked α} {a : α} (h : y = .ok a) :
    (liftM y >>= f : Change σ ε β) s = f a s := by
  rw [h]
  rfl

/-- A sequence answers just when both halves do, the second in the state that the first left. -/
@[simp] theorem change_bind_eq_ok {b : β} :
    (x >>= f) s = .ok b s' ↔ ∃ a t, x s = .ok a t ∧ f a t = .ok b s' := by
  rw [change_bind]
  cases x s with
  | ok a t => exact ⟨fun h => ⟨a, t, rfl, h⟩, fun ⟨_, _, h, h'⟩ => by cases h; exact h'⟩
  | error e t => exact ⟨fun h => (nomatch h), fun ⟨_, _, h, _⟩ => (nomatch h)⟩

/-- A sequence refuses just when one of its halves does. -/
theorem change_bind_eq_refused {cause : ε} : (x >>= f) s = .error (.refused cause) s' ↔
    x s = .error (.refused cause) s' ∨ ∃ a t, x s = .ok a t ∧ f a t = .error (.refused cause) s' := by
  rw [change_bind]
  cases x s <;> simp

/-- To do something with an answer is not refused. -/
theorem refused_of_bind_pure {g : α → β} {cause : ε}
    (hrun : (x >>= fun a => pure (g a)) s = .error (.refused cause) s') : x s = .error (.refused cause) s' := by
  rcases change_bind_eq_refused.mp hrun with hx | ⟨_, _, -, hpure⟩
  · exact hx
  · cases hpure

@[simp] theorem change_pure_eq_ok {a b : α} :
    (pure a : Change σ ε α) s = .ok b s' ↔ a = b ∧ s = s' :=
  ⟨fun h => by cases h; exact ⟨rfl, rfl⟩, fun ⟨h, h'⟩ => by cases h; cases h'; rfl⟩

@[simp] theorem change_get_eq_ok {t : σ} :
    (get : Change σ ε σ) s = .ok t s' ↔ s = t ∧ s = s' :=
  ⟨fun h => by cases h; exact ⟨rfl, rfl⟩, fun ⟨h, h'⟩ => by cases h; cases h'; rfl⟩

@[simp] theorem change_lift_eq_ok {x : Attempt ε α} {a : α} :
    (liftM x : Change σ ε α) s = .ok a s' ↔ x = .ok a ∧ s = s' := by
  cases x with
  | ok b => exact ⟨fun h => by cases h; exact ⟨rfl, rfl⟩, fun ⟨h, h'⟩ => by cases h; cases h'; rfl⟩
  | error e => exact ⟨fun h => (nomatch h), fun ⟨h, _⟩ => (nomatch h)⟩

@[simp] theorem change_lift_checked_eq_ok {x : Checked α} {a : α} :
    (liftM x : Change σ ε α) s = .ok a s' ↔ x = .ok a ∧ s = s' := by
  cases x with
  | ok b => exact ⟨fun h => by cases h; exact ⟨rfl, rfl⟩, fun ⟨h, h'⟩ => by cases h; cases h'; rfl⟩
  | error e => exact ⟨fun h => (nomatch h), fun ⟨h, _⟩ => (nomatch h)⟩

/-- An operation that begins with a check answers just when the check passes and the rest answers. -/
theorem change_guard_eq_ok {c : Prop} [Decidable c] {e : Failure ε} {k : α → Change σ ε β}
    {y : Change σ ε β} {b : β} :
    (if c then (throw e : Change σ ε α) >>= k else y) s = .ok b s' ↔ ¬c ∧ y s = .ok b s' := by
  split
  · next hc => exact ⟨fun h => (nomatch h), fun h => absurd hc h.1⟩
  · next hc => exact ⟨fun h => ⟨hc, h⟩, fun h => h.2⟩

end Change

/-- Runs are compared by their answers, errors and states. -/
instance instDecidableEqRun [DecidableEq ε] [DecidableEq σ] [DecidableEq α] : DecidableEq (EStateM.Result ε σ α)
  | .ok a s, .ok b t => decidable_of_iff (a = b ∧ s = t) (EStateM.Result.ok.injEq ..).to_iff.symm
  | .error e s, .error e' t =>
    decidable_of_iff (e = e' ∧ s = t) (EStateM.Result.error.injEq ..).to_iff.symm
  | .ok .., .error .. => .isFalse nofun
  | .error .., .ok .. => .isFalse nofun

/-! ### The state after any outcome -/

/-- The state in which a run ended, whether it answered or failed. -/
def finalState : EStateM.Result ε σ α → σ
  | .ok _ s => s
  | .error _ s => s

section FinalState

variable {x : Change σ ε α} {f : α → Change σ ε β} {s : σ} {P : σ → Prop}

/-- What holds of the state after a first operation that failed, and after both where it answered, holds of
the state after the two. -/
theorem finalState_bind (hx : P (finalState (x s)))
    (hf : ∀ a t, x s = .ok a t → P (finalState (f a t))) : P (finalState ((x >>= f) s)) := by
  rw [change_bind]
  cases hrun : x s with
  | ok a t => exact hf a t hrun
  | error e t => rwa [hrun] at hx

/-- To do something with an answer does not change the state. -/
theorem finalState_bind_pure (g : α → β) :
    finalState ((x >>= fun a => pure (g a)) s) = finalState (x s) := by
  rw [change_bind]
  cases x s <;> rfl

theorem finalState_map (g : α → β) : finalState ((g <$> x) s) = finalState (x s) := by
  rw [map_eq_pure_bind, finalState_bind_pure]

/-- A computation that is only looked at leaves the state to the operation that follows. -/
theorem finalState_lift_bind {x : Attempt ε α} (hs : P s)
    (hf : ∀ a, x = .ok a → P (finalState (f a s))) :
    P (finalState ((liftM x >>= f : Change σ ε β) s)) := by
  cases x with
  | ok a => exact hf a rfl
  | error e => exact hs

theorem finalState_lift_checked_bind {x : Checked α} (hs : P s)
    (hf : ∀ a, x = .ok a → P (finalState (f a s))) :
    P (finalState ((liftM x >>= f : Change σ ε β) s)) := by
  cases x with
  | ok a => exact hf a rfl
  | error e => exact hs

theorem finalState_guard {c : Prop} [Decidable c] {e : Failure ε} {k : α → Change σ ε β}
    {y : Change σ ε β} (hs : P s) (hy : ¬c → P (finalState (y s))) :
    P (finalState ((if c then (throw e : Change σ ε α) >>= k else y) s)) := by
  split
  · exact hs
  · next hc => exact hy hc

end FinalState

/-- Whatever the outcome of the operation, the states before and after are related. -/
def Keeps (R : σ → σ → Prop) (operation : Change σ ε α) : Prop :=
  ∀ s, R s (finalState (operation s))

namespace Keeps

variable {R : σ → σ → Prop} {x : Change σ ε α} {f : α → Change σ ε β}

theorem ok (h : Keeps R x) {s s' : σ} {a : α} (hrun : x s = .ok a s') : R s s' := by
  have := h s
  rwa [hrun] at this

theorem error (h : Keeps R x) {s s' : σ} {e : Failure ε} (hrun : x s = .error e s') : R s s' := by
  have := h s
  rwa [hrun] at this

/-- Sequencing two operations that keep a preorder keeps it. -/
theorem bind [IsTrans σ R] (hx : Keeps R x) (hf : ∀ a, Keeps R (f a)) : Keeps R (x >>= f) := by
  intro s
  refine finalState_bind (hx s) fun a t hrun => ?_
  -- where the first operation answered, the second one starts in the state that it left
  have hs : R s t := hx.ok hrun
  have ht : R t (finalState (f a t)) := hf a t
  exact IsTrans.trans _ _ _ hs ht

theorem pure [Std.Refl R] (a : α) : Keeps R (pure a : Change σ ε α) :=
  fun s => Std.Refl.refl s

theorem throw [Std.Refl R] (e : Failure ε) : Keeps R (throw e : Change σ ε α) :=
  fun s => Std.Refl.refl s

theorem get [Std.Refl R] : Keeps R (get : Change σ ε σ) :=
  fun s => Std.Refl.refl s

theorem lift [Std.Refl R] (x : Attempt ε α) : Keeps R (liftM x : Change σ ε α) := by
  intro s
  cases x <;> exact Std.Refl.refl s

theorem lift_checked [Std.Refl R] (x : Checked α) : Keeps R (liftM x : Change σ ε α) := by
  intro s
  cases x <;> exact Std.Refl.refl s

/-- Running over a list keeps what each run keeps. -/
theorem mapM [IsTrans σ R] [Std.Refl R] {items : List α} {f : α → Change σ ε β}
    (h : ∀ item ∈ items, Keeps R (f item)) : Keeps R (items.mapM f) := by
  induction items with
  | nil => exact .pure _
  | cons item items ih =>
    obtain ⟨hitem, hitems⟩ := List.forall_mem_cons.mp h
    rw [List.mapM_cons]
    -- the first item, the others, and then the answers are put together
    refine .bind hitem fun _ => .bind (ih hitems) fun _ => ?_
    exact .pure _

/-- A check refuses, or the operation goes on knowing that it passed. -/
theorem guard [Std.Refl R] [IsTrans σ R] {c : Prop} [Decidable c] {e : Failure ε} {k : α → Change σ ε β}
    {y : Change σ ε β} (h : ¬c → Keeps R y) :
    Keeps R (if c then (MonadExcept.throw e : Change σ ε α) >>= k else y) := by
  split
  · exact fun s => Std.Refl.refl s
  · next hc => exact h hc

end Keeps

/-! ### Operations that answer -/

/-- The operation answers, and the answer satisfies `P`, in the state that it comes with. -/
def Answers (s : σ) (operation : Change σ ε α) (P : α → σ → Prop) : Prop :=
  ∃ a s', operation s = .ok a s' ∧ P a s'

namespace Answers

variable {s : σ} {x : Change σ ε α} {f : α → Change σ ε β} {P : α → σ → Prop} {Q : β → σ → Prop} {a : α}

theorem bind (hx : Answers s x P) (hf : ∀ a s', P a s' → Answers s' (f a) Q) : Answers s (x >>= f) Q := by
  obtain ⟨a, middle, hrunx, ha⟩ := hx
  obtain ⟨b, s', hrunf, hb⟩ := hf a middle ha
  exact ⟨b, s', change_bind_eq_ok.mpr ⟨a, middle, hrunx, hrunf⟩, hb⟩

/-- A first operation whose answer is known. -/
theorem bind_eq {P : σ → Prop} (hx : Answers s x fun answer s' => answer = a ∧ P s')
    (hf : ∀ s', P s' → Answers s' (f a) Q) : Answers s (x >>= f) Q := by
  refine hx.bind fun answer s' hanswer => ?_
  obtain ⟨rfl, hs'⟩ := hanswer
  exact hf s' hs'

theorem lift_bind {y : Attempt ε α} (hy : y = .ok a) (hf : Answers s (f a) Q) : Answers s (liftM y >>= f) Q := by
  rw [hy]
  exact hf

theorem mono {P' : α → σ → Prop} (h : Answers s x P) (hP : ∀ a s', P a s' → P' a s') : Answers s x P' := by
  obtain ⟨a, s', hrun, ha⟩ := h
  exact ⟨a, s', hrun, hP a s' ha⟩

/-- **Loops.** What each round makes of the invariant for its number is the invariant for the next one. -/
theorem forM {I : Nat → σ → Prop} {body : Nat → Change σ ε PUnit} {start count : Nat} (hs : I start s)
    (h : ∀ number s, start ≤ number → number < start + count → I number s →
      Answers s (body number) fun _ => I (number + 1)) :
    Answers s ((List.range' start count).forM body) fun _ => I (start + count) := by
  induction count generalizing start s with
  | zero => exact ⟨.unit, s, rfl, hs⟩
  | succ count ih =>
    -- one round, and then the loop that is left
    refine .bind (h start s le_rfl (by omega) hs) fun _ middle hmiddle => ?_
    have hrest : Answers middle ((List.range' (start + 1) count).forM body) fun _ => I (start + 1 + count) := by
      refine ih hmiddle fun number s hle hlt => ?_
      exact h number s (by omega) (by omega)
    rw [show start + (count + 1) = start + 1 + count by omega]
    exact hrest

end Answers

/-! ### Refusals -/

/-- The run ended in an answer or a refusal. -/
def Faultless : EStateM.Result (Failure ε) σ α → Prop
  | .error (.fault _) _ => False
  | _ => True

instance (outcome : EStateM.Result (Failure ε) σ α) : Decidable (Faultless outcome) := by
  unfold Faultless
  split <;> infer_instance

namespace Faultless

theorem ne_fault {result : EStateM.Result (Failure ε) σ α} (h : Faultless result) (kind : Fault) (s : σ) :
    result ≠ .error (.fault kind) s := by
  rintro rfl
  exact h

end Faultless

/-- The operation answers or faults. -/
def NeverRefuses (operation : Change σ ε α) : Prop :=
  ∀ s cause s', operation s ≠ .error (.refused cause) s'

/-- Where the operation refuses, the state is as it was. -/
def Spares (operation : Change σ ε α) : Prop :=
  ∀ s cause s', operation s = .error (.refused cause) s' → s' = s

namespace NeverRefuses

theorem of_ok {operation : Change σ ε α} (h : ∀ s, ∃ a s', operation s = .ok a s') :
    NeverRefuses operation := by
  intro s cause s' hrun
  obtain ⟨a, t, hok⟩ := h s
  rw [hok] at hrun
  cases hrun

theorem lift_checked (x : Checked α) : NeverRefuses (liftM x : Change σ ε α) := by
  intro s cause s' hrun
  cases x <;> cases hrun

theorem bind {x : Change σ ε α} {f : α → Change σ ε β} (hx : NeverRefuses x)
    (hf : ∀ a, NeverRefuses (f a)) : NeverRefuses (x >>= f) := by
  intro s cause s' hrun
  rcases change_bind_eq_refused.mp hrun with hrunx | ⟨a, t, -, hrunf⟩
  · exact hx s cause s' hrunx
  · exact hf a t cause s' hrunf

end NeverRefuses

namespace Spares

variable {x : Change σ ε α}

theorem of_never (h : NeverRefuses x) : Spares x :=
  fun s cause s' hrun => absurd hrun (h s cause s')

/-- A computation that is only looked at leaves the state to what follows. -/
theorem lift_checked_bind {y : Checked α} {f : α → Change σ ε β} (hf : ∀ a, Spares (f a)) :
    Spares (liftM y >>= f) := by
  intro s cause s' hrun
  cases y with
  | ok a => exact hf a s cause s' hrun
  | error kind => cases hrun

theorem get_bind {f : σ → Change σ ε β} (hf : ∀ s, Spares (f s)) : Spares (get >>= f) :=
  fun s cause s' hrun => hf s s cause s' hrun

/-- A check refuses at once, or the operation goes on. -/
theorem guard {c : Prop} [Decidable c] {e : Failure ε} {k : α → Change σ ε β} {y : Change σ ε β}
    (hy : Spares y) : Spares (if c then (MonadExcept.throw e : Change σ ε α) >>= k else y) := by
  intro s cause s' hrun
  split at hrun
  · cases hrun
    rfl
  · exact hy s cause s' hrun

/-- An operation after which nothing can refuse any more. -/
theorem bind {f : α → Change σ ε β} (hx : Spares x) (hf : ∀ a, NeverRefuses (f a)) :
    Spares (x >>= f) := by
  intro s cause s' hrun
  rcases change_bind_eq_refused.mp hrun with hrunx | ⟨a, t, -, hrunf⟩
  · exact hx s cause s' hrunx
  · exact absurd hrunf (hf a t cause s')

end Spares

/-! ### The causes of refusals -/

/-- Where the operation refuses, it is for a cause of this kind. -/
def RefusesFor (P : ε → Prop) (operation : Change σ ε α) : Prop :=
  ∀ s cause s', operation s = .error (.refused cause) s' → P cause

namespace RefusesFor

variable {P : ε → Prop} {x : Change σ ε α} {f : α → Change σ ε β} {cause : ε}


theorem of_never (h : NeverRefuses x) : RefusesFor P x :=
  fun s cause s' hrun => absurd hrun (h s cause s')

theorem bind (hx : RefusesFor P x) (hf : ∀ a, RefusesFor P (f a)) : RefusesFor P (x >>= f) := by
  intro s cause s' hrun
  rcases change_bind_eq_refused.mp hrun with hfirst | ⟨a, middle, -, hsecond⟩
  · exact hx s cause s' hfirst
  · exact hf a middle cause s' hsecond

theorem pure (a : α) : RefusesFor P (pure a : Change σ ε α) :=
  .of_never (.of_ok fun _ => ⟨_, _, rfl⟩)

theorem get : RefusesFor P (get : Change σ ε σ) :=
  .of_never (.of_ok fun _ => ⟨_, _, rfl⟩)

theorem lift_checked_bind {y : Checked α} (h : ∀ a, y = .ok a → RefusesFor P (f a)) :
    RefusesFor P (liftM y >>= f) := by
  intro s cause s' hrun
  cases y with
  | ok a => exact h a rfl s cause s' hrun
  | error kind => cases hrun

theorem throw (h : P cause) : RefusesFor P (throw (.refused cause) : Change σ ε α) := by
  intro s other s' hrun
  cases hrun
  exact h

theorem lift {y : Attempt ε α} (h : ∀ cause, y = .error (.refused cause) → P cause) :
    RefusesFor P (liftM y : Change σ ε α) := by
  intro s cause s' hrun
  cases y with
  | ok a => cases hrun
  | error failure =>
    cases hrun
    exact h cause rfl

theorem guard {c : Prop} [Decidable c] {k : α → Change σ ε β} {y : Change σ ε β} (h : c → P cause)
    (hy : RefusesFor P y) :
    RefusesFor P (if c then (MonadExcept.throw (.refused cause) : Change σ ε α) >>= k else y) := by
  split
  · next hc =>
    intro s other s' hrun
    cases hrun
    exact h hc
  · exact hy

/-- A loop refuses where one of its rounds does. -/
theorem forM {items : List β} {body : β → Change σ ε PUnit} (h : ∀ item ∈ items, RefusesFor P (body item)) :
    RefusesFor P (items.forM body) := by
  induction items with
  | nil => exact .pure _
  | cons item items ih =>
    obtain ⟨hitem, hitems⟩ := List.forall_mem_cons.mp h
    exact .bind hitem fun _ => ih hitems

end RefusesFor

end NetArray
