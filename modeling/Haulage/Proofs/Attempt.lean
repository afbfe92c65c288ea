/-
Module: Haulage.Proofs.Attempt
Purpose: Where an attempt ends.  One predicate follows an operation step by step, and says of the
  answer and of the failure alike what state it leaves behind.
  Another compares two operations that are run side by side.
Main exports: NeverRefuses, Attempt.Ends, Attempt.Ends.mono, Attempt.Ends.forM, Attempt.Alike,
  Attempt.Alike.bind, Attempt.forM_alike_or
-/
import Haulage.Attempt

namespace Haulage

/-! ### Results of a computation -/

theorem bind_eq_ok {ε β γ : Type} {x : Except ε β} {f : β → Except ε γ} {c : γ} :
    (x >>= f) = .ok c ↔ ∃ b, x = .ok b ∧ f b = .ok c := by
  cases x with
  | ok b => simp [bind, Except.bind]
  | error e => simp [bind, Except.bind]

theorem bind_eq_error {ε β γ : Type} {x : Except ε β} {f : β → Except ε γ} {e : ε} :
    (x >>= f) = .error e ↔ x = .error e ∨ ∃ b, x = .ok b ∧ f b = .error e := by
  cases x with
  | ok b => simp [bind, Except.bind]
  | error e => simp [bind, Except.bind]

theorem exceptMap_bind {β γ δ : Type} (x : Except Failure β) (f : β → Except Failure γ)
    (g : γ → δ) : (x >>= f).map g = x >>= fun b => (f b).map g := by
  cases x with
  | ok b => rfl
  | error e => rfl

theorem bind_exceptMap {β γ δ : Type} (x : Except Failure β) (f : β → γ)
    (g : γ → Except Failure δ) : x.map f >>= g = x >>= fun b => g (f b) := by
  cases x with
  | ok b => rfl
  | error e => rfl

theorem mapError_eq_ok {ε ε' β : Type} {x : Except ε β} {f : ε → ε'} {b : β} :
    x.mapError f = .ok b ↔ x = .ok b := by
  cases x with
  | ok c =>
      constructor
      · intro answers
        cases answers
        rfl
      · intro answers
        cases answers
        rfl
  | error e =>
      constructor
      · intro answers
        cases answers
      · intro answers
        cases answers

theorem orOutOfTable_eq_ok {β : Type} {o : Option β} {b : β} :
    orOutOfTable o = .ok b ↔ o = some b := by
  cases o with
  | none => simp [orOutOfTable]
  | some c => simp [orOutOfTable]

theorem orOutOfTable_getElem {β : Type} {entries : Array β} {i : Nat} (inside : i < entries.size) :
    orOutOfTable entries[i]? = .ok entries[i] :=
  orOutOfTable_eq_ok.mpr (Array.getElem?_eq_getElem inside)

/-- A step that every element of a list may take keeps an invariant along the whole list. -/
theorem foldlM_keeps {σ β : Type} {f : σ → β → Except Failure σ} (I : σ → Prop) {xs : List β}
    (step : ∀ x ∈ xs, ∀ s t, I s → f s x = .ok t → I t) {s t : σ} (start : I s)
    (done : xs.foldlM f s = .ok t) : I t := by
  induction xs generalizing s with
  | nil =>
      cases done
      exact start
  | cons x xs inductionHypothesis =>
      rw [List.foldlM_cons, bind_eq_ok] at done
      rcases done with ⟨u, head, tail⟩
      exact inductionHypothesis (fun y member => step y (List.mem_cons_of_mem x member))
        (step x List.mem_cons_self s u start head) tail

theorem mapM_cons_eq_ok {ε β γ : Type} {f : β → Except ε γ} {x : β} {xs : List β}
    {ys : List γ} :
    (x :: xs).mapM f = .ok ys ↔
      ∃ y rest, f x = .ok y ∧ xs.mapM f = .ok rest ∧ ys = y :: rest := by
  simp only [List.mapM_cons, bind_eq_ok, pure, Except.pure, Except.ok.injEq]
  constructor
  · rintro ⟨y, head, rest, tail, rfl⟩
    exact ⟨y, rest, head, tail, rfl⟩
  · rintro ⟨y, rest, head, tail, rfl⟩
    exact ⟨y, head, rest, tail, rfl⟩

theorem mem_of_mapM_eq_ok {ε β γ : Type} {f : β → Except ε γ} {xs : List β} {ys : List γ}
    {y : γ} (done : xs.mapM f = .ok ys) (member : y ∈ ys) : ∃ x ∈ xs, f x = .ok y := by
  induction xs generalizing ys with
  | nil =>
      cases done
      cases member
  | cons x xs inductionHypothesis =>
      obtain ⟨z, rest, head, tail, rfl⟩ := mapM_cons_eq_ok.mp done
      rcases List.mem_cons.mp member with rfl | later
      · exact ⟨x, List.mem_cons_self, head⟩
      · obtain ⟨w, among, answer⟩ := inductionHypothesis tail later
        exact ⟨w, List.mem_cons_of_mem x among, answer⟩

theorem length_of_mapM_eq_ok {ε β γ : Type} {f : β → Except ε γ} {xs : List β} {ys : List γ}
    (done : xs.mapM f = .ok ys) : ys.length = xs.length := by
  induction xs generalizing ys with
  | nil =>
      cases done
      rfl
  | cons x xs inductionHypothesis =>
      obtain ⟨y, rest, _, tail, rfl⟩ := mapM_cons_eq_ok.mp done
      rw [List.length_cons, List.length_cons, inductionHypothesis tail]

/-- Every answer is that of the element it stands beside. -/
theorem answer_of_mem_zip {ε β γ : Type} {f : β → Except ε γ} {xs : List β} {ys : List γ}
    {x : β} {y : γ} (done : xs.mapM f = .ok ys) (member : (x, y) ∈ xs.zip ys) : f x = .ok y := by
  induction xs generalizing ys with
  | nil => cases member
  | cons first xs inductionHypothesis =>
      obtain ⟨z, rest, head, tail, rfl⟩ := mapM_cons_eq_ok.mp done
      rw [List.zip_cons_cons, List.mem_cons, Prod.mk.injEq] at member
      rcases member with ⟨rfl, rfl⟩ | later
      · exact head
      · exact inductionHypothesis tail later

theorem map_fst_zip_of_mapM {ε β γ : Type} {f : β → Except ε γ} {xs : List β} {ys : List γ}
    (done : xs.mapM f = .ok ys) : (xs.zip ys).map Prod.fst = xs :=
  List.map_fst_zip (Nat.le_of_eq (length_of_mapM_eq_ok done).symm)

theorem answer_of_mapM_eq_ok {ε β γ : Type} {f : β → Except ε γ} {xs : List β} {ys : List γ}
    {x : β} (done : xs.mapM f = .ok ys) (member : x ∈ xs) : ∃ y ∈ ys, f x = .ok y := by
  rw [← map_fst_zip_of_mapM done, List.mem_map] at member
  obtain ⟨⟨_, y⟩, beside, rfl⟩ := member
  exact ⟨y, (List.of_mem_zip beside).2, answer_of_mem_zip done beside⟩

/-- An answer by its position is that of the element at the same position. -/
theorem getElem?_of_mapM_eq_ok {ε β γ : Type} {f : β → Except ε γ} {xs : List β} {ys : List γ}
    (done : xs.mapM f = .ok ys) {i : Nat} {y : γ} (found : ys[i]? = some y) :
    ∃ x, xs[i]? = some x ∧ f x = .ok y := by
  induction xs generalizing ys i with
  | nil =>
      cases done
      cases found
  | cons x xs inductionHypothesis =>
      obtain ⟨z, rest, head, tail, rfl⟩ := mapM_cons_eq_ok.mp done
      cases i with
      | zero =>
          cases found
          exact ⟨x, rfl, head⟩
      | succ i => exact inductionHypothesis tail found

/-- What is read off the answers, where it can be read off what they answer. -/
theorem map_eq_map_of_mapM_eq_ok {ε β γ δ : Type} {f : β → Except ε γ} {g : γ → δ} {h : β → δ}
    {xs : List β} {ys : List γ} (same : ∀ x y, f x = .ok y → g y = h x)
    (done : xs.mapM f = .ok ys) : ys.map g = xs.map h := by
  induction xs generalizing ys with
  | nil =>
      cases done
      rfl
  | cons x xs inductionHypothesis =>
      obtain ⟨y, rest, head, tail, rfl⟩ := mapM_cons_eq_ok.mp done
      rw [List.map_cons, List.map_cons, same x y head, inductionHypothesis tail]

/-- What is read back from each answer. -/
theorem map_of_mapM_eq_ok {ε β γ : Type} {f : β → Except ε γ} {g : γ → β} {xs : List β}
    {ys : List γ} (back : ∀ x y, f x = .ok y → g y = x) (done : xs.mapM f = .ok ys) :
    ys.map g = xs :=
  (map_eq_map_of_mapM_eq_ok back done).trans (List.map_id' xs)

/-- A traversal fails at the first element that does. -/
theorem split_of_mapM_eq_error {ε β γ : Type} {f : β → Except ε γ} {xs : List β} {e : ε}
    (failed : xs.mapM f = .error e) :
    ∃ before x after, xs = before ++ x :: after ∧ (∀ y ∈ before, ∃ z, f y = .ok z) ∧
      f x = .error e := by
  induction xs with
  | nil => cases failed
  | cons x xs inductionHypothesis =>
      rw [List.mapM_cons] at failed
      rcases bind_eq_error.mp failed with here | ⟨y, head, later⟩
      · exact ⟨[], x, xs, rfl, fun _ none => (List.not_mem_nil none).elim, here⟩
      · rcases bind_eq_error.mp later with there | ⟨ys, _, done⟩
        · obtain ⟨before, z, after, rfl, answers, fails⟩ := inductionHypothesis there
          exact ⟨x :: before, z, after, rfl, List.forall_mem_cons.mpr ⟨⟨y, head⟩, answers⟩, fails⟩
        · cases done

theorem exists_of_mapM_eq_error {ε β γ : Type} {f : β → Except ε γ} {xs : List β} {e : ε}
    (failed : xs.mapM f = .error e) : ∃ x ∈ xs, f x = .error e := by
  obtain ⟨before, x, after, rfl, _, fails⟩ := split_of_mapM_eq_error failed
  exact ⟨x, List.mem_append_right _ List.mem_cons_self, fails⟩

theorem exists_of_filterMapM_eq_error {ε β γ : Type} {f : β → Except ε (Option γ)} {xs : List β}
    {e : ε} (failed : xs.filterMapM f = .error e) : ∃ x ∈ xs, f x = .error e := by
  induction xs with
  | nil => cases failed
  | cons x xs inductionHypothesis =>
      have further (later : xs.filterMapM f = .error e) : ∃ y ∈ x :: xs, f y = .error e := by
        obtain ⟨y, among, fails⟩ := inductionHypothesis later
        exact ⟨y, List.mem_cons_of_mem x among, fails⟩
      rw [List.filterMapM_cons] at failed
      rcases bind_eq_error.mp failed with here | ⟨found, _, later⟩
      · exact ⟨x, List.mem_cons_self, here⟩
      · cases found with
        | none => exact further later
        | some y =>
            rcases bind_eq_error.mp later with there | ⟨ys, _, done⟩
            · exact further there
            · cases done

theorem exists_of_foldlM_eq_error {ε σ β : Type} {f : σ → β → Except ε σ} {xs : List β} {s : σ}
    {e : ε} (failed : xs.foldlM f s = .error e) : ∃ x ∈ xs, ∃ t, f t x = .error e := by
  induction xs generalizing s with
  | nil => cases failed
  | cons x xs inductionHypothesis =>
      rw [List.foldlM_cons] at failed
      rcases bind_eq_error.mp failed with here | ⟨t, _, later⟩
      · exact ⟨x, List.mem_cons_self, s, here⟩
      · obtain ⟨y, among, fails⟩ := inductionHypothesis later
        exact ⟨y, List.mem_cons_of_mem x among, fails⟩

theorem mapError_eq_error {ε ε' β : Type} {x : Except ε β} {f : ε → ε'} {e : ε'} :
    x.mapError f = .error e ↔ ∃ cause, x = .error cause ∧ f cause = e := by
  cases x with
  | ok c =>
      constructor
      · intro fails
        cases fails
      · rintro ⟨cause, fails, _⟩
        cases fails
  | error cause =>
      constructor
      · intro fails
        cases fails
        exact ⟨cause, rfl, rfl⟩
      · rintro ⟨other, fails, same⟩
        cases fails
        exact congrArg Except.error same

theorem mapM_answers {β γ : Type} {f : β → Except Failure γ} {xs : List β}
    (each : ∀ x ∈ xs, ∃ y, f x = .ok y) : ∃ ys, xs.mapM f = .ok ys := by
  induction xs with
  | nil => exact ⟨[], rfl⟩
  | cons x xs inductionHypothesis =>
      obtain ⟨y, head⟩ := each x List.mem_cons_self
      obtain ⟨ys, tail⟩ := inductionHypothesis fun z member =>
        each z (List.mem_cons_of_mem x member)
      exact ⟨y :: ys, mapM_cons_eq_ok.mpr ⟨y, ys, head, tail, rfl⟩⟩

/-- A computation that may have no answer, but does not refuse one. -/
def NeverRefuses {β : Type} (x : Except Failure β) : Prop :=
  ∀ reason, x ≠ .error (.refused reason)

namespace NeverRefuses

variable {β γ : Type}

@[simp] theorem ok (b : β) : NeverRefuses (.ok b) := by
  intro reason refused
  cases refused

@[simp] theorem fault (f : Fault) : NeverRefuses (.error (.fault f) : Except Failure β) := by
  intro reason refused
  cases refused

@[simp] theorem lookUp (o : Option β) : NeverRefuses (orOutOfTable o) := by
  cases o with
  | none => exact fault _
  | some b => exact ok b

/-- A failure of what never refuses is no refusal. -/
theorem isFault {x : Except Failure β} (never : NeverRefuses x) {e : Failure}
    (failed : x = .error e) : ∀ reason, e ≠ .refused reason :=
  fun reason equal => never reason (equal ▸ failed)

theorem bind {x : Except Failure β} {f : β → Except Failure γ} (first : NeverRefuses x)
    (next : ∀ b, x = .ok b → NeverRefuses (f b)) : NeverRefuses (x >>= f) := by
  intro reason refused
  rcases bind_eq_error.mp refused with here | ⟨b, answer, later⟩
  · exact first reason here
  · exact next b answer reason later

theorem foldlM {f : γ → β → Except Failure γ} (I : γ → Prop) {xs : List β}
    (step : ∀ x ∈ xs, ∀ s, I s → NeverRefuses (f s x) ∧ ∀ t, f s x = .ok t → I t) {s : γ}
    (start : I s) : NeverRefuses (xs.foldlM f s) := by
  induction xs generalizing s with
  | nil => exact ok s
  | cons x xs inductionHypothesis =>
      rw [List.foldlM_cons]
      obtain ⟨never, keeps⟩ := step x List.mem_cons_self s start
      exact never.bind fun t answer =>
        inductionHypothesis (fun y member => step y (List.mem_cons_of_mem x member))
          (keeps t answer)

end NeverRefuses

/-! ### Attempts -/

namespace Attempt

variable {σ τ β γ : Type}

/-- From state `s` an operation answers and leaves `Q`, or it fails and leaves `E`. -/
def Ends (f : Attempt σ β) (Q : β → σ → Prop) (E : Failure → σ → Prop) (s : σ) : Prop :=
  match f s with
  | .ok b t => Q b t
  | .error e t => E e t

variable {Q : β → σ → Prop} {E : Failure → σ → Prop} {s : σ}

@[simp] theorem ends_pure (b : β) : Ends (pure b) Q E s ↔ Q b s := Iff.rfl

@[simp] theorem ends_throw (e : Failure) : Ends (throw e : Attempt σ β) Q E s ↔ E e s := Iff.rfl

@[simp] theorem ends_get {Q : σ → σ → Prop} : Ends get Q E s ↔ Q s s := Iff.rfl

@[simp] theorem ends_set {Q : PUnit → σ → Prop} (t : σ) :
    Ends (set t) Q E s ↔ Q PUnit.unit t := Iff.rfl

@[simp] theorem ends_modify {Q : PUnit → σ → Prop} (f : σ → σ) :
    Ends (modify f) Q E s ↔ Q PUnit.unit (f s) := Iff.rfl

@[simp] theorem ends_bind (f : Attempt σ γ) (g : γ → Attempt σ β) :
    Ends (f >>= g) Q E s ↔ Ends f (fun c => Ends (g c) Q E) E s := by
  show Ends (EStateM.bind f g) Q E s ↔ _
  unfold Ends EStateM.bind
  cases f s with
  | ok c t => exact Iff.rfl
  | error e t => exact Iff.rfl

@[simp] theorem ends_map {Q : γ → σ → Prop} (f : Attempt σ β) (g : β → γ) :
    Ends (g <$> f) Q E s ↔ Ends f (fun b => Q (g b)) E s := by
  show Ends (EStateM.map g f) Q E s ↔ _
  unfold Ends EStateM.map
  cases f s with
  | ok c t => exact Iff.rfl
  | error e t => exact Iff.rfl

theorem ends_ofResult (r : Except Failure β) :
    Ends (ofResult r) Q E s ↔ (∀ b, r = .ok b → Q b s) ∧ ∀ e, r = .error e → E e s := by
  cases r with
  | ok b => simp [Ends]
  | error e => simp [Ends]

@[simp] theorem ends_within {Q : β → σ → Prop} (get : σ → τ) (put : σ → τ → σ)
    (f : Attempt τ β) :
    Ends (within get put f) Q E s ↔
      Ends f (fun b t => Q b (put s t)) (fun e t => E e (put s t)) (get s) := by
  unfold Ends within
  cases f (get s) with
  | ok c t => exact Iff.rfl
  | error e t => exact Iff.rfl

theorem Ends.mono {f : Attempt σ β} {Q' : β → σ → Prop} {E' : Failure → σ → Prop}
    (ends : Ends f Q E s) (answers : ∀ b t, Q b t → Q' b t) (fails : ∀ e t, E e t → E' e t) :
    Ends f Q' E' s := by
  unfold Ends at ends ⊢
  cases result : f s with
  | ok b t =>
      rw [result] at ends
      exact answers b t ends
  | error e t =>
      rw [result] at ends
      exact fails e t ends

/-- Two things that are known of where an operation ends. -/
theorem Ends.and {f : Attempt σ β} {Q' : β → σ → Prop} {E' : Failure → σ → Prop}
    (ends : Ends f Q E s) (other : Ends f Q' E' s) :
    Ends f (fun b t => Q b t ∧ Q' b t) (fun e t => E e t ∧ E' e t) s := by
  unfold Ends at ends other ⊢
  cases result : f s with
  | ok b t =>
      rw [result] at ends other
      exact ⟨ends, other⟩
  | error e t =>
      rw [result] at ends other
      exact ⟨ends, other⟩

theorem ends_of_forall {f : Attempt σ β} (answers : ∀ b t, Q b t) (fails : ∀ e t, E e t) :
    Ends f Q E s := by
  unfold Ends
  cases f s with
  | ok b t => exact answers b t
  | error e t => exact fails e t

/-- An operation ends in what it gives. -/
theorem ends_answers (f : Attempt σ β) (s : σ) :
    Ends f (fun b t => f s = .ok b t) (fun e t => f s = .error e t) s := by
  unfold Ends
  cases f s with
  | ok b t => rfl
  | error e t => rfl

/-- An operation that cannot fail answers. -/
theorem Ends.answers {f : Attempt σ β} (ends : Ends f Q E s) (never : ∀ e t, ¬ E e t) :
    ∃ b t, f s = .ok b t ∧ Q b t := by
  unfold Ends at ends
  cases result : f s with
  | ok b t =>
      rw [result] at ends
      exact ⟨b, t, rfl, ends⟩
  | error e t =>
      rw [result] at ends
      exact absurd ends (never e t)

/-- What holds of an operation however it ends holds of the state that it leaves behind. -/
theorem ends_iff_stateAfter {f : Attempt σ β} {I : σ → Prop} :
    Ends f (fun _ => I) (fun _ => I) s ↔ I (stateAfter (f s)) := by
  unfold Ends stateAfter
  cases f s with
  | ok b t => exact Iff.rfl
  | error e t => exact Iff.rfl

theorem answer_eq_ok {x : EStateM.Result Failure σ β} {b : β} :
    answer x = .ok b ↔ ∃ t, x = .ok b t := by
  cases x with
  | ok c t => simp [answer]
  | error e t => simp [answer]

/-- An operation on a part of the state answers what it would on its own. -/
theorem answer_within (get : σ → τ) (put : σ → τ → σ) (f : Attempt τ β) (s : σ) :
    answer (within get put f s) = answer (f (get s)) := by
  unfold within
  cases f (get s) with
  | ok b t => rfl
  | error e t => rfl

@[simp] theorem get_bind (g : σ → Attempt σ β) : (get >>= g) s = g s s := rfl

@[simp] theorem set_bind (t : σ) (g : PUnit → Attempt σ β) : (set t >>= g) s = g ⟨⟩ t := rfl

@[simp] theorem modify_bind (h : σ → σ) (g : PUnit → Attempt σ β) :
    (modify h >>= g) s = g ⟨⟩ (h s) := rfl

/-- Two operations answer when both do. -/
theorem bind_answers {f : Attempt σ γ} {g : γ → Attempt σ β} {b : β} {u : σ} :
    (f >>= g) s = .ok b u ↔ ∃ c t, f s = .ok c t ∧ g c t = .ok b u := by
  show EStateM.bind f g s = _ ↔ _
  unfold EStateM.bind
  cases f s with
  | ok c t =>
      constructor
      · intro done
        exact ⟨c, t, rfl, done⟩
      · rintro ⟨_, _, equal, done⟩
        cases equal
        exact done
  | error e t => simp

theorem bind_of_answers {f : Attempt σ γ} {g : γ → Attempt σ β} {c : γ} {t : σ}
    (answers : f s = .ok c t) : (f >>= g) s = g c t := by
  show EStateM.bind f g s = _
  rw [EStateM.bind, answers]

theorem bind_of_fails {f : Attempt σ γ} {g : γ → Attempt σ β} {e : Failure} {t : σ}
    (fails : f s = .error e t) : (f >>= g) s = .error e t := by
  show EStateM.bind f g s = _
  rw [EStateM.bind, fails]

/-- An operation on a part of the state answers when it does on its own. -/
theorem within_answers {get : σ → τ} {put : σ → τ → σ} {f : Attempt τ β} {b : β} {t : σ} :
    within get put f s = .ok b t ↔ ∃ u, f (get s) = .ok b u ∧ t = put s u := by
  unfold within
  cases f (get s) with
  | ok c u =>
      constructor
      · intro done
        cases done
        exact ⟨u, rfl, rfl⟩
      · rintro ⟨_, equal, rfl⟩
        cases equal
        rfl
  | error e u => simp

theorem ofResult_answers {r : Except Failure β} {b : β} {t : σ} :
    ofResult r s = .ok b t ↔ r = .ok b ∧ t = s := by
  cases r with
  | ok c => simp [eq_comm]
  | error e => simp

theorem ofResult_bind_of_ok {r : Except Failure γ} {g : γ → Attempt σ β} {c : γ}
    (answers : r = .ok c) : (ofResult r >>= g) s = g c s := by
  rw [answers]
  rfl

/-- Two operations that go on alike with a result answer the same. -/
theorem answer_ofResult_bind {r : Except Failure γ} {g : γ → Attempt σ β} {g' : γ → Attempt τ β}
    {t : τ} (same : ∀ c, r = .ok c → answer (g c s) = answer (g' c t)) :
    answer ((ofResult r >>= g) s) = answer ((ofResult r >>= g') t) := by
  cases r with
  | ok c => exact same c rfl
  | error e => rfl

theorem answer_bind_pure (f : Attempt σ γ) (b : β) :
    answer ((f >>= fun _ => pure b) s) = (answer (f s)).map fun _ => b := by
  show answer (EStateM.bind f _ s) = _
  unfold EStateM.bind
  cases f s with
  | ok c t => rfl
  | error e t => rfl

/-- An invariant of every turn is an invariant of a loop. -/
theorem Ends.forM {ι : Type} {f : ι → Attempt σ PUnit} (I : σ → Prop) {xs : List ι}
    (turn : ∀ x ∈ xs, ∀ t, I t → Ends (f x) (fun _ => I) E t) (start : I s) :
    Ends (xs.forM f) (fun _ => I) E s := by
  induction xs generalizing s with
  | nil => exact start
  | cons x xs inductionHypothesis =>
      apply (ends_bind _ _).mpr
      refine (turn x List.mem_cons_self s start).mono (fun _ t holds => ?_) fun _ _ failed => failed
      exact inductionHypothesis (fun y member => turn y (List.mem_cons_of_mem x member)) holds

/-! ### Two operations side by side -/

/-- Two operations end alike: with the same answer or the same failure, and with states that belong
together. -/
def Alike (S : σ → τ → Prop) : EStateM.Result Failure σ β → EStateM.Result Failure τ β → Prop
  | .ok b s, .ok c t => b = c ∧ S s t
  | .error e s, .error other t => e = other ∧ S s t
  | _, _ => False

namespace Alike

variable {S S' : σ → τ → Prop} {t : τ}

theorem of_eq {x : EStateM.Result Failure σ β} {S : σ → σ → Prop} (same : ∀ s, S s s) :
    Alike S x x := by
  cases x with
  | ok b s => exact ⟨rfl, same s⟩
  | error e s => exact ⟨rfl, same s⟩

/-- Either both answer, or both fail alike. -/
theorem cases {x : EStateM.Result Failure σ β} {y : EStateM.Result Failure τ β}
    (alike : Alike S x y) :
    (∃ b s t, x = .ok b s ∧ y = .ok b t ∧ S s t) ∨
      ∃ e s t, x = .error e s ∧ y = .error e t ∧ S s t := by
  cases x with
  | ok b s =>
      cases y with
      | ok c t =>
          obtain ⟨rfl, related⟩ := alike
          exact .inl ⟨b, s, t, rfl, rfl, related⟩
      | error e t => exact alike.elim
  | error e s =>
      cases y with
      | ok c t => exact alike.elim
      | error other t =>
          obtain ⟨rfl, related⟩ := alike
          exact .inr ⟨e, s, t, rfl, rfl, related⟩

/-- Operations that follow operations which end alike. -/
theorem bind {f : Attempt σ γ} {f' : Attempt τ γ} {g : γ → Attempt σ β} {g' : γ → Attempt τ β}
    (first : Alike S (f s) (f' t)) (fails : ∀ s t, S s t → S' s t)
    (next : ∀ c s t, S s t → Alike S' (g c s) (g' c t)) :
    Alike S' ((f >>= g) s) ((f' >>= g') t) := by
  rcases first.cases with ⟨c, u, v, here, there, related⟩ | ⟨e, u, v, here, there, related⟩
  · rw [bind_of_answers here, bind_of_answers there]
    exact next c u v related
  · rw [bind_of_fails here, bind_of_fails there]
    exact ⟨rfl, fails u v related⟩

/-- The same operation on the same part of two states. -/
theorem within {ρ : Type} {get : σ → ρ} {put : σ → ρ → σ} {get' : τ → ρ} {put' : τ → ρ → τ}
    {f : Attempt ρ β} (same : get' t = get s)
    (ends : Ends f (fun _ u => S (put s u) (put' t u)) (fun _ u => S (put s u) (put' t u))
      (get s)) :
    Alike S (Attempt.within get put f s) (Attempt.within get' put' f t) := by
  unfold Attempt.within
  unfold Ends at ends
  rw [same]
  cases result : f (get s) with
  | ok b u =>
      rw [result] at ends
      exact ⟨rfl, ends⟩
  | error e u =>
      rw [result] at ends
      exact ⟨rfl, ends⟩

end Alike

/-- Loops whose turns end alike end alike, unless they part at one turn.  Up to there they go the
same way, and at that turn both of them fail. -/
theorem forM_alike_or {ι : Type} {f : ι → Attempt σ PUnit} {g : ι → Attempt τ PUnit}
    {S : σ → τ → Prop} {D : ι → σ → τ → Prop} {t : τ} {xs : List ι}
    (turn : ∀ x s t, S s t → Alike S (f x s) (g x t) ∨ D x s t)
    (fails : ∀ x s t, D x s t →
      (∃ e u, f x s = .error e u) ∧ ∃ e v, g x t = .error e v) (start : S s t) :
    Alike S (xs.forM f s) (xs.forM g t) ∨ ∃ before x after u v, xs = before ++ x :: after ∧
      before.forM f s = .ok ⟨⟩ u ∧ before.forM g t = .ok ⟨⟩ v ∧ S u v ∧ D x u v ∧
      xs.forM f s = f x u ∧ xs.forM g t = g x v := by
  have unfolds {ρ : Type} (h : ι → Attempt ρ PUnit) (x : ι) (rest : List ι) :
      (x :: rest).forM h = h x >>= fun _ => rest.forM h := rfl
  induction xs generalizing s t with
  | nil => exact .inl ⟨rfl, start⟩
  | cons x rest inductionHypothesis =>
      rw [unfolds, unfolds]
      -- The first turn at which the loops part ends both of them, so there is no second one.
      rcases turn x s t start with alike | parts
      · rcases alike.cases with ⟨⟨⟩, u, v, here, there, related⟩ | ⟨e, u, v, here, there, related⟩
        · rw [bind_of_answers here, bind_of_answers there]
          refine (inductionHypothesis related).imp_right ?_
          rintro ⟨before, y, after, w, z, rfl, first, second, further⟩
          refine ⟨x :: before, y, after, w, z, rfl, ?_, ?_, further⟩
          · rw [unfolds, bind_of_answers here, first]
          · rw [unfolds, bind_of_answers there, second]
        · rw [bind_of_fails here, bind_of_fails there]
          exact .inl ⟨rfl, related⟩
      · obtain ⟨⟨e, u, here⟩, other, v, there⟩ := fails x s t parts
        refine .inr ⟨[], x, rest, s, t, rfl, rfl, rfl, start, parts, ?_, ?_⟩
        · rw [bind_of_fails here, here]
        · rw [bind_of_fails there, there]

end Attempt

end Haulage
