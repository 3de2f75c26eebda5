import Mathlib.Data.List.Basic

/-! Stateful computations that may fail and keep their state when they do.
A failing C function leaves every store it made behind, so the failure carries
the state reached so far. -/
namespace Exec

/-- A computation over `σ`: `none` is a failure status, in both cases with the state reached. -/
abbrev Run (σ α : Type) : Type := σ → Option α × σ

variable {σ τ α β : Type}

instance : Monad (Run σ) where
  pure a := fun s => (some a, s)
  bind m f := fun s =>
    match m s with
    | (some a, t) => f a t
    | (none, t) => (none, t)

/-- The status `-1`. -/
def fail : Run σ α := fun s => (none, s)

def get : Run σ σ := fun s => (some s, s)

def modify (f : σ → σ) : Run σ Unit := fun s => (some (), f s)

def attempt (m : Run σ α) : Run σ (Option α) := fun s => (some (m s).1, (m s).2)

def zoom (view : τ → σ) (put : τ → σ → τ) (m : Run σ α) : Run τ α :=
  fun t => ((m (view t)).1, put t (m (view t)).2)

/-- The counted loop `for (x in xs) body`. -/
def forEach (body : β → Run σ Unit) : List β → Run σ Unit
  | [] => pure ()
  | x :: xs => do
      body x
      forEach body xs

variable {c : Prop} {m' : Run σ α}

section Equations
variable {m : Run σ α} {f : α → Run σ β} {s t : σ} {a : α}

@[simp] theorem pure_apply : (pure a : Run σ α) s = (some a, s) := rfl

@[simp] theorem fail_apply : (fail : Run σ α) s = (none, s) := rfl

@[simp] theorem get_apply : (get : Run σ σ) s = (some s, s) := rfl

@[simp] theorem modify_apply (f : σ → σ) : modify f s = (some (), f s) := rfl

@[simp] theorem attempt_apply : attempt m s = (some (m s).1, (m s).2) := rfl

@[simp] theorem zoom_apply {t : τ} (view : τ → σ) (put : τ → σ → τ) :
    zoom view put m t = ((m (view t)).1, put t (m (view t)).2) := rfl

theorem run_ite [Decidable c] :
    (if c then m else m') s = if c then m s else m' s := by split <;> rfl

theorem run_ite_fail [Decidable c] :
    (if c then (fail : Run σ α) else pure a) s = (if c then none else some a, s) := by
  split <;> rfl

theorem bind_apply : (m >>= f) s = match m s with
    | (some a, t) => f a t
    | (none, t) => (none, t) := rfl

theorem bind_of_some (h : m s = (some a, t)) : (m >>= f) s = f a t := by rw [bind_apply, h]

theorem bind_of_none (h : m s = (none, t)) : (m >>= f) s = (none, t) := by rw [bind_apply, h]

theorem bind_pure_of_ite [Decidable c] {b : β} (h : m s = (if c then some a else none, t)) :
    (m >>= fun _ => pure b) s = (if c then some b else none, t) := by
  rw [bind_apply, h]
  split_ifs <;> rfl

theorem bind_fail : (m >>= fun _ => (fail : Run σ β)) s = (none, (m s).2) := by
  rcases hrun : m s with ⟨_ | a, t⟩
  · exact bind_of_none hrun
  · exact bind_of_some hrun

theorem bind_eq_some {b : β} (h : (m >>= f) s = (some b, t)) :
    ∃ a u, m s = (some a, u) ∧ f a u = (some b, t) := by
  rw [bind_apply] at h
  split at h
  · exact ⟨_, _, ‹_›, h⟩
  · simp at h

@[simp] theorem forEach_nil (body : β → Run σ Unit) : forEach body [] = pure () := rfl

theorem forEach_cons (body : β → Run σ Unit) (x : β) (xs : List β) :
    forEach body (x :: xs) = (body x >>= fun _ => forEach body xs) := rfl

end Equations

/-- From a state satisfying `I` every outcome satisfies `I`, and every returned value satisfies
`post`. -/
def Keeps (I : σ → Prop) (m : Run σ α) (post : α → Prop) : Prop :=
  ∀ s, I s → I (m s).2 ∧ ∀ a, (m s).1 = some a → post a

section Rules
variable {I : σ → Prop} {m : Run σ α} {f : α → Run σ β} {post : α → Prop} {post' : β → Prop}

theorem Keeps.mono {q : α → Prop} (h : Keeps I m post) (hq : ∀ a, post a → q a) : Keeps I m q :=
  fun s hs => ⟨(h s hs).1, fun a ha => hq a ((h s hs).2 a ha)⟩

protected theorem Keeps.pure {a : α} (h : post a) : Keeps I (pure a) post := by
  intro s hs
  refine ⟨hs, fun b hb => ?_⟩
  obtain rfl : a = b := Option.some.inj hb
  exact h

protected theorem Keeps.fail : Keeps I (fail : Run σ α) post := fun s hs => ⟨hs, fun _ h => by simp at h⟩

protected theorem Keeps.get : Keeps I (get : Run σ σ) I :=
  fun s hs => ⟨hs, fun _ h => by obtain rfl := Option.some.inj h; exact hs⟩

protected theorem Keeps.modify {u : σ → σ} (h : ∀ s, I s → I (u s)) : Keeps I (modify u) fun _ => True :=
  fun s hs => ⟨h s hs, fun _ _ => trivial⟩

protected theorem Keeps.bind (hm : Keeps I m post) (hf : ∀ a, post a → Keeps I (f a) post') :
    Keeps I (m >>= f) post' := by
  intro s hs
  rw [bind_apply]
  have h := hm s hs
  split
  next a t heq =>
    rw [heq] at h
    exact hf a (h.2 a rfl) t h.1
  next t heq =>
    rw [heq] at h
    exact ⟨h.1, fun b hb => by simp at hb⟩

protected theorem Keeps.ite [Decidable c] (h : c → Keeps I m post) (h' : ¬ c → Keeps I m' post) :
    Keeps I (if c then m else m') post := by
  split
  next hc => exact h hc
  next hc => exact h' hc

theorem Keeps.guard [Decidable c] (h : ¬ c → Keeps I m post) : Keeps I (if c then fail else m) post :=
  .ite (fun _ => .fail) h

protected theorem Keeps.attempt (hm : Keeps I m post) :
    Keeps I (attempt m) fun r => ∀ a, r = some a → post a := by
  intro s hs
  refine ⟨(hm s hs).1, fun r hr a ha => (hm s hs).2 a ?_⟩
  simpa [← Option.some.inj hr] using ha

protected theorem Keeps.zoom {J : τ → Prop} {view : τ → σ} {put : τ → σ → τ} (hm : Keeps I m post)
    (hview : ∀ t, J t → I (view t)) (hput : ∀ t s, J t → I s → J (put t s)) :
    Keeps J (zoom view put m) post :=
  fun t ht => ⟨hput t _ ht (hm _ (hview t ht)).1, (hm _ (hview t ht)).2⟩

protected theorem Keeps.forEach {body : β → Run σ Unit} {xs : List β}
    (h : ∀ x ∈ xs, Keeps I (body x) fun _ => True) : Keeps I (forEach body xs) fun _ => True := by
  induction xs with
  | nil => exact .pure trivial
  | cons x xs ih =>
    exact .bind (h x (by simp)) fun _ _ => ih fun y hy => h y (by simp [hy])

end Rules

/-- From a state satisfying `pre` every returned value and the state reached with it satisfy
`post`, and every failure leaves a state satisfying `err`. -/
def Triple (pre : σ → Prop) (m : Run σ α) (post : α → σ → Prop) (err : σ → Prop) : Prop :=
  ∀ s, pre s → (∀ a t, m s = (some a, t) → post a t) ∧ ∀ t, m s = (none, t) → err t

section Triples
variable {pre : σ → Prop} {m : Run σ α} {f : α → Run σ β} {post : α → σ → Prop}
  {post' : β → σ → Prop} {err : σ → Prop}

theorem Triple.of_match (h : ∀ s, pre s → match m s with
    | (some a, t) => post a t
    | (none, t) => err t) : Triple pre m post err := by
  intro s hs
  have hm := h s hs
  constructor
  · intro a t ht
    rwa [ht] at hm
  · intro t ht
    rwa [ht] at hm

protected theorem Triple.pure {a : α} (h : ∀ s, pre s → post a s) : Triple pre (pure a) post err :=
  .of_match h

protected theorem Triple.fail (h : ∀ s, pre s → err s) : Triple pre (fail : Run σ α) post err :=
  .of_match h

protected theorem Triple.get : Triple pre get (fun a s => pre s ∧ a = s) err :=
  .of_match fun _ hs => ⟨hs, rfl⟩

protected theorem Triple.modify {u : σ → σ} {post : Unit → σ → Prop} (h : ∀ s, pre s → post () (u s)) :
    Triple pre (modify u) post err :=
  .of_match h

protected theorem Triple.bind (hm : Triple pre m post err) (hf : ∀ a, Triple (post a) (f a) post' err) :
    Triple pre (m >>= f) post' err := by
  intro s hs
  rcases hrun : m s with ⟨_ | a, t⟩
  · rw [bind_of_none hrun]
    exact Triple.fail (fun _ => (· ▸ (hm s hs).2 t hrun)) t rfl
  · rw [bind_of_some hrun]
    exact hf a t ((hm s hs).1 a t hrun)

protected theorem Triple.ite [Decidable c] (h : c → Triple pre m post err) (h' : ¬ c → Triple pre m' post err) : Triple pre (if c then m else m') post err := by
  split
  next hc => exact h hc
  next hc => exact h' hc

theorem Triple.mono {pre' : σ → Prop} {q : α → σ → Prop} {e : σ → Prop}
    (h : Triple pre m post err) (hpre : ∀ s, pre' s → pre s) (hq : ∀ a s, post a s → q a s)
    (he : ∀ s, err s → e s) : Triple pre' m q e :=
  fun s hs => ⟨fun a t ht => hq a t ((h s (hpre s hs)).1 a t ht),
    fun t ht => he t ((h s (hpre s hs)).2 t ht)⟩

theorem Triple.state {s : σ} {I : σ → Prop} (h : Triple pre m (fun _ => I) I) (hs : pre s) :
    I (m s).2 := by
  rcases hrun : m s with ⟨_ | a, t⟩
  · exact (h s hs).2 t hrun
  · exact (h s hs).1 a t hrun

end Triples
end Exec
