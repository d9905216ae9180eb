/-
Procedures of an imperative program: a call reads and changes a state and then returns a value,
returns an error, ends the process, or waits. The state a call leaves behind is kept in all four
cases, as in a language whose errors are values; rolling it back is the caller's business.
-/
import Mathlib.Tactic

namespace Wig.Lib

/-! ## Outcomes -/

/-- What a call comes to. -/
inductive Outcome (ε α : Type) where
  | ok (a : α)
  | err (e : ε)
  /-- The process ends: a dereferenced nil, a stack overflow, a closed channel closed again. -/
  | crash
  /-- The call waits for another party and has not returned. -/
  | block
  deriving DecidableEq, Repr

namespace Outcome

variable {ε α β : Type}

/-- The outcome of a computation on plain values: the value, or the error. -/
def ofExcept : Except ε α → Outcome ε α
  | .ok a => .ok a
  | .error e => .err e

@[simp] theorem ofExcept_ok (a : α) : (ofExcept (.ok a) : Outcome ε α) = .ok a := rfl
@[simp] theorem ofExcept_error (e : ε) : (ofExcept (.error e) : Outcome ε α) = .err e := rfl

theorem ofExcept_eq_ok {x : Except ε α} {a : α} : ofExcept x = .ok a ↔ x = .ok a := by
  cases x <;> simp

/-- The call returned, with a value or with an error. -/
def Returned : Outcome ε α → Prop
  | .ok _ => True
  | .err _ => True
  | .crash => False
  | .block => False

@[simp] theorem returned_ok (a : α) : (Outcome.ok a : Outcome ε α).Returned := trivial
@[simp] theorem returned_err (e : ε) : (Outcome.err e : Outcome ε α).Returned := trivial
@[simp] theorem not_returned_crash : ¬ (Outcome.crash : Outcome ε α).Returned := id
@[simp] theorem not_returned_block : ¬ (Outcome.block : Outcome ε α).Returned := id

end Outcome

/-! ## Procedures -/

/-- A procedure on states `σ`. -/
def Proc (σ ε α : Type) : Type := σ → Outcome ε α × σ

namespace Proc

variable {σ τ ε α β : Type}

instance : Monad (Proc σ ε) where
  pure a := fun s => (.ok a, s)
  bind x f := fun s => match x s with
    | (.ok a, s') => f a s'
    | (.err e, s') => (.err e, s')
    | (.crash, s') => (.crash, s')
    | (.block, s') => (.block, s')

/-- The current state. -/
def get : Proc σ ε σ := fun s => (.ok s, s)

/-- Change the state. -/
def modify (f : σ → σ) : Proc σ ε Unit := fun s => (.ok (), f s)

/-- Return an error. -/
def fail (e : ε) : Proc σ ε α := fun s => (.err e, s)

/-- End the process. -/
def crash : Proc σ ε α := fun s => (.crash, s)

/-- Wait. -/
def block : Proc σ ε α := fun s => (.block, s)

/-- A value computed without touching the state. -/
def lift (x : Except ε α) : Proc σ ε α := fun s => (Outcome.ofExcept x, s)

/-- Run a call and drop the error it may return. -/
def ignoreErr (x : Proc σ ε Unit) : Proc σ ε Unit := fun s => match x s with
  | (.err _, s') => (.ok (), s')
  | r => r

/-- Run a call and say whether it succeeded. -/
def succeeds (x : Proc σ ε Unit) : Proc σ ε Bool := fun s => match x s with
  | (.ok _, s') => (.ok true, s')
  | (.err _, s') => (.ok false, s')
  | (.crash, s') => (.crash, s')
  | (.block, s') => (.block, s')

/-- Run a procedure on a part of the state. -/
def zoom (view : σ → τ) (put : τ → σ → σ) (x : Proc τ ε α) : Proc σ ε α := fun s =>
  ((x (view s)).1, put (x (view s)).2 s)

/-- Run a call for each element of a list, up to the first that does not succeed. -/
def forEach (f : α → Proc σ ε Unit) : List α → Proc σ ε Unit
  | [] => pure ()
  | a :: l => do f a; forEach f l

@[simp] theorem pure_apply (a : α) (s : σ) : (pure a : Proc σ ε α) s = (.ok a, s) := rfl
@[simp] theorem get_apply (s : σ) : (get : Proc σ ε σ) s = (.ok s, s) := rfl
@[simp] theorem modify_apply (f : σ → σ) (s : σ) : (modify f : Proc σ ε Unit) s = (.ok (), f s) := rfl
@[simp] theorem fail_apply (e : ε) (s : σ) : (fail e : Proc σ ε α) s = (.err e, s) := rfl
@[simp] theorem crash_apply (s : σ) : (crash : Proc σ ε α) s = (.crash, s) := rfl
@[simp] theorem block_apply (s : σ) : (block : Proc σ ε α) s = (.block, s) := rfl

@[simp] theorem lift_apply (x : Except ε α) (s : σ) :
    (lift x : Proc σ ε α) s = (Outcome.ofExcept x, s) := rfl

@[simp] theorem zoom_apply (view : σ → τ) (put : τ → σ → σ) (x : Proc τ ε α) (s : σ) :
    zoom view put x s = ((x (view s)).1, put (x (view s)).2 s) := rfl

theorem bind_of_ok {x : Proc σ ε α} {f : α → Proc σ ε β} {s s' : σ} {a : α}
    (h : x s = (.ok a, s')) : (x >>= f) s = f a s' := by
  show (match x s with | (.ok a, s') => f a s' | (.err e, s') => _ | (.crash, s') => _ | (.block, s') => _) = _
  rw [h]

theorem bind_of_err {x : Proc σ ε α} {f : α → Proc σ ε β} {s s' : σ} {e : ε}
    (h : x s = (.err e, s')) : (x >>= f) s = (.err e, s') := by
  show (match x s with | (.ok a, s') => f a s' | (.err e, s') => _ | (.crash, s') => _ | (.block, s') => _) = _
  rw [h]

theorem bind_of_crash {x : Proc σ ε α} {f : α → Proc σ ε β} {s s' : σ}
    (h : x s = (.crash, s')) : (x >>= f) s = (.crash, s') := by
  show (match x s with | (.ok a, s') => f a s' | (.err e, s') => _ | (.crash, s') => _ | (.block, s') => _) = _
  rw [h]

theorem bind_of_block {x : Proc σ ε α} {f : α → Proc σ ε β} {s s' : σ}
    (h : x s = (.block, s')) : (x >>= f) s = (.block, s') := by
  show (match x s with | (.ok a, s') => f a s' | (.err e, s') => _ | (.crash, s') => _ | (.block, s') => _) = _
  rw [h]

/-- A sequence that returns a value ran both its parts. -/
theorem bind_ok {x : Proc σ ε α} {f : α → Proc σ ε β} {s s'' : σ} {b : β}
    (h : (x >>= f) s = (.ok b, s'')) : ∃ a s', x s = (.ok a, s') ∧ f a s' = (.ok b, s'') := by
  rcases hx : x s with ⟨(a | e | _ | _), s'⟩
  · rw [bind_of_ok hx] at h; exact ⟨a, s', rfl, h⟩
  · rw [bind_of_err hx] at h; cases h
  · rw [bind_of_crash hx] at h; cases h
  · rw [bind_of_block hx] at h; cases h

/-- A sequence that fails did so in one of its parts. -/
theorem bind_err {x : Proc σ ε α} {f : α → Proc σ ε β} {s s'' : σ} {e : ε} (h : (x >>= f) s = (.err e, s'')) :
    x s = (.err e, s'') ∨ ∃ a s', x s = (.ok a, s') ∧ f a s' = (.err e, s'') := by
  rcases hx : x s with ⟨(a | e' | _ | _), s'⟩
  · rw [bind_of_ok hx] at h; exact .inr ⟨a, s', rfl, h⟩
  · rw [bind_of_err hx] at h; cases h; exact .inl rfl
  · rw [bind_of_crash hx] at h; cases h
  · rw [bind_of_block hx] at h; cases h

theorem ok_of_fst {x : Proc σ ε α} {s : σ} {a : α} (h : (x s).1 = .ok a) : ∃ s', x s = (.ok a, s') := by
  rcases hx : x s with ⟨r, s'⟩
  rw [hx] at h
  exact ⟨s', by rw [← h]⟩

theorem bind_ok_iff {x : Proc σ ε α} {f : α → Proc σ ε β} {s s'' : σ} {b : β} :
    (x >>= f) s = (.ok b, s'') ↔ ∃ a s', x s = (.ok a, s') ∧ f a s' = (.ok b, s'') :=
  ⟨bind_ok, fun ⟨_, _, hx, hf⟩ => by rw [bind_of_ok hx]; exact hf⟩

theorem lift_ok_iff {x : Except ε α} {s s' : σ} {a : α} : lift x s = (.ok a, s') ↔ x = .ok a ∧ s' = s := by
  rw [lift_apply, Prod.mk.injEq, Outcome.ofExcept_eq_ok, eq_comm (a := s)]

/-- A sequence whose first part always returns, and whose second part returns from wherever the
first one leaves off, returns. -/
theorem bind_returned {x : Proc σ ε α} {f : α → Proc σ ε β} {s : σ} (hx : (x s).1.Returned)
    (hf : ∀ a s', x s = (.ok a, s') → (f a s').1.Returned) : ((x >>= f) s).1.Returned := by
  rcases h : x s with ⟨(a | e | _ | _), s'⟩
  · rw [bind_of_ok h]; exact hf a s' h
  · rw [bind_of_err h]; trivial
  · rw [h] at hx; exact absurd hx id
  · rw [h] at hx; exact absurd hx id

@[simp] theorem forEach_nil (f : α → Proc σ ε Unit) (s : σ) : forEach f [] s = (.ok (), s) := rfl

theorem forEach_cons (f : α → Proc σ ε Unit) (a : α) (l : List α) (s : σ) :
    forEach f (a :: l) s = (do f a; forEach f l : Proc σ ε Unit) s := rfl

theorem forEach_singleton (f : α → Proc σ ε Unit) (a : α) (s : σ) : forEach f [a] s = f a s := by
  rw [forEach_cons]
  rcases h : f a s with ⟨(u | e | _ | _), s'⟩
  · rw [bind_of_ok h, forEach_nil]
  · rw [bind_of_err h]
  · rw [bind_of_crash h]
  · rw [bind_of_block h]

theorem forEach_append (f : α → Proc σ ε Unit) : ∀ (l l' : List α) (s : σ),
    forEach f (l ++ l') s = (do forEach f l; forEach f l' : Proc σ ε Unit) s
  | [], l', s => by rw [bind_of_ok (forEach_nil f s)]; rfl
  | a :: l, l', s => by
    rw [List.cons_append, forEach_cons]
    rcases h : f a s with ⟨(u | e | _ | _), s'⟩
    · rw [bind_of_ok h, forEach_append f l l' s']
      rcases hl : forEach f l s' with ⟨(u | e | _ | _), s''⟩
      · rw [bind_of_ok hl, bind_of_ok (by rw [forEach_cons, bind_of_ok h, hl])]
      · rw [bind_of_err hl, bind_of_err (by rw [forEach_cons, bind_of_ok h, hl])]
      · rw [bind_of_crash hl, bind_of_crash (by rw [forEach_cons, bind_of_ok h, hl])]
      · rw [bind_of_block hl, bind_of_block (by rw [forEach_cons, bind_of_ok h, hl])]
    · rw [bind_of_err h, bind_of_err (by rw [forEach_cons, bind_of_err h])]
    · rw [bind_of_crash h, bind_of_crash (by rw [forEach_cons, bind_of_crash h])]
    · rw [bind_of_block h, bind_of_block (by rw [forEach_cons, bind_of_block h])]

theorem ignoreErr_of_ok {x : Proc σ ε Unit} {s s' : σ} (h : x s = (.ok (), s')) :
    ignoreErr x s = (.ok (), s') := by
  unfold ignoreErr; rw [h]

theorem ignoreErr_of_err {x : Proc σ ε Unit} {s s' : σ} {e : ε} (h : x s = (.err e, s')) :
    ignoreErr x s = (.ok (), s') := by
  unfold ignoreErr; rw [h]

theorem succeeds_of_ok {x : Proc σ ε Unit} {s s' : σ} (h : x s = (.ok (), s')) : succeeds x s = (.ok true, s') := by
  unfold succeeds; rw [h]

theorem succeeds_of_err {x : Proc σ ε Unit} {s s' : σ} {e : ε} (h : x s = (.err e, s')) :
    succeeds x s = (.ok false, s') := by
  unfold succeeds; rw [h]

/-! ## Procedures that keep a property of the state -/

/-- From every state that satisfies `I`, the call returns, and in such a state. -/
def Keeps (I : σ → Prop) (x : Proc σ ε α) : Prop := ∀ s, I s → (x s).1.Returned ∧ I (x s).2

variable {I : σ → Prop}

theorem keeps_pure (a : α) : Keeps I (pure a : Proc σ ε α) := fun _ h => ⟨trivial, h⟩

theorem keeps_fail (e : ε) : Keeps I (fail e : Proc σ ε α) := fun _ h => ⟨trivial, h⟩

theorem keeps_modify {f : σ → σ} (h : ∀ s, I s → I (f s)) : Keeps I (modify f : Proc σ ε Unit) :=
  fun s hs => ⟨trivial, h s hs⟩

theorem keeps_lift (x : Except ε α) : Keeps I (lift x : Proc σ ε α) := by
  intro s h
  rw [lift_apply]
  cases x with
  | ok a => exact ⟨trivial, h⟩
  | error e => exact ⟨trivial, h⟩

theorem Keeps.bind {x : Proc σ ε α} {f : α → Proc σ ε β} (hx : Keeps I x) (hf : ∀ a, Keeps I (f a)) :
    Keeps I (x >>= f) := by
  intro s hs
  obtain ⟨hret, hI⟩ := hx s hs
  rcases h : x s with ⟨(a | e | _ | _), s'⟩
  · rw [h] at hI; rw [bind_of_ok h]; exact hf a s' hI
  · rw [h] at hI; rw [bind_of_err h]; exact ⟨trivial, hI⟩
  · rw [h] at hret; exact absurd hret id
  · rw [h] at hret; exact absurd hret id

theorem Keeps.forEach {f : α → Proc σ ε Unit} (hf : ∀ a, Keeps I (f a)) : ∀ l, Keeps I (forEach f l)
  | [] => keeps_pure ()
  | a :: l => (hf a).bind fun _ => Keeps.forEach hf l

theorem Keeps.ignoreErr {x : Proc σ ε Unit} (hx : Keeps I x) : Keeps I (ignoreErr x) := by
  intro s hs
  obtain ⟨hret, hI⟩ := hx s hs
  rcases h : x s with ⟨(a | e | _ | _), s'⟩
  · rw [h] at hI; rw [ignoreErr_of_ok h]; exact ⟨trivial, hI⟩
  · rw [h] at hI; rw [ignoreErr_of_err h]; exact ⟨trivial, hI⟩
  · rw [h] at hret; exact absurd hret id
  · rw [h] at hret; exact absurd hret id

theorem Keeps.succeeds {x : Proc σ ε Unit} (hx : Keeps I x) : Keeps I (succeeds x) := by
  intro s hs
  obtain ⟨hret, hI⟩ := hx s hs
  rcases h : x s with ⟨(a | e | _ | _), s'⟩
  · rw [h] at hI; rw [succeeds_of_ok h]; exact ⟨trivial, hI⟩
  · rw [h] at hI; rw [succeeds_of_err h]; exact ⟨trivial, hI⟩
  · rw [h] at hret; exact absurd hret id
  · rw [h] at hret; exact absurd hret id

/-- A call on a part of the state keeps what does not depend on that part. -/
theorem Keeps.zoom {x : Proc τ ε α} {view : σ → τ} {put : τ → σ → σ} (hx : Keeps (fun _ => True) x)
    (hput : ∀ s t, I s → I (put t s)) : Keeps I (zoom view put x) :=
  fun s hs => ⟨(hx (view s) trivial).1, hput s _ hs⟩

/-! ## Procedures that leave a part of the state alone -/

/-- However the call ends, it has left the view of the state alone, and an error it returns is one
of `E`. -/
def Leaves {κ : Type} (view : σ → κ) (E : ε → Prop) (x : Proc σ ε α) : Prop :=
  ∀ s, view (x s).2 = view s ∧ ∀ e, (x s).1 = .err e → E e

section Leaves

variable {κ : Type} {view : σ → κ} {E : ε → Prop}

theorem leaves_pure (a : α) : Leaves view E (pure a : Proc σ ε α) := fun _ => ⟨rfl, fun _ h => nomatch h⟩

theorem leaves_get : Leaves view E (get : Proc σ ε σ) := fun _ => ⟨rfl, fun _ h => nomatch h⟩

theorem leaves_crash : Leaves view E (crash : Proc σ ε α) := fun _ => ⟨rfl, fun _ h => nomatch h⟩

theorem leaves_fail {e : ε} (he : E e) : Leaves view E (fail e : Proc σ ε α) :=
  fun _ => ⟨rfl, fun _ h => by cases h; exact he⟩

theorem leaves_modify {f : σ → σ} (h : ∀ s, view (f s) = view s) : Leaves view E (modify f : Proc σ ε Unit) :=
  fun s => ⟨h s, fun _ h => nomatch h⟩

theorem leaves_lift {x : Except ε α} (h : ∀ e, x = .error e → E e) : Leaves view E (lift x : Proc σ ε α) := by
  refine fun _ => ⟨rfl, fun e he => ?_⟩
  cases x with
  | ok a => cases he
  | error e' => cases he; exact h _ rfl

theorem Leaves.bind {x : Proc σ ε α} {f : α → Proc σ ε β} (hx : Leaves view E x) (hf : ∀ a, Leaves view E (f a)) :
    Leaves view E (x >>= f) := by
  intro s
  obtain ⟨hv, hE⟩ := hx s
  rcases h : x s with ⟨(a | e | _ | _), s'⟩
  · rw [h] at hv; rw [bind_of_ok h]; exact ⟨(hf a s').1.trans hv, (hf a s').2⟩
  · rw [h] at hv hE; rw [bind_of_err h]; exact ⟨hv, fun e' he => by cases he; exact hE e rfl⟩
  · rw [h] at hv; rw [bind_of_crash h]; exact ⟨hv, fun _ h => nomatch h⟩
  · rw [h] at hv; rw [bind_of_block h]; exact ⟨hv, fun _ h => nomatch h⟩

theorem Leaves.forEach {f : α → Proc σ ε Unit} (hf : ∀ a, Leaves view E (f a)) : ∀ l, Leaves view E (forEach f l)
  | [] => leaves_pure ()
  | a :: l => (hf a).bind fun _ => Leaves.forEach hf l

theorem Leaves.ignoreErr {E' : ε → Prop} {x : Proc σ ε Unit} (hx : Leaves view E' x) : Leaves view E (ignoreErr x) := by
  intro s
  have hv := (hx s).1
  unfold Proc.ignoreErr
  rcases h : x s with ⟨(a | e | _ | _), s'⟩ <;> rw [h] at hv <;> exact ⟨hv, fun _ h => nomatch h⟩

theorem Leaves.succeeds {E' : ε → Prop} {x : Proc σ ε Unit} (hx : Leaves view E' x) : Leaves view E (succeeds x) := by
  intro s
  have hv := (hx s).1
  unfold Proc.succeeds
  rcases h : x s with ⟨(a | e | _ | _), s'⟩ <;> rw [h] at hv <;> exact ⟨hv, fun _ h => nomatch h⟩

/-- A call on a part of the state that the view does not show. -/
theorem Leaves.zoom {κ' : Type} {view' : τ → κ'} {x : Proc τ ε α} {part : σ → τ} {put : τ → σ → σ}
    (hx : Leaves view' E x) (hput : ∀ s t, view (put t s) = view s) : Leaves view E (zoom part put x) :=
  fun s => ⟨hput s _, (hx (part s)).2⟩

end Leaves

/-! ## Procedures that preserve a property -/

/-- However the call ends, the property holds afterwards if it held before. -/
def Preserves (I : σ → Prop) (x : Proc σ ε α) : Prop := ∀ s, I s → I (x s).2

section Preserves

variable {I : σ → Prop}

theorem preserves_pure (a : α) : Preserves I (pure a : Proc σ ε α) := fun _ h => h

theorem preserves_get : Preserves I (get : Proc σ ε σ) := fun _ h => h

theorem preserves_crash : Preserves I (crash : Proc σ ε α) := fun _ h => h

theorem preserves_fail (e : ε) : Preserves I (fail e : Proc σ ε α) := fun _ h => h

theorem preserves_modify {f : σ → σ} (h : ∀ s, I s → I (f s)) : Preserves I (modify f : Proc σ ε Unit) := h

theorem preserves_lift (x : Except ε α) : Preserves I (lift x : Proc σ ε α) := by
  intro s h
  cases x <;> exact h

theorem Preserves.bind {x : Proc σ ε α} {f : α → Proc σ ε β} (hx : Preserves I x) (hf : ∀ a, Preserves I (f a)) :
    Preserves I (x >>= f) := by
  intro s hs
  have hI := hx s hs
  rcases h : x s with ⟨(a | e | _ | _), s'⟩ <;> rw [h] at hI
  · rw [bind_of_ok h]; exact hf a s' hI
  · rw [bind_of_err h]; exact hI
  · rw [bind_of_crash h]; exact hI
  · rw [bind_of_block h]; exact hI

theorem Preserves.forEach {f : α → Proc σ ε Unit} (hf : ∀ a, Preserves I (f a)) : ∀ l, Preserves I (forEach f l)
  | [] => preserves_pure ()
  | a :: l => (hf a).bind fun _ => Preserves.forEach hf l

theorem Preserves.ignoreErr {x : Proc σ ε Unit} (hx : Preserves I x) : Preserves I (ignoreErr x) := by
  intro s hs
  have hI := hx s hs
  unfold Proc.ignoreErr
  rcases h : x s with ⟨(a | e | _ | _), s'⟩ <;> rw [h] at hI <;> exact hI

theorem Preserves.succeeds {x : Proc σ ε Unit} (hx : Preserves I x) : Preserves I (succeeds x) := by
  intro s hs
  have hI := hx s hs
  unfold Proc.succeeds
  rcases h : x s with ⟨(a | e | _ | _), s'⟩ <;> rw [h] at hI <;> exact hI

/-- A property of a part of the state. -/
theorem Preserves.zoom {J : τ → Prop} {x : Proc τ ε α} {part : σ → τ} {put : τ → σ → σ} (hx : Preserves J x)
    (hpart : ∀ s, I s → J (part s)) (hput : ∀ s t, I s → J t → I (put t s)) : Preserves I (zoom part put x) :=
  fun s hs => hput s _ hs (hx (part s) (hpart s hs))

end Preserves

/-! ## Runs of calls -/

section Runs

variable {ι : Type}

/-- Each call is made on the state that the one before left, whatever that came to. -/
def runAll (call : ι → Proc σ ε α) : List ι → σ → List (Outcome ε α) × σ
  | [], s => ([], s)
  | c :: cs, s =>
    let rest := runAll call cs (call c s).2
    ((call c s).1 :: rest.1, rest.2)

theorem runAll_simulates {call : ι → Proc σ ε α} {call' : ι → Proc τ ε α} {R : σ → τ → Prop}
    (hstep : ∀ c s t, R s t → (call c s).1 = (call' c t).1 ∧ R (call c s).2 (call' c t).2) :
    ∀ (cs : List ι) {s : σ} {t : τ}, R s t →
      (runAll call cs s).1 = (runAll call' cs t).1 ∧ R (runAll call cs s).2 (runAll call' cs t).2
  | [], _, _, h => ⟨rfl, h⟩
  | c :: cs, s, t, h => by
    obtain ⟨hout, hnext⟩ := hstep c s t h
    obtain ⟨houts, hlast⟩ := runAll_simulates hstep cs hnext
    exact ⟨congrArg₂ List.cons hout houts, hlast⟩

end Runs

end Proc

end Wig.Lib
