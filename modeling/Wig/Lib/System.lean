/-
Systems that take one event after another: a step is undefined on an event that cannot happen in
the state. Runs, the states they reach, and the rules by which a property of one step becomes a
property of every run.
-/
import Wig.Lib.Proc

namespace Wig.Lib

/-- A system with states `σ` and events `η`. -/
structure System (σ η : Type) where
  step : σ → η → Option σ

namespace System

variable {σ η : Type} (S : System σ η)

/-- The state after a list of events, if each of them can happen in its turn. -/
def run : σ → List η → Option σ
  | s, [] => some s
  | s, e :: es => (S.step s e).bind fun s' => run s' es

/-- Every event of a run satisfies `P` in the state it happens in. -/
def Along (P : σ → η → Prop) : σ → List η → Prop
  | _, [] => True
  | s, e :: es => P s e ∧ ∀ s', S.step s e = some s' → Along P s' es

/-- Every state of a run, from the first to the last, satisfies `I`. -/
def Throughout (I : σ → Prop) : σ → List η → Prop
  | s, [] => I s
  | s, e :: es => I s ∧ ∀ s', S.step s e = some s' → Throughout I s' es

/-- `s` is reached from `s₀` by events that satisfy `P` where they happen. -/
def Reach (P : σ → η → Prop) (s₀ s : σ) : Prop := ∃ es, S.Along P s₀ es ∧ S.run s₀ es = some s

instance decidableAlong (P : σ → η → Prop) [∀ s e, Decidable (P s e)] : ∀ (s : σ) (es : List η),
    Decidable (S.Along P s es)
  | _, [] => isTrue trivial
  | s, e :: es =>
    have : DecidablePred fun s' => S.Along P s' es := fun s' => decidableAlong P s' es
    inferInstanceAs (Decidable (P s e ∧ ∀ s' ∈ S.step s e, S.Along P s' es))

variable {S}

@[simp] theorem run_nil (s : σ) : S.run s [] = some s := rfl

@[simp] theorem run_cons (s : σ) (e : η) (es : List η) :
    S.run s (e :: es) = (S.step s e).bind fun s' => S.run s' es := rfl

@[simp] theorem along_nil (P : σ → η → Prop) (s : σ) : S.Along P s [] := trivial

theorem along_of_mem {P : η → Prop} : ∀ (es : List η) (s : σ), (∀ e ∈ es, P e) → S.Along (fun _ e => P e) s es
  | [], _, _ => trivial
  | e :: es, _, h =>
    ⟨h e List.mem_cons_self, fun s' _ => along_of_mem es s' fun e' he' => h e' (List.mem_cons_of_mem e he')⟩

theorem along_congr {P Q : σ → η → Prop} (h : ∀ s e, P s e ↔ Q s e) :
    ∀ (es : List η) (s : σ), S.Along P s es ↔ S.Along Q s es
  | [], _ => Iff.rfl
  | e :: es, s => and_congr (h s e) (forall_congr' fun s' => imp_congr_right fun _ => along_congr h es s')

/-- Two systems that take the same steps on admitted events take the same admitted runs. -/
theorem run_congr {T : System σ η} {P : σ → η → Prop} (h : ∀ s e, P s e → T.step s e = S.step s e) :
    ∀ (es : List η) (s : σ), S.Along P s es → T.run s es = S.run s es
  | [], _, _ => rfl
  | e :: es, s, ⟨he, hrest⟩ => by
    rw [run_cons, run_cons, h s e he]
    cases hstep : S.step s e with
    | none => rfl
    | some s' => exact run_congr h es s' (hrest s' hstep)

/-- What such runs of the one keep to holds of the other. -/
theorem along_of_run_congr {T : System σ η} {P Q : σ → η → Prop} (h : ∀ s e, P s e → T.step s e = S.step s e)
    (hQ : ∀ s e, P s e → Q s e) : ∀ (es : List η) (s : σ), S.Along P s es → T.Along Q s es
  | [], _, _ => trivial
  | e :: es, s, ⟨he, hrest⟩ => ⟨hQ s e he, fun s' hs' => along_of_run_congr h hQ es s' (hrest s' (h s e he ▸ hs'))⟩

theorem run_cons_some {s s' : σ} {e : η} {es : List η} (h : S.run s (e :: es) = some s') :
    ∃ t, S.step s e = some t ∧ S.run t es = some s' := by
  rw [run_cons, Option.bind_eq_some_iff] at h; exact h

/-- What holds at the start and is kept by every admitted step holds after every admitted run. -/
theorem invariant_run {I : σ → Prop} {P : σ → η → Prop}
    (hstep : ∀ s e s', I s → P s e → S.step s e = some s' → I s') :
    ∀ (es : List η) (s s' : σ), I s → S.Along P s es → S.run s es = some s' → I s'
  | [], s, s', hi, _, h => by cases h; exact hi
  | e :: es, s, s', hi, ha, h => by
    obtain ⟨t, ht, h⟩ := run_cons_some h
    exact invariant_run hstep es t s' (hstep s e t hi ha.1 ht) (ha.2 t ht) h

/-- What holds at the start and is kept by every admitted step holds in every reached state. -/
theorem Reach.invariant {I : σ → Prop} {P : σ → η → Prop} {s₀ s : σ} (h : S.Reach P s₀ s) (h0 : I s₀)
    (hstep : ∀ s e s', I s → P s e → S.step s e = some s' → I s') : I s := by
  obtain ⟨es, ha, hr⟩ := h
  exact invariant_run hstep es s₀ s h0 ha hr

theorem run_of_step {s s' : σ} {e : η} (h : S.step s e = some s') (es : List η) : S.run s (e :: es) = S.run s' es := by
  rw [run_cons, h, Option.bind_some]

theorem run_append : ∀ (es es' : List η) {s s' : σ}, S.run s es = some s' → S.run s (es ++ es') = S.run s' es'
  | [], _, _, _, h => by rw [Option.some.inj h]; rfl
  | e :: es, es', s, s', h => by
    obtain ⟨s₁, h₁, hrest⟩ := run_cons_some h
    rw [List.cons_append, run_of_step h₁, run_append es es' hrest]

theorem run_concat : ∀ (es : List η) (e : η) (s : σ), S.run s (es ++ [e]) = (S.run s es).bind fun s' => S.step s' e
  | [], e, s => by simp
  | e' :: es, e, s => by
    rw [List.cons_append, run_cons, run_cons, Option.bind_assoc]
    exact congrArg _ (funext fun s' => run_concat es e s')

theorem along_concat {P : σ → η → Prop} :
    ∀ {es : List η} {e : η} {s : σ}, S.Along P s es → (∀ s', S.run s es = some s' → P s' e) →
    S.Along P s (es ++ [e])
  | [], _, _, _, he => ⟨he _ rfl, fun _ _ => trivial⟩
  | _ :: _, _, _, ha, he =>
    ⟨ha.1, fun s' hs' => along_concat (ha.2 s' hs') fun t ht => he t (by rw [run_cons, hs']; exact ht)⟩

/-- One more event leads from a reached state to another. -/
theorem Reach.next {P : σ → η → Prop} {s₀ s s' : σ} {e : η} (h : S.Reach P s₀ s) (he : P s e)
    (hs : S.step s e = some s') : S.Reach P s₀ s' := by
  obtain ⟨es, ha, hr⟩ := h
  refine ⟨es ++ [e], along_concat ha fun t ht => ?_, by rw [run_concat, hr]; exact hs⟩
  rw [hr] at ht
  cases ht
  exact he

/-- If an event is of `P`, in a state of `I`, exactly when it is of `R` and leads to a state of `I`,
then the runs of `P` are those of `R` that stay in `I`. -/
theorem along_iff_throughout {I : σ → Prop} {P R : σ → η → Prop}
    (h : ∀ s e, I s → (P s e ↔ R s e ∧ ∀ s', S.step s e = some s' → I s')) :
    ∀ (es : List η) (s : σ), I s → (S.Along P s es ↔ S.Throughout I s es ∧ S.Along R s es)
  | [], s, hi => ⟨fun _ => ⟨hi, trivial⟩, fun _ => trivial⟩
  | e :: es, s, hi => by
    have ih := fun s' (hi' : I s') => along_iff_throughout h es s' hi'
    constructor
    · rintro ⟨hP, hrest⟩
      obtain ⟨hR, hI⟩ := (h s e hi).1 hP
      refine ⟨⟨hi, fun s' hs' => ?_⟩, hR, fun s' hs' => ?_⟩
      · exact ((ih s' (hI s' hs')).1 (hrest s' hs')).1
      · exact ((ih s' (hI s' hs')).1 (hrest s' hs')).2
    · rintro ⟨⟨-, hthr⟩, hR, hrest⟩
      have hI : ∀ s', S.step s e = some s' → I s' := by
        intro s' hs'
        have hall := hthr s' hs'
        cases es with
        | nil => exact hall
        | cons e' es => exact hall.1
      refine ⟨(h s e hi).2 ⟨hR, hI⟩, fun s' hs' => ?_⟩
      exact (ih s' (hI s' hs')).2 ⟨hthr s' hs', hrest s' hs'⟩

theorem Throughout.head {I : σ → Prop} {s : σ} {es : List η} (h : S.Throughout I s es) : I s := by
  cases es with
  | nil => exact h
  | cons e es => exact h.1

theorem Throughout.mono {I J : σ → Prop} (hIJ : ∀ s, I s → J s) : ∀ {es : List η} {s : σ},
    S.Throughout I s es → S.Throughout J s es
  | [], s, h => hIJ s h
  | _ :: _, s, h => ⟨hIJ s h.1, fun s' hs' => (h.2 s' hs').mono hIJ⟩

/-- What every admitted step keeps holds throughout every admitted run. -/
theorem throughout_of_along {I : σ → Prop} {P : σ → η → Prop}
    (hstep : ∀ s e s', I s → P s e → S.step s e = some s' → I s') :
    ∀ (es : List η) (s : σ), I s → S.Along P s es → S.Throughout I s es
  | [], _, hi, _ => hi
  | e :: es, s, hi, ha => ⟨hi, fun s' hs' => throughout_of_along hstep es s' (hstep s e s' hi ha.1 hs') (ha.2 s' hs')⟩

/-- What an event must be for its step to stay within `I`, it is all along a run that stays there;
`K` is kept by every step. -/
theorem along_of_throughout {I K : σ → Prop} {Q : σ → η → Prop} (hK : ∀ s e s', K s → S.step s e = some s' → K s')
    (h : ∀ s e, K s → (∀ s', S.step s e = some s' → I s') → Q s e) :
    ∀ (es : List η) (s : σ), K s → S.Throughout I s es → S.Along Q s es
  | [], _, _, _ => trivial
  | e :: es, s, hk, ht =>
    ⟨h s e hk fun s' hs' => (ht.2 s' hs').head,
      fun s' hs' => along_of_throughout hK h es s' (hK s e s' hk hs') (ht.2 s' hs')⟩

/-! ## What brought a fact about -/

/-- What holds at the end of a run held at its start, or one of the events brought it about. -/
theorem run_introduced {F : σ → Prop} {P : σ → η → Prop} :
    ∀ (es : List η) {s s' : σ}, S.Along P s es → S.run s es = some s' → F s' →
    F s ∨ ∃ es₁ e es₂ s₁ s₂, es = es₁ ++ e :: es₂ ∧ S.Along P s es₁ ∧ S.run s es₁ = some s₁ ∧
      P s₁ e ∧ S.step s₁ e = some s₂ ∧
      ¬ F s₁ ∧ F s₂
  | [], s, s', _, h, hF => by cases h; exact .inl hF
  | e :: es, s, s', ha, h, hF => by
    obtain ⟨t, ht, hrest⟩ := run_cons_some h
    rcases run_introduced es (ha.2 t ht) hrest hF with hFt | ⟨es₁, e', es₂, s₁, s₂, rfl, ha₁,
      hrun, hP, hstep, hnot, hF₂⟩
    · by_cases hFs : F s
      · exact .inl hFs
      · exact .inr ⟨[], e, es, s, t, rfl, trivial, rfl, ha.1, ht, hFs, hFt⟩
    · refine .inr ⟨e :: es₁, e', es₂, s₁, s₂, rfl, ⟨ha.1, fun t' ht' => ?_⟩, (run_of_step ht es₁).trans hrun,
        hP, hstep, hnot, hF₂⟩
      obtain rfl : t = t' := Option.some.inj (ht.symm.trans ht')
      exact ha₁

/-! ## Systems over others -/

section Trace

variable {τ θ : Type} (causes : σ → η → List θ)

/-- The events of another system that the events of a run come to. -/
def trace : σ → List η → List θ
  | _, [] => []
  | s, e :: es => causes s e ++ ((S.step s e).elim [] fun s' => trace s' es)

variable {causes}

/-- If every admitted step is a run of the other system, so is every admitted run; the steps need only be such where
they lead to a state of `I`, which is not entered again once it is left. -/
theorem run_trace {T : System τ θ} {view : σ → τ} {I : σ → Prop} {P : σ → η → Prop}
    (hstep : ∀ s e s', P s e → S.step s e = some s' → I s' → I s ∧ T.run (view s) (causes s e) = some (view s')) :
    ∀ (es : List η) {s s' : σ}, S.Along P s es → S.run s es = some s' → I s' →
      I s ∧ T.run (view s) (S.trace causes s es) = some (view s')
  | [], s, s', _, h, hI => by cases h; exact ⟨hI, rfl⟩
  | e :: es, s, s', ha, h, hI => by
    obtain ⟨t, ht, hrest⟩ := run_cons_some h
    obtain ⟨hIt, hrun⟩ := run_trace hstep es (ha.2 t ht) hrest hI
    obtain ⟨hIs, hfirst⟩ := hstep s e t ha.1 ht hIt
    refine ⟨hIs, ?_⟩
    rw [trace, ht, Option.elim_some, run_append _ _ hfirst]
    exact hrun

end Trace

/-- A run is the run of the events that are not hidden, if the hidden ones change nothing. -/
theorem run_purge {hidden : η → Bool} {P : σ → η → Prop}
    (h : ∀ s e s', P s e → hidden e = true → S.step s e = some s' → s' = s) : ∀ (es : List η) {s s' : σ},
    S.Along P s es → S.run s es = some s' → S.run s (es.filter fun e => !hidden e) = some s'
  | [], _, _, _, hr => hr
  | e :: es, s, s', ha, hr => by
    obtain ⟨t, ht, hrest⟩ := run_cons_some hr
    have ih := run_purge h es (ha.2 t ht) hrest
    cases hh : hidden e with
    | true =>
      obtain rfl := h s e t ha.1 hh ht
      rw [List.filter_cons_of_neg (by simp [hh])]
      exact ih
    | false =>
      rw [List.filter_cons_of_pos (by simp [hh]), run_of_step ht]
      exact ih

/-! ## Systems of calls -/

/-- The system whose events are calls: one that returns, with a value or an error, leads to the
state it leaves. -/
def ofCalls {ε α : Type} (call : η → Proc σ ε α) : System σ η where
  step s e := match call e s with
    | (.ok _, s') => some s'
    | (.err _, s') => some s'
    | (.crash, _) => none
    | (.block, _) => none

theorem ofCalls_step {ε α : Type} {call : η → Proc σ ε α} {s s' : σ} {e : η} (h : (ofCalls call).step s e = some s') :
    (∃ a, call e s = (.ok a, s')) ∨ ∃ x, call e s = (.err x, s') := by
  simp only [ofCalls] at h
  rcases hc : call e s with ⟨(a | x | _ | _), t⟩
  · rw [hc] at h; cases h; exact .inl ⟨a, rfl⟩
  · rw [hc] at h; cases h; exact .inr ⟨x, rfl⟩
  · rw [hc] at h; cases h
  · rw [hc] at h; cases h

theorem ofCalls_ok {ε α : Type} {call : η → Proc σ ε α} {s s' : σ} {e : η} {a : α} (h : call e s = (.ok a, s')) :
    (ofCalls call).step s e = some s' := by
  simp only [ofCalls, h]

end System

end Wig.Lib
