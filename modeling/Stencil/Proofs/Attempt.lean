import Stencil.Attempt

/-! Operations that may stop halfway, taken apart where they came to their end and compared step by
step. -/

namespace Stencil.Attempt

variable {σ τ α β : Type}

theorem andThen_congr {a b : Attempt σ α} {f g : σ → α → Attempt σ β} (first : a = b)
    (same : ∀ target value, b = .done target value → f target value = g target value) :
    a.andThen f = b.andThen g := by
  subst first
  obtain ⟨target, result⟩ := a
  cases result with
  | error e => rfl
  | ok value => exact same target value rfl

theorem eachFrom_congr {f g : Nat → σ → β → Attempt σ β} {items : List σ} {index : Nat}
    (same : ∀ i item, items[i]? = some item → ∀ carried,
      f (index + i) item carried = g (index + i) item carried) (carried : β) :
    eachFrom f index items carried = eachFrom g index items carried := by
  induction items generalizing index carried with
  | nil => rfl
  | cons item rest ih =>
      have others : ∀ i item, rest[i]? = some item → ∀ carried,
          f (index + 1 + i) item carried = g (index + 1 + i) item carried := by
        intro i other at_
        rw [Nat.add_assoc, Nat.add_comm 1 i]
        exact same (i + 1) other (by rw [List.getElem?_cons_succ, at_])
      have here := same 0 item List.getElem?_cons_zero carried
      rw [Nat.add_zero] at here
      rw [eachFrom, eachFrom, here]
      split
      · rfl
      · rw [ih others]

theorem each_congr {f g : Nat → σ → β → Attempt σ β} {items : List σ}
    (same : ∀ i item, items[i]? = some item → ∀ carried, f i item carried = g i item carried)
    (carried : β) : each f items carried = each g items carried :=
  eachFrom_congr (fun i item at_ => by rw [Nat.zero_add]; exact same i item at_) carried

theorem within_done (target : σ) (value : α) (put : σ → τ) :
    (done target value).within put = done (put target) value := rfl

theorem done_of_andThen {a : Attempt σ α} {f : σ → α → Attempt σ β} {target : σ} {value : β}
    (ran : a.andThen f = .done target value) :
    ∃ middle first, a = .done middle first ∧ f middle first = .done target value := by
  obtain ⟨middle, result⟩ := a
  cases result with
  | error e => cases ran
  | ok first => exact ⟨middle, first, rfl, ran⟩

theorem done_of_within {a : Attempt σ α} {put : σ → τ} {target : τ} {value : α}
    (ran : a.within put = .done target value) : ∃ inner, target = put inner :=
  ⟨a.target, (congrArg Attempt.target ran).symm⟩

/-- The operation comes to its end without an error. -/
def Completes (a : Attempt σ α) : Prop := ∃ target value, a = .done target value

theorem Completes.within {a : Attempt σ α} (completes : a.Completes) (put : σ → τ) :
    (a.within put).Completes := by
  obtain ⟨target, value, rfl⟩ := completes
  exact ⟨put target, value, rfl⟩

theorem Completes.mapResult {a : Attempt σ α} (completes : a.Completes) (f : α → β) :
    (a.mapResult f).Completes := by
  obtain ⟨target, value, rfl⟩ := completes
  exact ⟨target, f value, rfl⟩

theorem Completes.andThen {a : Attempt σ α} {next : σ → α → Attempt σ β}
    (completes : a.Completes) (later : ∀ target value, (next target value).Completes) :
    (a.andThen next).Completes := by
  obtain ⟨target, value, rfl⟩ := completes
  exact later target value

theorem each_completes {step : Nat → σ → β → Attempt σ β}
    (steps : ∀ index item carried, (step index item carried).Completes) (items : List σ)
    (carried : β) : (each step items carried).Completes := by
  unfold each
  generalize 0 = index
  induction items generalizing index carried with
  | nil => exact ⟨[], carried, rfl⟩
  | cons item rest ih =>
      obtain ⟨changed, value, ran⟩ := steps index item carried
      rw [eachFrom, ran]
      exact (ih value (index + 1)).within (changed :: ·)

end Stencil.Attempt
