import Stencil.Error

/-! Operations that change a target and may stop with an error halfway: what they leave of the
target is part of their outcome. -/

namespace Stencil

structure Attempt (σ α : Type) where
  target : σ
  result : Except FillError α

namespace Attempt

variable {σ α β : Type}

def done (target : σ) (value : α) : Attempt σ α := ⟨target, .ok value⟩

def stop (target : σ) (error : FillError) : Attempt σ α := ⟨target, .error error⟩

/-- Continue on what is left, unless an error stopped the operation. -/
def andThen (first : Attempt σ α) (next : σ → α → Attempt σ β) : Attempt σ β :=
  match first.result with
  | .error e => stop first.target e
  | .ok value => next first.target value

def mapResult (f : α → β) (a : Attempt σ α) : Attempt σ β := ⟨a.target, a.result.map f⟩

/-- The operation on a part of a greater whole. -/
def within {τ : Type} (put : σ → τ) (a : Attempt σ α) : Attempt τ α := ⟨put a.target, a.result⟩

/-- Change the items of a list one after the other, each told its index and what the ones
before it gave. Items after an error stay as they were. -/
def eachFrom (step : Nat → σ → β → Attempt σ β) : Nat → List σ → β → Attempt (List σ) β
  | _, [], carried => done [] carried
  | index, item :: rest, carried =>
      match step index item carried with
      | ⟨item, .error e⟩ => stop (item :: rest) e
      | ⟨item, .ok carried⟩ =>
          (eachFrom step (index + 1) rest carried).within (item :: ·)

def each (step : Nat → σ → β → Attempt σ β) (items : List σ) (carried : β) :
    Attempt (List σ) β :=
  eachFrom step 0 items carried

theorem andThen_done (target : σ) (value : α) (next : σ → α → Attempt σ β) :
    (done target value).andThen next = next target value := rfl

theorem andThen_stop (target : σ) (e : FillError) (next : σ → α → Attempt σ β) :
    (stop target e : Attempt σ α).andThen next = stop target e := rfl

end Attempt

end Stencil
