import Alchemy.Library.Program

/-! Programs that run alone. Their environment is a state that only their own calls change; a
call may have several answers. What a program ensures holds whichever answers it gets, and it
always gets one, so it also comes to an end.
-/

namespace Interaction

universe u v w x

variable {Op : Type u} {Answer : Op → Type v} {σ : Type x}

/-- What a call can answer in a state, and the state after it. -/
structure Environment (Answer : Op → Type v) (σ : Type x) where
  answers : σ → (op : Op) → Answer op → Prop
  after : σ → Done Answer → σ

namespace Prog

/-- Every call of the program has an answer, and whatever the answers are, it ends in a state
and with a result in `post`.
-/
def Ensures {α : Type w} (env : Environment Answer σ) (post : σ → α → Prop)
    : Prog Answer α → σ → Prop
  | .pure result, state => post state result
  | .call op next, state =>
      (∃ answer, env.answers state op answer)
      ∧ ∀ answer, env.answers state op answer
        → (next answer).Ensures env post (env.after state ⟨op, answer⟩)

variable {α β : Type w} {env : Environment Answer σ} {state : σ}

theorem ensures_bind {post : σ → β → Prop} (program : Prog Answer α)
    (rest : α → Prog Answer β)
    : (program >>= rest).Ensures env post state
      ↔ program.Ensures env (fun later result => (rest result).Ensures env post later) state := by
  induction program generalizing state with
  | pure result => exact Iff.rfl
  | call op next ih =>
      exact and_congr_right' (forall_congr' (fun answer => imp_congr_right (fun _ => ih answer)))

theorem Ensures.mono {post weaker : σ → α → Prop} {program : Prog Answer α}
    (ensures : program.Ensures env post state)
    (results : ∀ later result, post later result → weaker later result)
    : program.Ensures env weaker state := by
  induction program generalizing state with
  | pure result => exact results state result ensures
  | call op next ih =>
      exact ⟨ensures.1, fun answer answers => ih answer (ensures.2 answer answers)⟩

/-- A program ends, so what it ensures is not in vain. -/
theorem Ensures.meet {first second : σ → α → Prop} {program : Prog Answer α}
    (left : program.Ensures env first state) (right : program.Ensures env second state)
    : ∃ later result, first later result ∧ second later result := by
  induction program generalizing state with
  | pure result => exact ⟨state, result, left, right⟩
  | call op next ih =>
      obtain ⟨answer, answers⟩ := left.1
      exact ih answer (left.2 answer answers) (right.2 answer answers)

end Prog

/-- What is asked of a first part that may stop early. -/
def settles {α β ε : Type w} (rest : σ → α → Prop) (post : σ → Except ε β → Prop) (state : σ)
    : Except ε α → Prop
  | .ok result => rest state result
  | .error stop => post state (.error stop)

theorem ensures_then {α β ε : Type w} {env : Environment Answer σ} {state : σ}
    {post : σ → Except ε β → Prop} (first : ExceptT ε (Prog Answer) α)
    (rest : α → ExceptT ε (Prog Answer) β)
    : Prog.Ensures env post (first >>= rest : ExceptT ε (Prog Answer) β) state
      ↔ Prog.Ensures env
          (settles (fun later result => Prog.Ensures env post (rest result) later) post)
          first state := by
  refine (Prog.ensures_bind first (ExceptT.bindCont rest)).trans ?_
  have same : (fun later (result : Except ε α) =>
        Prog.Ensures env post (ExceptT.bindCont rest result) later)
      = settles (fun later result => Prog.Ensures env post (rest result) later) post := by
    funext later result
    cases result <;> rfl
  rw [same]

end Interaction
