import Mathlib.Data.List.Basic

/-! Programs that call operations of an environment, and rules for what such a program does
whatever the environment answers. The environment may be shared with other programs, so an
answer is constrained only by what the caller may rely on.
-/

namespace Interaction

universe u v w

/-- A program ends with a result, or calls an operation and goes on with its answer. -/
inductive Prog {Op : Type u} (Answer : Op → Type v) (α : Type w)
  | pure (result : α)
  | call (op : Op) (next : Answer op → Prog Answer α)

/-- A call that has returned. -/
structure Done {Op : Type u} (Answer : Op → Type v) where
  op : Op
  answer : Answer op

variable {Op : Type u} {Answer : Op → Type v}

namespace Prog

def bind {α β : Type w} (program : Prog Answer α) (rest : α → Prog Answer β) : Prog Answer β :=
  match program with
  | .pure result => rest result
  | .call op next => .call op (fun answer => (next answer).bind rest)

instance : Monad (Prog Answer) where
  pure := .pure
  bind := bind

/-- The program that calls one operation and returns its answer. -/
def perform (op : Op) : Prog Answer (Answer op) :=
  .call op .pure

/-! ### What a program does under every answer -/

/-- A program started after the calls in `log`, newest first. If every answer obeys `rely`,
then every call it makes is one that `obliged` allows at that point, and it ends with a log
and a result in `post`.
-/
def Meets {α : Type w} (rely : List (Done Answer) → (op : Op) → Answer op → Prop)
    (obliged : List (Done Answer) → Op → Prop) (post : List (Done Answer) → α → Prop)
    : Prog Answer α → List (Done Answer) → Prop
  | .pure result, log => post log result
  | .call op next, log =>
      obliged log op
      ∧ ∀ answer, rely log op answer
        → (next answer).Meets rely obliged post (⟨op, answer⟩ :: log)

section Rules

variable {α β ε : Type w} {rely : List (Done Answer) → (op : Op) → Answer op → Prop}
  {obliged allowed : List (Done Answer) → Op → Prop} {log : List (Done Answer)}

/-- Sequencing: the second program starts with the log and the result of the first. -/
theorem meets_bind {post : List (Done Answer) → β → Prop} (program : Prog Answer α)
    (rest : α → Prog Answer β)
    : (program >>= rest).Meets rely obliged post log
      ↔ program.Meets rely obliged
          (fun later result => (rest result).Meets rely obliged post later) log := by
  induction program generalizing log with
  | pure result => exact Iff.rfl
  | call op next ih =>
      constructor
      · rintro ⟨allows, onward⟩
        exact ⟨allows, fun answer relied => (ih answer).mp (onward answer relied)⟩
      · rintro ⟨allows, onward⟩
        exact ⟨allows, fun answer relied => (ih answer).mpr (onward answer relied)⟩

/-- What a program meets, it meets with weaker demands. -/
theorem Meets.mono {post weaker : List (Done Answer) → α → Prop} {program : Prog Answer α}
    (meets : program.Meets rely obliged post log)
    (calls : ∀ later op, obliged later op → allowed later op)
    (results : ∀ later result, post later result → weaker later result)
    : program.Meets rely allowed weaker log := by
  induction program generalizing log with
  | pure result => exact results log result meets
  | call op next ih =>
      exact ⟨calls log op meets.1, fun answer relied => ih answer (meets.2 answer relied)⟩

/-- The log only grows. -/
theorem meets_of_grown {post : List (Done Answer) → α → Prop} {program : Prog Answer α}
    (meets
      : program.Meets rely obliged
          (fun later result => (∃ own, later = own ++ log) → post later result) log)
    : program.Meets rely obliged post log := by
  have grown {program : Prog Answer α} {start later : List (Done Answer)}
      (reached : ∃ own, later = own ++ start)
      (meets
        : program.Meets rely obliged
            (fun last result => (∃ own, last = own ++ start) → post last result) later)
      : program.Meets rely obliged post later := by
    induction program generalizing later with
    | pure result => exact meets reached
    | call op next ih =>
        obtain ⟨own, rfl⟩ := reached
        exact ⟨meets.1, fun answer relied =>
          ih answer ⟨⟨op, answer⟩ :: own, rfl⟩ (meets.2 answer relied)⟩
  exact grown ⟨[], rfl⟩ meets

end Rules

end Prog

/-! ### Programs that can stop early -/

/-- What is asked of a first part that may stop early: its failure is the failure of the
whole, and its success leaves the rest to do.
-/
def upon {α β ε : Type w} (rest : List (Done Answer) → α → Prop)
    (post : List (Done Answer) → Except ε β → Prop) (log : List (Done Answer))
    : Except ε α → Prop
  | .ok result => rest log result
  | .error stop => post log (.error stop)

section Early

variable {α β ε : Type w} {rely : List (Done Answer) → (op : Op) → Answer op → Prop}
  {obliged : List (Done Answer) → Op → Prop} {log : List (Done Answer)}
  {post : List (Done Answer) → Except ε β → Prop}

@[simp]
theorem upon_ok {rest : List (Done Answer) → α → Prop} (result : α)
    : upon rest post log (.ok result) ↔ rest log result :=
  Iff.rfl

/-- Sequencing of programs that can stop early. -/
theorem meets_then (first : ExceptT ε (Prog Answer) α) (rest : α → ExceptT ε (Prog Answer) β)
    : Prog.Meets rely obliged post (first >>= rest : ExceptT ε (Prog Answer) β) log
      ↔ Prog.Meets rely obliged
          (upon (fun later result => Prog.Meets rely obliged post (rest result) later) post)
          first log := by
  refine (Prog.meets_bind first (ExceptT.bindCont rest)).trans ?_
  have same : (fun later (result : Except ε α) =>
        Prog.Meets rely obliged post (ExceptT.bindCont rest result) later)
      = upon (fun later result => Prog.Meets rely obliged post (rest result) later) post := by
    funext later result
    cases result <;> rfl
  rw [same]

/-- Both branches are left to show, each under its condition. -/
theorem meets_ite {condition : Prop} [Decidable condition]
    {first second : ExceptT ε (Prog Answer) β}
    (holds : condition → Prog.Meets rely obliged post first log)
    (fails : ¬condition → Prog.Meets rely obliged post second log)
    : Prog.Meets rely obliged post
        (if condition then first else second : ExceptT ε (Prog Answer) β) log := by
  split
  · next yes => exact holds yes
  · next no => exact fails no

end Early

end Interaction
