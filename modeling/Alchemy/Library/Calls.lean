import Alchemy.Library.Program

/-! Which operations a program can call at all, whatever the answers. This is read off its text
part by part, and gives a contract for every invariant of logs that these calls keep.
-/

namespace Interaction

universe u v w

variable {Op : Type u} {Answer : Op → Type v} {α β ε : Type w} {allowed : Op → Prop}

namespace Prog

/-- Every call of the program is an allowed one. -/
def Calls (allowed : Op → Prop) : Prog Answer α → Prop
  | .pure _ => True
  | .call op next => allowed op ∧ ∀ answer, (next answer).Calls allowed

theorem calls_bind {program : Prog Answer α} {rest : α → Prog Answer β}
    (first : program.Calls allowed) (second : ∀ result, (rest result).Calls allowed)
    : (program >>= rest).Calls allowed := by
  induction program with
  | pure result => exact second result
  | call op next ih => exact ⟨first.1, fun answer => ih answer (first.2 answer)⟩

theorem calls_any (program : Prog Answer α) : program.Calls (fun _ => True) := by
  induction program with
  | pure => exact trivial
  | call op next ih => exact ⟨trivial, ih⟩

/-- An invariant of logs that the allowed calls keep holds in the end, and all along it can be
used to justify the calls.
-/
theorem Calls.meets {rely : List (Done Answer) → (op : Op) → Answer op → Prop}
    {obliged : List (Done Answer) → Op → Prop} {invariant : List (Done Answer) → Prop}
    {program : Prog Answer α} {log : List (Done Answer)} (calls : program.Calls allowed)
    (holds : invariant log)
    (justified : ∀ log op, invariant log → allowed op → obliged log op)
    (kept : ∀ log op answer, invariant log → allowed op → invariant (⟨op, answer⟩ :: log))
    : program.Meets rely obliged (fun later _ => invariant later) log := by
  induction program generalizing log with
  | pure result => exact holds
  | call op next ih =>
      exact ⟨justified log op holds calls.1,
        fun answer _ => ih answer (calls.2 answer) (kept log op answer holds calls.1)⟩

end Prog

theorem calls_then {first : ExceptT ε (Prog Answer) α} {rest : α → ExceptT ε (Prog Answer) β}
    (calls : Prog.Calls allowed first) (onward : ∀ result, Prog.Calls allowed (rest result))
    : Prog.Calls allowed (first >>= rest : ExceptT ε (Prog Answer) β) := by
  refine Prog.calls_bind calls ?_
  intro result
  cases result with
  | ok value => exact onward value
  | error stop => exact trivial

theorem calls_ok {result : α}
    : Prog.Calls allowed (pure result : ExceptT ε (Prog Answer) α) :=
  trivial

theorem calls_throw {stop : ε}
    : Prog.Calls allowed (throw stop : ExceptT ε (Prog Answer) α) :=
  trivial

theorem calls_ite {condition : Prop} [Decidable condition]
    {first second : ExceptT ε (Prog Answer) α} (yes : Prog.Calls allowed first)
    (no : Prog.Calls allowed second)
    : Prog.Calls allowed (if condition then first else second : ExceptT ε (Prog Answer) α) := by
  split
  · exact yes
  · exact no

end Interaction
