import Cpex.ForStd.Schedule

/-! # Logs

A list of what has happened, oldest first, that grows at its end.
-/

namespace Log

variable {α : Type}

/-- Each event of the log was allowed by those before it. -/
def Caused (allowed : List α → α → Prop) (log : List α) : Prop :=
  Schedule.Always (fun past e => past ++ [e]) allowed log []

section
variable {allowed : List α → α → Prop} {log es : List α}

theorem run_snoc_eq_append (es past : List α) :
    Schedule.run (fun past e => past ++ [e]) es past = past ++ es := by
  induction es generalizing past with
  | nil => exact (List.append_nil past).symm
  | cons e es ih => exact (ih (past ++ [e])).trans (List.append_cons past e es).symm

theorem caused_nil : Caused allowed [] := Schedule.always_nil

theorem Caused.append (hlog : Caused allowed log)
    (hes : ∀ e ∈ es, ∀ more ⊆ es, allowed (log ++ more) e) : Caused allowed (log ++ es) := by
  refine Schedule.always_append.mpr ⟨hlog, fun before e after hsplit => ?_⟩
  rw [run_snoc_eq_append, run_snoc_eq_append]
  subst hsplit
  exact hes e (List.mem_append_right before List.mem_cons_self) before
    (List.subset_append_left before _)

instance [∀ past e, Decidable (allowed past e)] (log : List α) : Decidable (Caused allowed log) :=
  inferInstanceAs (Decidable (Schedule.Always ..))

end

/-- `opening` is in the log, and `closing` is not in it after that. -/
def Live (opening closing : α) : List α → Prop
  | [] => False
  | e :: log => e = opening ∧ closing ∉ log ∨ Live opening closing log

section
variable {opening closing : α} {log es : List α}

theorem live_append :
    Live opening closing (log ++ es) ↔
      Live opening closing log ∧ closing ∉ es ∨ Live opening closing es := by
  induction log with
  | nil => exact ⟨.inr, fun h => h.resolve_left (·.1)⟩
  | cons e log ih =>
    simp only [List.cons_append, Live, ih, List.mem_append, not_or]
    tauto

theorem Live.mem (h : Live opening closing log) : opening ∈ log := by
  induction log with
  | nil => exact h.elim
  | cons e log ih =>
    rcases h with ⟨rfl, _⟩ | h
    · exact List.mem_cons_self
    · exact List.mem_cons_of_mem e (ih h)

theorem live_of_mem (hmem : opening ∈ log) (hne : closing ∉ log) : Live opening closing log := by
  obtain ⟨before, after, rfl⟩ := List.append_of_mem hmem
  refine live_append.mpr (.inr (.inl ⟨rfl, fun hc => ?_⟩))
  exact hne (List.mem_append_right before (List.mem_cons_of_mem opening hc))

/-- What is open stays open while nothing closes it. -/
theorem Live.append (h : Live opening closing log) (hne : closing ∉ es) :
    Live opening closing (log ++ es) :=
  live_append.mpr (.inl ⟨h, hne⟩)

end

instance Live.decidable [DecidableEq α] (opening closing : α) :
    (log : List α) → Decidable (Live opening closing log)
  | [] => .isFalse id
  | _ :: log =>
    have := Live.decidable opening closing log
    inferInstanceAs (Decidable (_ ∨ _))

end Log
