import Mathlib.Algebra.NeZero
import Mathlib.Algebra.Order.Ring.Nat
import Mathlib.Order.Monotone.Basic

/-!
# Polling until a deadline

A loop asks again and again, with a pause of a fixed length after each answer that tells nothing,
and the whole loop is cut off at a deadline. An attempt takes some time and gives an outcome; what
happens at the deadline itself still counts.

`poll` is the loop, from an attempt and a time on, with the number of attempts that were started.
The pause is positive, so that it ends whatever the attempts do. `poll_eq_some_iff` says what it
returns: **the outcome of the first attempt that has one, if it comes in time**.
-/

universe u

namespace Deadline

variable {β : Type u} (attempts : ℕ → ℕ × Option β) (interval deadline : ℕ)

/-- The loop: the outcome, and the number of attempts that were started. -/
def poll [NeZero interval] (n now : ℕ) : Option β × ℕ :=
  if deadline < now + (attempts n).1 then (none, n + 1)
  else
    match (attempts n).2 with
    | some b => (some b, n + 1)
    | none =>
      if deadline < now + (attempts n).1 + interval then (none, n + 1)
      else poll (n + 1) (now + (attempts n).1 + interval)
termination_by deadline - now
decreasing_by
  have hpos := NeZero.pos interval
  omega

/-- When an attempt starts, if none before it has an outcome. -/
def startAt : ℕ → ℕ
  | 0 => 0
  | n + 1 => startAt n + (attempts n).1 + interval

/-- The first attempt with an outcome. -/
def Answers (n : ℕ) (b : β) : Prop :=
  (attempts n).2 = some b ∧ ∀ m < n, (attempts m).2 = none

variable {attempts interval deadline}

theorem Answers.unique {n m : ℕ} {b c : β} (hn : Answers attempts n b)
    (hm : Answers attempts m c) : n = m ∧ b = c := by
  rcases Nat.lt_trichotomy n m with hlt | rfl | hgt
  · exact nomatch (hm.2 n hlt).symm.trans hn.1
  · exact ⟨rfl, Option.some.inj (hn.1.symm.trans hm.1)⟩
  · exact nomatch (hn.2 m hgt).symm.trans hm.1

theorem monotone_startAt : Monotone (startAt attempts interval) :=
  monotone_nat_of_le_succ fun _ ↦ Nat.le_add_right_of_le (Nat.le_add_right _ _)

/-- Each attempt comes at least one pause after the one before. -/
theorem mul_le_startAt (n : ℕ) : n * interval ≤ startAt attempts interval n := by
  induction n with
  | zero => exact (Nat.zero_mul interval).le
  | succ n ih =>
    rw [Nat.succ_mul, startAt]
    exact Nat.add_le_add_right (ih.trans (Nat.le_add_right _ _)) _

/-- No outcome comes in time after an attempt at which the loop is cut off. -/
theorem not_in_time {k n : ℕ} (hlate : deadline < startAt attempts interval k + (attempts k).1 ∨
      (attempts k).2 = none ∧ deadline < startAt attempts interval (k + 1))
    (hk : ∀ m < k, (attempts m).2 = none) {b : β} (hn : Answers attempts n b) :
    deadline < startAt attempts interval n + (attempts n).1 := by
  rcases Nat.lt_trichotomy n k with hlt | rfl | hgt
  · exact nomatch (hk n hlt).symm.trans hn.1
  · exact hlate.resolve_right fun h ↦ nomatch h.1.symm.trans hn.1
  · have hnext : startAt attempts interval (k + 1) ≤ startAt attempts interval n :=
      monotone_startAt hgt
    rw [startAt] at hlate hnext
    rcases hlate with hlate | ⟨-, hlate⟩ <;> omega

section Poll

variable [NeZero interval]

theorem poll_of_late {n now : ℕ} (h : deadline < now + (attempts n).1) :
    poll attempts interval deadline n now = (none, n + 1) := by
  rw [poll, if_pos h]

theorem poll_of_some {n now : ℕ} (h : now + (attempts n).1 ≤ deadline) {b : β}
    (hanswer : (attempts n).2 = some b) :
    poll attempts interval deadline n now = (some b, n + 1) := by
  rw [poll, if_neg (Nat.not_lt.2 h), hanswer]

theorem poll_of_none {n now : ℕ} (h : now + (attempts n).1 ≤ deadline)
    (hanswer : (attempts n).2 = none) :
    poll attempts interval deadline n now =
      if deadline < now + (attempts n).1 + interval then (none, n + 1)
      else poll attempts interval deadline (n + 1) (now + (attempts n).1 + interval) := by
  rw [poll, if_neg (Nat.not_lt.2 h), hanswer]

/-- **How the loop ends**, from an attempt on: with an outcome in time, or cut off. -/
theorem poll_cases (n : ℕ) (hbefore : ∀ m < n, (attempts m).2 = none)
    (hstart : startAt attempts interval n ≤ deadline) :
    ∃ k, n ≤ k ∧ startAt attempts interval k ≤ deadline ∧
      ((∃ b, Answers attempts k b ∧ startAt attempts interval k + (attempts k).1 ≤ deadline ∧
          poll attempts interval deadline n (startAt attempts interval n) = (some b, k + 1)) ∨
        ((deadline < startAt attempts interval k + (attempts k).1 ∨
            (attempts k).2 = none ∧ deadline < startAt attempts interval (k + 1)) ∧
          (∀ m < k, (attempts m).2 = none) ∧
          poll attempts interval deadline n (startAt attempts interval n) = (none, k + 1))) := by
  -- the time that is left gets less from attempt to attempt
  induction hleft : deadline - startAt attempts interval n using Nat.strong_induction_on
    generalizing n with
  | h left ih =>
    rcases Nat.lt_or_ge deadline (startAt attempts interval n + (attempts n).1) with hlate | htime
    · exact ⟨n, le_rfl, hstart, Or.inr ⟨Or.inl hlate, hbefore, poll_of_late hlate⟩⟩
    · rcases hanswer : (attempts n).2 with - | b
      · have hbefore' : ∀ m < n + 1, (attempts m).2 = none := by
          intro m hm
          rcases Nat.lt_succ_iff_lt_or_eq.1 hm with hm | rfl
          · exact hbefore m hm
          · exact hanswer
        rw [poll_of_none htime hanswer]
        by_cases hnext : deadline < startAt attempts interval n + (attempts n).1 + interval
        · rw [if_pos hnext]
          exact ⟨n, le_rfl, hstart, Or.inr ⟨Or.inr ⟨hanswer, hnext⟩, hbefore, rfl⟩⟩
        · have hpos := NeZero.pos interval
          rw [if_neg hnext]
          obtain ⟨k, hk, hkstart, hcases⟩ := ih _
            (show deadline - startAt attempts interval (n + 1) < left by rw [startAt]; omega)
            (n + 1) hbefore' (Nat.not_lt.1 hnext) rfl
          exact ⟨k, (Nat.le_succ n).trans hk, hkstart, hcases⟩
      · exact ⟨n, le_rfl, hstart, Or.inl ⟨b, ⟨hanswer, hbefore⟩, htime, poll_of_some htime hanswer⟩⟩

/-- **What the loop returns**: the outcome of the first attempt that has one, if it comes in
time. -/
theorem poll_eq_some_iff {b : β} :
    (poll attempts interval deadline 0 0).1 = some b ↔
      ∃ n, Answers attempts n b ∧ startAt attempts interval n + (attempts n).1 ≤ deadline := by
  obtain ⟨k, -, -, hcases⟩ := @poll_cases β attempts interval deadline _ 0
    (fun m hm ↦ absurd hm (Nat.not_lt_zero m)) (Nat.zero_le _)
  rcases hcases with ⟨c, hc, htime, hpoll⟩ | ⟨hlate, hk, hpoll⟩
  · rw [show poll attempts interval deadline 0 0 = (some c, k + 1) from hpoll]
    refine ⟨fun h ↦ ⟨k, Option.some.inj h ▸ hc, htime⟩, fun ⟨n, hn, _⟩ ↦ ?_⟩
    rw [(hn.unique hc).2]
  · rw [show poll attempts interval deadline 0 0 = (none, k + 1) from hpoll]
    refine ⟨fun h ↦ (nomatch h), fun ⟨n, hn, htime⟩ ↦ ?_⟩
    exact absurd (not_in_time hlate hk hn) (Nat.not_lt.2 htime)

/-- The number of attempts is bounded by the pauses that fit in. -/
theorem poll_count_le : (poll attempts interval deadline 0 0).2 ≤ deadline / interval + 1 := by
  obtain ⟨k, -, hstart, hcases⟩ := @poll_cases β attempts interval deadline _ 0
    (fun m hm ↦ absurd hm (Nat.not_lt_zero m)) (Nat.zero_le _)
  have hk : k ≤ deadline / interval :=
    (Nat.le_div_iff_mul_le (NeZero.pos interval)).2 ((mul_le_startAt k).trans hstart)
  rcases hcases with ⟨b, -, -, hpoll⟩ | ⟨-, -, hpoll⟩
  · rw [show poll attempts interval deadline 0 0 = (some b, k + 1) from hpoll]
    exact Nat.succ_le_succ hk
  · rw [show poll attempts interval deadline 0 0 = (none, k + 1) from hpoll]
    exact Nat.succ_le_succ hk

end Poll

end Deadline
