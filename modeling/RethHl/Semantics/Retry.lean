import Mathlib.Data.List.Forall2
import Mathlib.Data.Nat.Find
import Mathlib.Logic.Function.Iterate

/-!
# Looking again until something is found

A loop without a counter: look for something in the current state; if it is not there, fetch a new
state and look again. The rounds are counted by fuel, and a loop that runs out of fuel has no
result, so that a loop which **ends** is one that has a result for some amount of fuel.

A fetch may fail, which ends the loop with an error. When the fetches succeed, the states are the
iterates of one function, and the loop ends exactly when one of them holds what is looked for
(`retry_eq_some_iff`). It stops at the first.

Several such loops may run one after the other on the same states, each from where the one before
stopped. Stopping at the first state is then the best choice: the loops all end exactly when there
are states to stop at that do not go back (`stops_iff`).
-/

universe u v w

variable {σ : Type u} {β : Type v} {ε : Type w}

/-- Look for something, and fetch a new state as long as it is not there. -/
def retry (found : σ → Option β) (fetch : σ → Except ε σ) : ℕ → σ → Option (Except ε (β × σ))
  | 0, _ => none
  | fuel + 1, s =>
    match found s with
    | some b => some (.ok (b, s))
    | none =>
      match fetch s with
      | .ok s' => retry found fetch fuel s'
      | .error e => some (.error e)

namespace Retry

/-- The first state on the way that holds what is looked for is `n` fetches away. -/
def FirstFound (found : σ → Option β) (next : σ → σ) (s : σ) (n : ℕ) : Prop :=
  (found (next^[n] s)).isSome ∧ ∀ m < n, found (next^[m] s) = none

/-- What is found somewhere is found somewhere first. -/
theorem exists_firstFound {found : σ → Option β} {next : σ → σ} {s : σ} {n : ℕ}
    (h : (found (next^[n] s)).isSome) : ∃ m ≤ n, FirstFound found next s m := by
  have hex : ∃ m, (found (next^[m] s)).isSome = true := ⟨n, h⟩
  refine ⟨Nat.find hex, Nat.find_min' hex h, Nat.find_spec hex, fun m hm ↦ ?_⟩
  exact Option.not_isSome_iff_eq_none.1 (Nat.find_min hex hm)

theorem FirstFound.unique {found : σ → Option β} {next : σ → σ} {s : σ} {n m : ℕ}
    (hn : FirstFound found next s n) (hm : FirstFound found next s m) : n = m := by
  rcases Nat.lt_trichotomy n m with hlt | heq | hgt
  · have := hn.1
    rw [hm.2 n hlt] at this
    cases this
  · exact heq
  · have := hm.1
    rw [hn.2 m hgt] at this
    cases this

/-- The search from the next state is one fetch shorter. -/
theorem firstFound_succ {found : σ → Option β} {next : σ → σ} {s : σ} {n : ℕ}
    (h : found s = none) : FirstFound found next s (n + 1) ↔ FirstFound found next (next s) n := by
  constructor
  · rintro ⟨hfound, hbefore⟩
    exact ⟨hfound, fun m hm ↦ hbefore (m + 1) (Nat.succ_lt_succ hm)⟩
  · rintro ⟨hfound, hbefore⟩
    refine ⟨hfound, fun m hm ↦ ?_⟩
    cases m with
    | zero => exact h
    | succ m => exact hbefore m (Nat.lt_of_succ_lt_succ hm)

/-- **What the loop returns** when the fetches succeed: what the first state holds that holds
anything, if there was fuel enough to get there. -/
theorem retry_eq_some_iff {found : σ → Option β} {fetch : σ → Except ε σ} {next : σ → σ}
    (hfetch : ∀ s, fetch s = .ok (next s)) {fuel : ℕ} {s : σ} {r : Except ε (β × σ)} :
    retry found fetch fuel s = some r ↔
      ∃ n < fuel, FirstFound found next s n ∧
        ∃ b, found (next^[n] s) = some b ∧ r = .ok (b, next^[n] s) := by
  induction fuel generalizing s with
  | zero => simp [retry]
  | succ fuel ih =>
    rw [retry]
    cases hs : found s with
    | some b =>
      -- found in the first round: nothing is fetched
      have hzero : FirstFound found next s 0 :=
        ⟨Option.isSome_of_mem hs, fun m hm ↦ absurd hm (Nat.not_lt_zero m)⟩
      constructor
      · intro h
        exact ⟨0, Nat.succ_pos fuel, hzero, b, hs, (Option.some.inj h).symm⟩
      · rintro ⟨n, -, hn, b', hb', rfl⟩
        obtain rfl := hn.unique hzero
        obtain rfl : b = b' := Option.some.inj (hs.symm.trans hb')
        rfl
    | none =>
      simp only [hfetch]
      rw [ih]
      constructor
      · rintro ⟨n, hn, hfirst, hr⟩
        exact ⟨n + 1, Nat.succ_lt_succ hn, (firstFound_succ hs).2 hfirst, hr⟩
      · rintro ⟨n, hn, hfirst, hr⟩
        cases n with
        | zero =>
          have hsome : (found s).isSome := hfirst.1
          rw [hs] at hsome
          cases hsome
        | succ n => exact ⟨n, Nat.lt_of_succ_lt_succ hn, (firstFound_succ hs).1 hfirst, hr⟩

/-! ### One loop after the other -/

/-- Loops that look for one thing after the other, each from the state where the one before
stopped, all end. -/
def Stops (next : σ → σ) : List (σ → Option β) → σ → Prop
  | [], _ => True
  | found :: rest, s => ∃ n, FirstFound found next s n ∧ Stops next rest (next^[n] s)

/-- Stops for the loops that start `n` fetches after `s`, counted from `s`. -/
theorem stops_iterate_iff {next : σ → σ} {founds : List (σ → Option β)} {s : σ} {n : ℕ} :
    Stops next founds (next^[n] s) ↔
      ∃ stops : List ℕ, (∀ k ∈ stops, n ≤ k) ∧ stops.Pairwise (· ≤ ·) ∧
        List.Forall₂ (fun found k ↦ (found (next^[k] s)).isSome = true) founds stops := by
  induction founds generalizing n with
  | nil => exact ⟨fun _ ↦ ⟨[], by simp, List.Pairwise.nil, List.Forall₂.nil⟩, fun _ ↦ trivial⟩
  | cons found rest ih =>
    constructor
    · rintro ⟨m, hm, hrest⟩
      rw [← Function.iterate_add_apply] at hrest
      obtain ⟨stops, hbound, hsorted, hstops⟩ := ih.1 hrest
      have hfound : (found (next^[m + n] s)).isSome := by
        rw [Function.iterate_add_apply]
        exact hm.1
      refine ⟨(m + n) :: stops, fun k hk ↦ ?_, List.pairwise_cons.2 ⟨hbound, hsorted⟩,
        List.Forall₂.cons hfound hstops⟩
      rcases List.mem_cons.1 hk with rfl | hk
      · exact Nat.le_add_left n m
      · exact Nat.le_trans (Nat.le_add_left n m) (hbound k hk)
    · rintro ⟨stops, hbound, hsorted, hstops⟩
      obtain ⟨k, stops, hk, hrest, rfl⟩ := List.forall₂_cons_left_iff.1 hstops
      obtain ⟨hafter, hsorted⟩ := List.pairwise_cons.1 hsorted
      have hnk : n ≤ k := hbound k List.mem_cons_self
      have hsome : (found (next^[k - n] (next^[n] s))).isSome := by
        rw [← Function.iterate_add_apply, Nat.sub_add_cancel hnk]
        exact hk
      -- the loop stops at `k` or before it, so the stops of the others are still ahead
      obtain ⟨m, hle, hm⟩ := exists_firstFound hsome
      refine ⟨m, hm, ?_⟩
      rw [← Function.iterate_add_apply]
      refine ih.2 ⟨stops, fun j hj ↦ ?_, hsorted, hrest⟩
      have hkj : k ≤ j := hafter j hj
      omega

/-- **Stopping at the first state loses nothing.** The loops all end exactly when there are states
to stop at, one for each loop and none before the one of the loop before. -/
theorem stops_iff {next : σ → σ} {founds : List (σ → Option β)} {s : σ} :
    Stops next founds s ↔
      ∃ stops : List ℕ, stops.Pairwise (· ≤ ·) ∧
        List.Forall₂ (fun found k ↦ (found (next^[k] s)).isSome = true) founds stops := by
  rw [show s = next^[0] s from rfl, stops_iterate_iff]
  simp

end Retry
