import Mathlib.Algebra.BigOperators.Finprod
import Mathlib.Algebra.Order.BigOperators.Group.Finset
import Mathlib.Data.Set.Card
import PollKeeper.Proofs.Poll.Message

/-!
# Counting answers

The answers of a poll are counted option by option. Counted user by user they are as many, and the users who
have one are as many as the poll counts as voters. That gives bounds for the one number by the other.
-/

namespace PollKeeper

namespace IdSet

variable {s : IdSet} {x : Int}

def toFinset (s : IdSet) : Finset Int := ⟨s.toList, s.nodup_toList⟩

@[simp] theorem mem_toFinset : x ∈ s.toFinset ↔ x ∈ s := .rfl

@[simp] theorem card_toFinset (s : IdSet) : s.toFinset.card = s.size := rfl

end IdSet

namespace Poll

variable {p : Poll} {user : UserId}

def voters (p : Poll) : Finset UserId := (IdSet.ofList p.answers).toFinset

theorem card_voters (p : Poll) : p.voters.card = p.voterCount := IdSet.card_toFinset _

theorem answersOf_ne_nil : p.answersOf user ≠ [] ↔ ∃ c ∈ p.choices, user ∈ c.voters := by
  simp [answersOf, List.filter_eq_nil_iff]

theorem mem_voters : user ∈ p.voters ↔ p.answersOf user ≠ [] := by
  rw [voters, IdSet.mem_toFinset, IdSet.mem_ofList, mem_answers, answersOf_ne_nil]

/-- The options of all users together are the users of all options together, however the users share them. -/
theorem sum_chosen (users : Finset UserId) {choices : List Choice}
    (h : ∀ c ∈ choices, ∀ user ∈ c.voters, user ∈ users) :
    ∑ user ∈ users, (choices.filter (user ∈ ·.voters)).length = (choices.map (·.voters.size)).sum := by
  induction choices with
  | nil => simp
  | cons c rest ih =>
    obtain ⟨hc, hrest⟩ := List.forall_mem_cons.mp h
    have hvoters : users.filter (· ∈ c.voters) = c.voters.toFinset := by
      ext user
      simpa using hc user
    have hfirst : ∀ user, ((c :: rest).filter (user ∈ ·.voters)).length =
        (if user ∈ c.voters then 1 else 0) + (rest.filter (user ∈ ·.voters)).length := by
      intro user
      by_cases hchosen : user ∈ c.voters <;> simp [hchosen, Nat.add_comm]
    calc ∑ user ∈ users, ((c :: rest).filter (user ∈ ·.voters)).length
        = ∑ user ∈ users, (if user ∈ c.voters then 1 else 0) +
            ∑ user ∈ users, (rest.filter (user ∈ ·.voters)).length := by
          rw [← Finset.sum_add_distrib]
          exact Finset.sum_congr rfl fun user _ => hfirst user
      _ = c.voters.size + (rest.map (·.voters.size)).sum := by
          rw [← Finset.card_filter, hvoters, IdSet.card_toFinset, ih hrest]
      _ = ((c :: rest).map (·.voters.size)).sum := by rw [List.map_cons, List.sum_cons]

theorem answerCount_eq_sum_size (p : Poll) : p.answerCount = (p.choices.map (·.voters.size)).sum := by
  rw [answerCount_eq_sum, tally, List.map_map]
  rfl

theorem sum_answersOf (p : Poll) : ∑ user ∈ p.voters, (p.answersOf user).length = p.answerCount := by
  have hall : ∀ c ∈ p.choices, ∀ user ∈ c.voters, user ∈ p.voters := fun c hc user hu =>
    mem_voters.mpr (answersOf_ne_nil.mpr ⟨c, hc, hu⟩)
  rw [answerCount_eq_sum_size, ← sum_chosen p.voters hall]
  exact Finset.sum_congr rfl fun user _ => List.length_map _

/-- If no user has given more answers than `n`, then all have given at most `n` times as many as there are
users. -/
theorem answerCount_le_mul {n : Nat} (h : ∀ user, (p.answersOf user).length ≤ n) :
    p.answerCount ≤ p.voterCount * n := by
  rw [← sum_answersOf, ← card_voters]
  exact Finset.sum_le_card_nsmul p.voters _ n fun user _ => h user

theorem length_answersOf_le (p : Poll) (user : UserId) : (p.answersOf user).length ≤ p.choices.length := by
  rw [answersOf, List.length_map]
  exact List.length_filter_le _ _

private theorem voterCount_le_answerCount (p : Poll) : p.voterCount ≤ p.answerCount := by
  have hone : ∀ user ∈ p.voters, 1 ≤ (p.answersOf user).length := fun user hu =>
    List.length_pos_iff.mpr (mem_voters.mp hu)
  calc p.voterCount = p.voters.card • 1 := by rw [card_voters, smul_eq_mul, Nat.mul_one]
    _ ≤ ∑ user ∈ p.voters, (p.answersOf user).length := Finset.card_nsmul_le_sum _ _ 1 hone
    _ = p.answerCount := p.sum_answersOf

/-- The number of answers is that of the users of all options, and that of the answers of all users. The
number of voters is that of the users who have an answer, who are finitely many. So each voter has between one
answer and one for every option on average, and not more than the settings allow if nobody has. -/
theorem counts_agree (p : Poll) :
    p.answerCount = (p.choices.map (·.voters.size)).sum ∧
    {user | p.answersOf user ≠ []}.Finite ∧
    ∑ᶠ user, (p.answersOf user).length = p.answerCount ∧
    p.voterCount = {user | p.answersOf user ≠ []}.ncard ∧
    p.voterCount ≤ p.answerCount ∧ p.answerCount ≤ p.voterCount * p.choices.length ∧
    (p.WithinCap → p.answerCount ≤ p.voterCount * p.settings.answersPerUser) := by
  have hvoters : {user | p.answersOf user ≠ []} = (p.voters : Set UserId) :=
    Set.ext fun user => mem_voters.symm
  have hsupport : (Function.support fun user => (p.answersOf user).length) ⊆ (p.voters : Set UserId) :=
    fun user hu => mem_voters.mpr fun hnone => hu (congrArg List.length hnone)
  refine ⟨p.answerCount_eq_sum_size, ?_, ?_, ?_, p.voterCount_le_answerCount,
    answerCount_le_mul p.length_answersOf_le, answerCount_le_mul⟩
  · rw [hvoters]
    exact p.voters.finite_toSet
  · rw [finsum_eq_sum_of_support_subset _ hsupport, sum_answersOf]
  · rw [hvoters, Set.ncard_coe_finset, card_voters]

/-- Both options have the id 1, and user 5 has chosen both. -/
theorem counts_agree_of_twice :
    let p : Poll :=
      { lunch with
        choices := [⟨1, "Here", .ofList [5, 6]⟩, ⟨1, "There", .ofList [5]⟩]
        settings := { Settings.standard with
          answersPerUser := 2
          answersPerUser_pos := by decide
          answersPerUser_le := by decide } }
    p.WithinCap ∧ p.answersOf 5 = [1, 1] ∧ p.answerCount = 3 ∧ p.voterCount = 2 ∧
      p.answerCount ≤ p.voterCount * p.settings.answersPerUser := by
  intro p
  have hcap : p.WithinCap := p.length_answersOf_le
  exact ⟨hcap, by decide, by decide, by decide, (counts_agree p).2.2.2.2.2.2 hcap⟩

end Poll
end PollKeeper
