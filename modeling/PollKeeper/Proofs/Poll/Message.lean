import Mathlib.Algebra.GroupWithZero.Nat
import Mathlib.Data.Set.Function
import PollKeeper.Poll.Message
import PollKeeper.Proofs.Storage.Content
import PollKeeper.Time.ZoneHistories

/-!
# What the message of a poll shows

The message shows the text and the settings of a poll, when it runs, the names of its options, how many users
chose each of them, and how many users have answered at all. Who these users are does not reach it, nor do
the ids of the poll and its options.
-/

namespace PollKeeper

namespace IdSet

variable {f : Int → Int} {s : IdSet}

def image (f : Int → Int) (s : IdSet) : IdSet := ofList (s.toList.map f)

@[simp] theorem mem_image {y : Int} : y ∈ s.image f ↔ ∃ x ∈ s, f x = y := by
  simp [image]

theorem size_image (hf : Set.InjOn f {x | x ∈ s}) : (s.image f).size = s.size := by
  have hdistinct : (s.toList.map f).Nodup := s.nodup_toList.map_on fun _ hx _ hy h => hf hx hy h
  rw [image, size_ofList, hdistinct.dedup, List.length_map, size]

end IdSet

namespace Poll

/-- Two polls agree on everything but their answers and all ids. -/
structure SameQuestion (p q : Poll) : Prop where
  title : q.title = p.title
  description : q.description = p.description
  start : q.start = p.start
  settings : q.settings = p.settings

/-- The names of the options, each with the number of users who chose it. -/
def tally (p : Poll) : List (String × Nat) := p.choices.map fun c => (c.name, c.voters.size)

/-- Two polls that differ at most in their ids and in who has answered. -/
structure SameCounts (p q : Poll) : Prop extends p.SameQuestion q where
  tally : q.tally = p.tally
  voterCount : q.voterCount = p.voterCount

/-- The second poll has the users of the first one under new names. All other ids may be any. -/
structure Renames (f : UserId → UserId) (p q : Poll) : Prop extends p.SameQuestion q where
  choices : q.choices.map (fun d => (d.name, d.voters)) = p.choices.map fun c => (c.name, c.voters.image f)

variable {p q : Poll} {f : UserId → UserId}

theorem answerCount_eq_sum (p : Poll) : p.answerCount = (p.tally.map (·.2)).sum := by
  rw [answerCount, answers, List.length_flatMap, tally, List.map_map]
  rfl

private theorem resultRows_eq_tally (p : Poll) :
    p.resultRows = p.tally.zipIdx.map fun (row, i) => resultRow p.answerCount (i + 1) row.1 row.2 := by
  rw [resultRows, tally, List.zipIdx_map, List.map_map]
  rfl

private theorem SameCounts.message?_eq [Time.ZoneClocks] (h : p.SameCounts q) :
    q.message? = p.message? := by
  have hend : q.endsAt? = p.endsAt? := by rw [endsAt?, endsAt?, h.start, h.settings]
  have hanswers : q.answerCount = p.answerCount := by
    rw [answerCount_eq_sum, answerCount_eq_sum, h.tally]
  have hrows : q.resultRows = p.resultRows := by
    rw [resultRows_eq_tally, resultRows_eq_tally, h.tally, hanswers]
  rw [message?, message?, hend, hrows, h.title, h.description, h.start, h.settings, h.voterCount]

theorem mem_answers {user : UserId} : user ∈ p.answers ↔ ∃ c ∈ p.choices, user ∈ c.voters := by
  simp [answers]

private theorem Renames.tally_eq (h : p.Renames f q) (hf : Set.InjOn f {u | u ∈ p.answers}) :
    q.tally = p.tally := by
  have hcounts := congrArg (List.map fun row => (row.1, row.2.size)) h.choices
  rw [List.map_map, List.map_map] at hcounts
  refine hcounts.trans (List.map_congr_left fun c hc => ?_)
  have hinj : Set.InjOn f {u | u ∈ c.voters} := hf.mono fun _ hu => mem_answers.mpr ⟨c, hc, hu⟩
  exact congrArg (c.name, ·) (IdSet.size_image hinj)

theorem Renames.mem_answers_iff (h : p.Renames f q) {user : UserId} :
    user ∈ q.answers ↔ ∃ u ∈ p.answers, f u = user := by
  have hvoters := congrArg (List.map (·.2)) h.choices
  rw [List.map_map, List.map_map] at hvoters
  calc user ∈ q.answers
      ↔ ∃ voters ∈ q.choices.map (·.voters), user ∈ voters := by simp [mem_answers]
    _ ↔ ∃ voters ∈ p.choices.map (·.voters.image f), user ∈ voters := by
      exact iff_of_eq (congrArg (fun l => ∃ voters ∈ l, user ∈ voters) hvoters)
    _ ↔ ∃ u ∈ p.answers, f u = user := by
      simp only [List.mem_map, exists_exists_and_eq_and, IdSet.mem_image, mem_answers]
      constructor
      · rintro ⟨c, hc, u, hu, rfl⟩
        exact ⟨u, ⟨c, hc, hu⟩, rfl⟩
      · rintro ⟨u, ⟨c, hc, hu⟩, rfl⟩
        exact ⟨c, hc, u, hu, rfl⟩

/-- The users who have answered are renamed as one set, however the options share them. -/
theorem Renames.voterCount_eq (h : p.Renames f q) (hf : Set.InjOn f {u | u ∈ p.answers}) :
    q.voterCount = p.voterCount := by
  have himage : IdSet.ofList q.answers = (IdSet.ofList p.answers).image f :=
    IdSet.ext_mem fun user => by simp only [IdSet.mem_ofList, h.mem_answers_iff, IdSet.mem_image]
  rw [voterCount, himage, IdSet.size_image (hf.mono fun _ hu => IdSet.mem_ofList.mp hu), voterCount]

private theorem Renames.sameCounts (h : p.Renames f q) (hf : Set.InjOn f {u | u ∈ p.answers}) :
    p.SameCounts q := ⟨h.toSameQuestion, h.tally_eq hf, h.voterCount_eq hf⟩

/-- A poll whose users get new names, no two of them the same, keeps its message or keeps having none, whatever
ids it and its options get. So does a poll that only has to have the same names of options with the same numbers
of users, and as many users who have answered at all. -/
theorem message_shows_counts [Time.ZoneClocks] (p q : Poll) :
    (∀ f : UserId → UserId, Set.InjOn f {u | u ∈ p.answers} → p.Renames f q → q.message? = p.message?) ∧
      (p.SameCounts q → q.message? = p.message?) :=
  ⟨fun _ hf h => (h.sameCounts hf).message?_eq, fun h => h.message?_eq⟩

open Time.ZoneHistories

/-- Users 5 and 6 share an option. -/
def sharedLunch : Poll :=
  { lunch with choices := [⟨1, "Here", .ofList [5, 6]⟩, ⟨2, "There", .ofList [5]⟩, ⟨3, "Nowhere", .ofList [8]⟩] }

/-- New names that reverse the order of the users, in a poll with other ids. And a poll that is no renaming:
there no user of the shared option has a second answer. -/
theorem message_shows_counts_of_shared :
    let renamed : Poll :=
      { sharedLunch with
        id := 9, guild := 2, channel := 4,
        choices := [⟨4, "Here", .ofList [-5, -6]⟩, ⟨4, "There", .ofList [-5]⟩, ⟨-1, "Nowhere", .ofList [-8]⟩] }
    let regrouped : Poll :=
      { sharedLunch with
        choices := [⟨1, "Here", .ofList [5, 8]⟩, ⟨2, "There", .ofList [6]⟩, ⟨3, "Nowhere", .ofList [6]⟩] }
    sharedLunch.message?.isSome ∧ Set.InjOn (- ·) {u | u ∈ sharedLunch.answers} ∧
      sharedLunch.Renames (- ·) renamed ∧ renamed.message? = sharedLunch.message? ∧
      sharedLunch.SameCounts regrouped ∧ regrouped.message? = sharedLunch.message? := by
  intro renamed regrouped
  have hinj : Set.InjOn (- ·) {u | u ∈ sharedLunch.answers} := fun _ _ _ _ h => Int.neg_inj.mp h
  have hrenames : sharedLunch.Renames (- ·) renamed := ⟨⟨rfl, rfl, rfl, rfl⟩, by decide⟩
  have hcounts : sharedLunch.SameCounts regrouped := ⟨⟨rfl, rfl, rfl, rfl⟩, by decide, by decide⟩
  exact ⟨by decide +kernel, hinj, hrenames, (message_shows_counts _ _).1 _ hinj hrenames, hcounts,
    (message_shows_counts _ _).2 hcounts⟩

end Poll
end PollKeeper
