import PollKeeper.Poll.Basic

/-!
# Valid polls

Which polls pass the checks that every stored poll has passed. Where a poll ends is none of them: the
last section says what comes of that.
-/

namespace PollKeeper

open Time

namespace Choice

theorem firstFault_eq_none_iff {seen : List ChoiceId} {choices : List Choice} :
    firstFault seen choices = none ↔
      (∀ c ∈ choices, Text.isBlank c.name = false ∧ c.id ∉ seen) ∧ (choices.map (·.id)).Nodup := by
  induction choices generalizing seen with
  | nil => simp [firstFault]
  | cons c rest ih =>
    simp only [firstFault]
    split
    · next hblank => simp [hblank]
    · next hblank =>
      split
      · next hseen => simp [hseen]
      · next hseen =>
        rw [ih]
        simp only [List.mem_cons, not_or, List.map_cons, List.nodup_cons, List.mem_map, not_exists,
          not_and, forall_eq_or_imp]
        constructor
        · rintro ⟨hrest, hnodup⟩
          refine ⟨⟨⟨by simpa using hblank, hseen⟩, fun d hd => ⟨(hrest d hd).1, (hrest d hd).2.2⟩⟩,
            fun d hd => (hrest d hd).2.1, hnodup⟩
        · rintro ⟨⟨-, hrest⟩, hnew, hnodup⟩
          exact ⟨fun d hd => ⟨(hrest d hd).1, hnew d hd, (hrest d hd).2⟩, hnodup⟩

end Choice

namespace Poll

variable {p : Poll}

structure IsValid (p : Poll) : Prop where
  channel : p.channel ≠ 0
  title : Text.isBlank p.title = false
  description : Text.isBlank p.description = false
  choices_pos : 0 < p.choices.length
  choices_le : p.choices.length ≤ maxOptions
  start : p.start.nanos = 0
  names : ∀ c ∈ p.choices, Text.isBlank c.name = false
  ids : (p.choices.map (·.id)).Nodup

theorem validate_eq_ok_iff : p.validate = .ok () ↔ p.IsValid := by
  unfold validate
  split
  · next h => exact ⟨nofun, fun hv => absurd h hv.channel⟩
  split
  · next h => exact ⟨nofun, fun hv => by simp [hv.title] at h⟩
  split
  · next h => exact ⟨nofun, fun hv => by simp [hv.description] at h⟩
  split
  · next h =>
    refine ⟨nofun, fun hv => ?_⟩
    have hpos := hv.choices_pos
    have hle := hv.choices_le
    omega
  split
  · next h => exact ⟨nofun, fun hv => absurd hv.start h⟩
  · next hchannel htitle hdescription hcount hstart =>
    cases hfault : Choice.firstFault [] p.choices with
    | some fault =>
      refine ⟨nofun, fun hv => ?_⟩
      have hnone := Choice.firstFault_eq_none_iff.mpr
        ⟨fun c hc => ⟨hv.names c hc, List.not_mem_nil⟩, hv.ids⟩
      rw [hfault] at hnone
      cases hnone
    | none =>
      obtain ⟨hchoices, hids⟩ := Choice.firstFault_eq_none_iff.mp hfault
      refine ⟨fun _ => ?_, fun _ => rfl⟩
      exact ⟨hchannel, by simpa using htitle, by simpa using hdescription, by omega, by omega,
        by simpa using hstart, fun c hc => (hchoices c hc).1, hids⟩

/-- A poll of guild 1 that runs for a day; user 5 has answered it. -/
def lunch : Poll where
  id := 7
  guild := 1
  channel := 3
  title := "Lunch"
  description := "Where to?"
  start := .earliest
  choices := [⟨1, "Here", .empty⟩, ⟨2, "There", .ofList [5]⟩]
  settings := .standard

example : lunch.validate = .ok () := rfl

/-- The last second of the poll can be represented. -/
def EndsInRange (p : Poll) : Prop := p.start.seconds + p.settings.seconds ≤ maxSeconds

instance (p : Poll) : Decidable p.EndsInRange := inferInstanceAs (Decidable (_ ≤ _))

theorem endsAt?_eq (hp : p.start.nanos = 0) :
    p.endsAt? = Instant.ofSeconds? (p.start.seconds + p.settings.seconds) := by
  have htotal : p.start.total + (p.settings.duration.nanos : Int) =
      (p.start.seconds + p.settings.seconds) * 1000000000 := by
    simp only [Instant.total, Settings.duration, Span.ofSeconds, hp]
    omega
  have hsecond (n : Int) : n * 1000000000 / 1000000000 = n ∧ n * 1000000000 % 1000000000 = 0 := by omega
  rw [endsAt?, Instant.shift?_of_nanos_lt (by omega), htotal]
  simp only [Instant.ofTotal?, Instant.ofSeconds?, hsecond]
  rfl

theorem of_endsAt?_eq_some (hp : p.start.nanos = 0) {finish : Instant} (h : p.endsAt? = some finish) :
    finish.seconds = p.start.seconds + p.settings.seconds ∧ finish.nanos = 0 := by
  rw [endsAt?_eq hp, Instant.ofSeconds?] at h
  split at h
  · cases h
    exact ⟨rfl, rfl⟩
  · cases h

theorem isSome_endsAt? (hp : p.start.nanos = 0) : p.endsAt?.isSome ↔ p.EndsInRange := by
  have hstart := p.start.min_le
  rw [endsAt?_eq hp, Instant.ofSeconds?]
  split
  · next h => exact iff_of_true rfl h.2
  · next h =>
    refine iff_of_false Bool.false_ne_true fun hrange => h ⟨?_, hrange⟩
    omega

theorem isSome_hasEnded? (p : Poll) (now : Instant) :
    (p.hasEnded? now).isSome = p.endsAt?.isSome := by
  rw [hasEnded?, Option.isSome_map]

end Poll
end PollKeeper
