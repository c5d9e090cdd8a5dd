import PollKeeper.Poll.Record
import PollKeeper.Proofs.Json.RoundTrip
import PollKeeper.Proofs.Storage.Content
import PollKeeper.Proofs.Time.Rfc3339

/-!
# Records are read back

The JSON text of settings and of a poll is read as what it was written for, whether the poll is valid or
not. Settings are read only from values that `Settings.make` takes.
-/

namespace PollKeeper

open Time

namespace Json

theorem mapM_eq_some_map {α β : Type} {f : α → Option β} {g : α → β} {xs : List α}
    (h : ∀ x ∈ xs, f x = some (g x)) : xs.mapM f = some (xs.map g) := by
  induction xs with
  | nil => rfl
  | cons x xs ih =>
    rw [List.mapM_cons, h x List.mem_cons_self, ih fun y hy => h y (List.mem_cons_of_mem _ hy)]
    rfl

theorem mapM_map_eq_some {α β : Type} {encode : α → β} {decode? : β → Option α} {xs : List α}
    (h : ∀ x ∈ xs, decode? (encode x) = some x) : (xs.map encode).mapM decode? = some xs := by
  rw [List.mapM_map]
  exact (mapM_eq_some_map h).trans (congrArg some (List.map_id' xs))

section Fields

variable {members : List (Option String × Json)} {names : List String}

private theorem named_of_mem (hkeys : (members.map (·.1)).Nodup) {name : String} {value : Json}
    (h : (some name, value) ∈ members) : named name members = [value] := by
  induction members with
  | nil => cases h
  | cons member members ih =>
    obtain ⟨hfresh, hkeys⟩ := List.nodup_cons.mp hkeys
    rcases List.mem_cons.mp h with rfl | h
    · have hothers : named name members = [] := by
        refine List.filterMap_eq_nil_iff.mpr fun other hother => if_neg fun heq => hfresh ?_
        exact List.mem_map.mpr ⟨other, hother, heq⟩
      simp only [named, List.filterMap_cons, if_true] at hothers ⊢
      rw [hothers]
    · have hne : member.1 ≠ some name := fun heq =>
        hfresh (List.mem_map.mpr ⟨_, h, heq.symm⟩)
      simp only [named, List.filterMap_cons, if_neg hne] at ih ⊢
      exact ih hkeys h

theorem mapM_names {find? : String → Option Json} (hmembers : members.map (·.1) = names.map some)
    (h : ∀ name value, (some name, value) ∈ members → find? name = some value) :
    names.mapM find? = some (members.map (·.2)) := by
  calc names.mapM find? = (names.map some).mapM (·.bind find?) := by rw [List.mapM_map]; rfl
    _ = members.mapM (·.1.bind find?) := by rw [← hmembers, List.mapM_map]; rfl
    _ = some (members.map (·.2)) := by
      refine mapM_eq_some_map fun ⟨key, value⟩ hm => ?_
      have hkey : key ∈ names.map some := hmembers ▸ List.mem_map_of_mem hm
      obtain ⟨name, -, rfl⟩ := List.mem_map.mp hkey
      exact h name value hm

theorem fields?_object (hnames : names.Nodup) (hmembers : members.map (·.1) = names.map some) :
    (object members).fields? names = some (members.map (·.2)) := by
  have hkeys : (members.map (·.1)).Nodup := hmembers ▸ hnames.map (Option.some_injective _)
  have hknown : members.any (·.1.isNone) = false := by
    refine List.any_eq_false.mpr fun m hm => ?_
    have hkey : m.1 ∈ names.map some := hmembers ▸ List.mem_map_of_mem hm
    obtain ⟨name, -, heq⟩ := List.mem_map.mp hkey
    simp [← heq]
  rw [fields?, hknown]
  refine mapM_names hmembers fun name value hm => ?_
  rw [named_of_mem hkeys hm]

end Fields

def FitsInt64 (n : Int) : Prop := -9223372036854775808 ≤ n ∧ n ≤ 9223372036854775807

instance (n : Int) : Decidable (FitsInt64 n) := inferInstanceAs (Decidable (_ ∧ _))

theorem int64?_integer {n : Int} (h : FitsInt64 n) : int64? (.integer n) = some n := if_pos h

theorem natUpTo?_integer {high n : Nat} (h : n ≤ high) : natUpTo? high (.integer n) = some n := by
  have hbounds : (0 : Int) ≤ n ∧ (n : Int) ≤ high := by omega
  simp [natUpTo?, integerIn?, hbounds]

private theorem nat64?_integer {n : Nat} (h : n ≤ 18446744073709551615) : nat64? (.integer n) = some n :=
  natUpTo?_integer h

private theorem eq_integer_of_natUpTo? {high n : Nat} {j : Json} (h : natUpTo? high j = some n) :
    j = .integer n := by
  obtain ⟨k, hk, rfl⟩ := Option.map_eq_some_iff.mp h
  cases j with
  | integer value =>
    rw [integerIn?] at hk
    split at hk
    · next hbounds =>
      obtain rfl := Option.some.inj hk
      rw [Int.toNat_of_nonneg hbounds.1]
    · cases hk
  | _ => cases hk

private theorem eq_of_bool? {b : Bool} {j : Json} (h : j.bool? = some b) : j = .bool b := by
  cases j <;> cases h
  rfl

private theorem eq_of_string? {s : String} {j : Json} (h : j.string? = some s) : j = .string s := by
  cases j <;> cases h
  rfl

end Json

open Json

namespace Settings

theorem ofJson?_toJson (s : Settings) : ofJson? s.toJson = some s := by
  have hanswers := s.answersPerUser_le
  have hseconds := s.seconds_le
  simp only [maxOptions, maxPollSeconds] at hanswers hseconds
  have hfields :
      s.toJson.fields? ["answers_per_user", "duration_seconds", "can_change_answers", "timezone"] =
      some [.integer s.answersPerUser, .integer s.seconds, .bool s.canChange, .string s.zone.name] :=
    fields?_object (by decide) rfl
  have hmake : make s.answersPerUser (.ofSeconds s.seconds) s.canChange s.zone.name = .ok s :=
    s.make_self
  have hcount : natUpTo? 255 (.integer s.answersPerUser) = some s.answersPerUser :=
    natUpTo?_integer (by omega)
  simp only [ofJson?, hfields, hcount, nat64?_integer (n := s.seconds) (by omega), bool?, Json.string,
    string?, hmake, Option.bind_eq_bind, Option.bind_some]
  rfl

theorem plain_toJson (s : Settings) : Plain s.toJson := by
  refine .object fun m hm => ?_
  simp only [List.mem_cons, List.not_mem_nil, or_false] at hm
  rcases hm with rfl | rfl | rfl | rfl
  · exact .integer _
  · exact .integer _
  · exact .bool _
  · exact .text _

/-- Settings are read only from values that `make` takes, and as what it makes of them. -/
theorem exists_of_ofJson? {j : Json} {s : Settings} (h : ofJson? j = some s) :
    ∃ (answers seconds : Nat) (canChange : Bool) (zone : String),
      j.fields? ["answers_per_user", "duration_seconds", "can_change_answers", "timezone"] =
        some [.integer answers, .integer seconds, .bool canChange, .string zone] ∧
      make answers (.ofSeconds seconds) canChange zone = .ok s := by
  simp only [ofJson?, Option.bind_eq_bind, Option.bind_eq_some_iff] at h
  obtain ⟨values, hfields, h⟩ := h
  split at h
  · next answersJ secondsJ canChangeJ zoneJ =>
    simp only [Option.bind_eq_some_iff] at h
    obtain ⟨answers, hanswers, seconds, hseconds, canChange, hcanChange, zone, hzone, hmake⟩ := h
    obtain rfl := eq_integer_of_natUpTo? hanswers
    obtain rfl := eq_integer_of_natUpTo? hseconds
    obtain rfl := eq_of_bool? hcanChange
    obtain rfl := eq_of_string? hzone
    refine ⟨answers, seconds, canChange, zone, hfields, ?_⟩
    cases hmade : make answers (.ofSeconds seconds) canChange zone with
    | ok made =>
      rw [hmade] at hmake
      exact congrArg Except.ok (Option.some.inj hmake)
    | error e =>
      rw [hmade] at hmake
      cases hmake
  · cases h

end Settings

theorem IdSet.ofList_toList (s : IdSet) : IdSet.ofList s.toList = s :=
  IdSet.ext_mem fun _ => IdSet.mem_ofList.trans IdSet.mem_toList

namespace Choice

def Fits (c : Choice) : Prop := FitsInt64 c.id ∧ ∀ voter ∈ c.voters.toList, FitsInt64 voter

instance (c : Choice) : Decidable c.Fits := inferInstanceAs (Decidable (_ ∧ _))

theorem ofJson?_toJson {c : Choice} (h : c.Fits) : ofJson? c.toJson = some c := by
  have hfields : c.toJson.fields? ["id", "name", "voters"] =
      some [.integer c.id, .string c.name, .array (c.voters.toList.map .integer)] :=
    fields?_object (by decide) rfl
  have hvoters : (c.voters.toList.map Json.integer).mapM int64? = some c.voters.toList :=
    mapM_map_eq_some fun voter hvoter => int64?_integer (h.2 voter hvoter)
  simp only [ofJson?, hfields, int64?_integer h.1, Json.string, string?, array?, hvoters,
    IdSet.ofList_toList, Option.bind_eq_bind, Option.bind_some]

theorem plain_toJson (c : Choice) : Plain c.toJson := by
  refine .object fun m hm => ?_
  simp only [List.mem_cons, List.not_mem_nil, or_false] at hm
  rcases hm with rfl | rfl | rfl
  · exact .integer _
  · exact .text _
  · refine .array fun j hj => ?_
    obtain ⟨voter, -, rfl⟩ := List.mem_map.mp hj
    exact .integer voter

end Choice

namespace Poll

/-- Whether the numbers of a poll fit into 64 bits with a sign. -/
structure Fits (p : Poll) : Prop where
  id : FitsInt64 p.id
  guild : FitsInt64 p.guild
  channel : FitsInt64 p.channel
  choices : ∀ c ∈ p.choices, c.Fits

theorem ofJson?_toJson {p : Poll} (h : p.Fits) : ofJson? p.toJson = some p := by
  have hfields : p.toJson.fields? ["id", "guild_id", "channel_id", "title", "description", "start",
      "options", "settings"] = some [.integer p.id, .integer p.guild, .integer p.channel, .string p.title,
        .string p.description, .string (.ofList (Rfc3339.write p.start)),
        .array (p.choices.map Choice.toJson), p.settings.toJson] :=
    fields?_object (by decide) rfl
  have hchoices : (p.choices.map Choice.toJson).mapM Choice.ofJson? = some p.choices :=
    mapM_map_eq_some fun c hc => Choice.ofJson?_toJson (h.choices c hc)
  simp only [ofJson?, hfields, int64?_integer h.id, int64?_integer h.guild, int64?_integer h.channel,
    Json.string, string?, String.toList_ofList, Rfc3339.read?_write, array?, hchoices,
    Settings.ofJson?_toJson, Option.bind_eq_bind, Option.bind_some]

theorem plain_toJson (p : Poll) : Plain p.toJson := by
  refine .object fun m hm => ?_
  simp only [List.mem_cons, List.not_mem_nil, or_false] at hm
  rcases hm with rfl | rfl | rfl | rfl | rfl | rfl | rfl | rfl
  · exact .integer _
  · exact .integer _
  · exact .integer _
  · exact .text _
  · exact .text _
  · exact .text _
  · refine .array fun j hj => ?_
    obtain ⟨c, -, rfl⟩ := List.mem_map.mp hj
    exact c.plain_toJson
  · exact p.settings.plain_toJson

end Poll

/-- The text of a poll, valid or not, is read as that poll, and the text of settings as those settings.
What is read as settings held values that `Settings.make` takes, and settings, however they were obtained,
hold such values. -/
theorem records_read_back :
    (∀ p : Poll, p.Fits → (Json.read? p.toJson.render).bind Poll.ofJson? = some p) ∧
    (∀ s : Settings, (Json.read? s.toJson.render).bind Settings.ofJson? = some s ∧
      Settings.make s.answersPerUser s.duration s.canChange s.zone.name = .ok s) ∧
    ∀ (j : Json) (s : Settings), Settings.ofJson? j = some s →
      ∃ (answers seconds : Nat) (canChange : Bool) (zone : String),
        j.fields? ["answers_per_user", "duration_seconds", "can_change_answers", "timezone"] =
          some [.integer answers, .integer seconds, .bool canChange, .string zone] ∧
        Settings.make answers (.ofSeconds seconds) canChange zone = .ok s := by
  refine ⟨fun p hp => ?_, fun s => ⟨?_, s.make_self⟩, fun j s h => Settings.exists_of_ofJson? h⟩
  · rw [read?_render p.plain_toJson]
    exact Poll.ofJson?_toJson hp
  · rw [read?_render s.plain_toJson]
    exact s.ofJson?_toJson

/-- A poll that is not valid: its options share an id and it starts a nanosecond into a second, in the year
before the year 0. -/
def oddPoll : Poll where
  id := -9223372036854775808
  guild := 5
  channel := 9223372036854775807
  title := "\"Quoted\" \\ slashed"
  description := "two\nlines, a bell \x07 and ⏰"
  start := ⟨-62167219201, 1, by decide, by decide, by decide⟩
  choices := [⟨1, "", .ofList [7, -5]⟩, ⟨1, "again", .empty⟩]
  settings := .standard

theorem oddPoll_reads_back :
    oddPoll.Fits ∧ (Json.read? oddPoll.toJson.render).bind Poll.ofJson? = some oddPoll ∧
      Settings.ofJson? oddPoll.settings.toJson = some .standard ∧
      ∃ (answers seconds : Nat) (canChange : Bool) (zone : String),
        oddPoll.settings.toJson.fields?
            ["answers_per_user", "duration_seconds", "can_change_answers", "timezone"] =
          some [.integer answers, .integer seconds, .bool canChange, .string zone] ∧
        Settings.make answers (.ofSeconds seconds) canChange zone = .ok .standard := by
  have hfits : oddPoll.Fits := ⟨by decide, by decide, by decide, by decide⟩
  have hsettings : Settings.ofJson? oddPoll.settings.toJson = some .standard := Settings.ofJson?_toJson _
  exact ⟨hfits, records_read_back.1 oddPoll hfits, hsettings, records_read_back.2.2 _ _ hsettings⟩

end PollKeeper
