import PollKeeper.Proofs.Poll.Validity
import PollKeeper.Proofs.Time.Sums

/-!
# The first broken rule

A poll has to keep rules that come in an order: those for the poll as a whole, then for one option after the
other its name and its id. `Poll.validate` accepts the polls that keep all of them, and for every other poll
it reports the first one that is broken. New polls and edited ones can break but a few.
-/

namespace PollKeeper

open Time

/-- What a poll is checked for. Its options are counted from 0. -/
inductive Rule where
  | channel
  | title
  | description
  | optionCount
  | wholeSecond
  | optionName (i : Nat)
  | optionId (i : Nat)
  deriving DecidableEq

namespace Rule

def place : Rule → Nat
  | channel => 0
  | title => 1
  | description => 2
  | optionCount => 3
  | wholeSecond => 4
  | optionName i => 5 + 2 * i
  | optionId i => 5 + 2 * i + 1

theorem place_injective {r s : Rule} (h : r.place = s.place) : r = s := by
  cases r <;> cases s <;> simp only [place, reduceCtorEq, optionName.injEq, optionId.injEq] at h ⊢ <;> omega

end Rule

namespace Poll

variable {p : Poll} {r : Rule} {e e' : PollError} {n : Nat}

/-- The poll breaks a rule, and this is how that is reported. -/
inductive Breaks (p : Poll) : Rule → PollError → Prop where
  | channel (h : p.channel = 0) : Breaks p .channel .missingChannel
  | title (h : Text.isBlank p.title = true) : Breaks p .title .blankTitle
  | description (h : Text.isBlank p.description = true) : Breaks p .description .blankDescription
  | optionCount (h : p.choices.length = 0 ∨ maxOptions < p.choices.length) :
      Breaks p .optionCount (.optionCount p.choices.length)
  | wholeSecond (h : p.start.nanos ≠ 0) : Breaks p .wholeSecond .subsecondStart
  | optionName {i : Nat} {c : Choice} (hc : p.choices[i]? = some c) (h : Text.isBlank c.name = true) :
      Breaks p (.optionName i) .blankOptionName
  | optionId {i j : Nat} {c d : Choice} (hc : p.choices[i]? = some c) (hj : j < i)
      (hd : p.choices[j]? = some d) (h : d.id = c.id) : Breaks p (.optionId i) (.duplicateOptionId c.id)

def FirstBrokenFrom (p : Poll) (n : Nat) (e : PollError) : Prop :=
  ∃ r, p.Breaks r e ∧ n ≤ r.place ∧ ∀ s e', p.Breaks s e' → n ≤ s.place → r.place ≤ s.place

/-- The error reports the first of all broken rules. -/
def FirstBroken (p : Poll) (e : PollError) : Prop :=
  ∃ r, p.Breaks r e ∧ ∀ s e', p.Breaks s e' → r.place ≤ s.place

private theorem Breaks.error_eq (h : p.Breaks r e) (h' : p.Breaks r e') : e = e' := by
  cases h with
  | optionId hc =>
    cases h' with
    | optionId hc' =>
      obtain rfl := Option.some.inj (hc.symm.trans hc')
      rfl
  | _ =>
    cases h'
    rfl

private theorem FirstBroken.error_eq (h : p.FirstBroken e) (h' : p.FirstBroken e') : e = e' := by
  obtain ⟨r, hr, hfirst⟩ := h
  obtain ⟨s, hs, hfirst'⟩ := h'
  obtain rfl : r = s := Rule.place_injective (Nat.le_antisymm (hfirst s e' hs) (hfirst' r e hr))
  exact hr.error_eq hs

theorem Breaks.firstBrokenFrom (h : p.Breaks r e) : p.FirstBrokenFrom r.place e :=
  ⟨r, h, Nat.le_refl _, fun _ _ _ hs => hs⟩

theorem FirstBrokenFrom.of_kept (hkept : ∀ e', ¬ p.Breaks r e') (h : p.FirstBrokenFrom (r.place + 1) e) :
    p.FirstBrokenFrom r.place e := by
  obtain ⟨s, hs, hplace, hfirst⟩ := h
  refine ⟨s, hs, by omega, fun s' e' hs' hn => hfirst s' e' hs' ?_⟩
  have hne : s'.place ≠ r.place := fun heq => hkept e' (Rule.place_injective heq ▸ hs')
  omega

/-- A check that decides about one rule leaves the later rules to the rest. -/
theorem FirstBrokenFrom.of_check {broken : Prop} [Decidable broken] {fault : PollError}
    {rest : Except PollError Unit} (hbreaks : ∀ e', p.Breaks r e' ↔ broken ∧ e' = fault)
    (h : (if broken then .error fault else rest) = .error e)
    (hrest : rest = .error e → p.FirstBrokenFrom (r.place + 1) e) : p.FirstBrokenFrom r.place e := by
  split at h
  · next hbroken =>
    cases h
    exact ((hbreaks _).mpr ⟨hbroken, rfl⟩).firstBrokenFrom
  · next hkept => exact .of_kept (fun e' hr => hkept ((hbreaks e').mp hr).1) (hrest h)

theorem IsValid.not_breaks (hp : p.IsValid) : ¬ p.Breaks r e := by
  intro h
  cases h with
  | channel h => exact hp.channel h
  | title h => exact Bool.false_ne_true (hp.title.symm.trans h)
  | description h => exact Bool.false_ne_true (hp.description.symm.trans h)
  | optionCount h =>
    have hpos := hp.choices_pos
    have hle := hp.choices_le
    omega
  | wholeSecond h => exact h hp.start
  | optionName hc h =>
    exact Bool.false_ne_true ((hp.names _ (List.mem_of_getElem? hc)).symm.trans h)
  | @optionId i j c d hc hj hd h =>
    have hc' : (p.choices.map (·.id))[i]? = some c.id := by rw [List.getElem?_map, hc]; rfl
    have hd' : (p.choices.map (·.id))[j]? = some c.id := by rw [List.getElem?_map, hd, ← h]; rfl
    have hi : i < (p.choices.map (·.id)).length := (List.getElem?_eq_some_iff.mp hc').1
    have hij := (List.getElem?_inj hi hp.ids).mp (hc'.trans hd'.symm)
    omega

/-- The options from number `k` on are looked through with the ids of those before them at hand. -/
theorem firstBrokenFrom_of_firstFault {rest : List Choice} {k : Nat} {seen : List ChoiceId}
    (hrest : p.choices.drop k = rest)
    (hseen : ∀ id, id ∈ seen ↔ ∃ j < k, ∃ d, p.choices[j]? = some d ∧ d.id = id)
    (h : Choice.firstFault seen rest = some e) : p.FirstBrokenFrom (Rule.optionName k).place e := by
  induction rest generalizing k seen with
  | nil => cases h
  | cons c rest ih =>
    have hc : p.choices[k]? = some c := by
      rw [← Nat.add_zero k, ← List.getElem?_drop, hrest]
      rfl
    simp only [Choice.firstFault] at h
    split at h
    · next hblank =>
      cases h
      exact (Breaks.optionName hc hblank).firstBrokenFrom
    next hblank =>
    refine .of_kept (fun e' hr => ?_) ?_
    · cases hr with
      | optionName hc' hblank' =>
        obtain rfl := Option.some.inj (hc.symm.trans hc')
        exact hblank hblank'
    split at h
    · next hdup =>
      cases h
      obtain ⟨j, hj, d, hd, hid⟩ := (hseen c.id).mp hdup
      exact (Breaks.optionId hc hj hd hid).firstBrokenFrom
    next hnew =>
    refine FirstBrokenFrom.of_kept (r := .optionId k) (fun e' hr => ?_) (ih (k := k + 1) ?_ (fun id => ?_) h)
    · cases hr with
      | optionId hc' hj hd hid =>
        obtain rfl := Option.some.inj (hc.symm.trans hc')
        exact hnew ((hseen c.id).mpr ⟨_, hj, _, hd, hid⟩)
    · rw [← List.drop_drop, hrest]
      rfl
    · rw [List.mem_cons, hseen]
      constructor
      · rintro (rfl | ⟨j, hj, d, hd, hid⟩)
        · exact ⟨k, Nat.lt_succ_self k, c, hc, rfl⟩
        · exact ⟨j, Nat.lt_succ_of_lt hj, d, hd, hid⟩
      · rintro ⟨j, hj, d, hd, rfl⟩
        rcases Nat.lt_succ_iff_lt_or_eq.mp hj with hj | rfl
        · exact .inr ⟨j, hj, d, hd, rfl⟩
        · exact .inl (congrArg (·.id) (Option.some.inj (hd.symm.trans hc)))

theorem firstBroken_of_validate (h : p.validate = .error e) : p.FirstBroken e := by
  suffices p.FirstBrokenFrom Rule.channel.place e by
    obtain ⟨r, hr, -, hfirst⟩ := this
    exact ⟨r, hr, fun s e' hs => hfirst s e' hs (Nat.zero_le _)⟩
  refine .of_check (fun e' => ⟨fun | .channel h => ⟨h, rfl⟩, fun ⟨h, he⟩ => he ▸ .channel h⟩) h fun h => ?_
  refine FirstBrokenFrom.of_check (r := .title)
    (fun e' => ⟨fun | .title h => ⟨h, rfl⟩, fun ⟨h, he⟩ => he ▸ .title h⟩) h fun h => ?_
  refine FirstBrokenFrom.of_check (r := .description)
    (fun e' => ⟨fun | .description h => ⟨h, rfl⟩, fun ⟨h, he⟩ => he ▸ .description h⟩) h fun h => ?_
  refine FirstBrokenFrom.of_check (r := .optionCount)
    (fun e' => ⟨fun | .optionCount h => ⟨h, rfl⟩, fun ⟨h, he⟩ => he ▸ .optionCount h⟩) h fun h => ?_
  refine FirstBrokenFrom.of_check (r := .wholeSecond)
    (fun e' => ⟨fun | .wholeSecond h => ⟨h, rfl⟩, fun ⟨h, he⟩ => he ▸ .wholeSecond h⟩) h fun h => ?_
  cases hfault : Choice.firstFault [] p.choices with
  | none =>
    rw [hfault] at h
    cases h
  | some fault =>
    rw [hfault] at h
    cases h
    exact firstBrokenFrom_of_firstFault (k := 0) rfl (by simp) hfault

theorem validate_eq_error_iff : p.validate = .error e ↔ p.FirstBroken e := by
  refine ⟨firstBroken_of_validate, fun hfirst => ?_⟩
  cases hp : p.validate with
  | ok =>
    obtain ⟨r, hr, -⟩ := hfirst
    exact absurd hr (validate_eq_ok_iff.mp hp).not_breaks
  | error e' => rw [(firstBroken_of_validate hp).error_eq hfirst]

/-- Nobody has answered the poll yet. Its options have the given names and are numbered from 1, and it starts
with the second of the given start. -/
structure IsNew (p : Poll) (start : Instant) (names : List String) : Prop where
  ids : p.choices.map (·.id) = (List.range' 1 names.length).map Int.ofNat
  names : p.choices.map (·.name) = names
  unanswered : ∀ c ∈ p.choices, c.voters = .empty
  start : p.start = start.floorSecond

variable {start : Instant} {names : List String}

private theorem isNew_of_eq (hstart : p.start = start.floorSecond)
    (hchoices : p.choices = numberedChoices names) : p.IsNew start names := by
  refine ⟨?_, ?_, fun c hc => ?_, hstart⟩
  · rw [hchoices]
    refine List.ext_getElem (by simp [numberedChoices]) fun i hi hi' => ?_
    simp only [numberedChoices, List.getElem_map, List.getElem_zipIdx, List.getElem_range', Nat.zero_add,
      Nat.one_mul]
    exact Int.add_comm i 1
  · rw [hchoices, numberedChoices, List.map_map]
    exact List.zipIdx_map_fst 0 names
  · rw [hchoices] at hc
    obtain ⟨_, -, rfl⟩ := List.mem_map.mp hc
    rfl

/-- A new poll keeps the rules if the given values do. It starts with a whole second then, unless the given
start lies within a leap second. -/
theorem IsNew.isValid_iff (h : p.IsNew start names) :
    p.IsValid ↔ p.channel ≠ 0 ∧ Text.isBlank p.title = false ∧ Text.isBlank p.description = false ∧
      1 ≤ names.length ∧ names.length ≤ maxOptions ∧ start.nanos < 1000000000 ∧
      ∀ name ∈ names, Text.isBlank name = false := by
  have hlength : p.choices.length = names.length := by rw [← h.names, List.length_map]
  have hnanos : p.start.nanos = 0 ↔ start.nanos < 1000000000 := by
    rw [h.start]
    simp only [Instant.floorSecond]
    omega
  have hnames : (∀ name ∈ names, Text.isBlank name = false) ↔ ∀ c ∈ p.choices, Text.isBlank c.name = false := by
    rw [← h.names, List.forall_mem_map]
  have hids : (p.choices.map (·.id)).Nodup := by
    rw [h.ids]
    exact List.Pairwise.map _ (fun _ _ hne heq => hne (Int.ofNat_inj.mp heq)) List.nodup_range'
  rw [← hlength, ← hnanos, hnames]
  constructor
  · intro hp
    exact ⟨hp.channel, hp.title, hp.description, hp.choices_pos, hp.choices_le, hp.start, hp.names⟩
  · rintro ⟨hchannel, htitle, hdescription, hpos, hle, hstart, hnamed⟩
    exact ⟨hchannel, htitle, hdescription, hpos, hle, hstart, hnamed, hids⟩

private theorem IsNew.isAt_start (h : p.IsNew start names) (hp : p.IsValid) :
    p.start.IsAt (start.total / 1000000000 * 1000000000) := by
  have hstart := hp.start
  rw [h.start] at hstart ⊢
  simp only [Instant.floorSecond] at hstart
  constructor <;> simp only [Instant.total, Instant.floorSecond] <;> omega

private theorem isBlank_of_getD {given : Option String} {old : String} (hold : Text.isBlank old = false)
    (h : Text.isBlank (given.getD old) = true) : ∃ text, given = some text ∧ Text.isBlank text = true := by
  cases given with
  | none => exact absurd (hold.symm.trans h) Bool.false_ne_true
  | some text => exact ⟨text, rfl, h⟩

/-- An edit can break the rules for the title and the description only. -/
theorem Breaks.of_edited (hp : p.IsValid) {edit : Edit} (h : (p.edited edit).Breaks r e) :
    e = .blankTitle ∧ (∃ title, edit.title = some title ∧ Text.isBlank title = true) ∨
      e = .blankDescription ∧ ∃ text, edit.description = some text ∧ Text.isBlank text = true := by
  cases h with
  | title h => exact .inl ⟨rfl, isBlank_of_getD hp.title h⟩
  | description h => exact .inr ⟨rfl, isBlank_of_getD hp.description h⟩
  | channel h => exact absurd (Breaks.channel (p := p) h) hp.not_breaks
  | optionCount h => exact absurd (Breaks.optionCount (p := p) h) hp.not_breaks
  | wholeSecond h => exact absurd (Breaks.wholeSecond (p := p) h) hp.not_breaks
  | optionName hc h => exact absurd (Breaks.optionName (p := p) hc h) hp.not_breaks
  | optionId hc hj hd h => exact absurd (Breaks.optionId (p := p) hc hj hd h) hp.not_breaks

/-- A poll is accepted just if it is valid, and otherwise the error is that of the first rule that it breaks.
A poll can be made from given values just if the poll that is put together from them is valid, with the same
error otherwise; it starts with the second that the given start lies in, also before the epoch. An edit of a
valid poll can fail for a blank title or a blank description only, which it must have brought itself. -/
theorem first_broken_rule_reported :
    (∀ p : Poll, (p.validate = .ok () ↔ p.IsValid) ∧ ∀ e, p.validate = .error e ↔ p.FirstBroken e) ∧
    (∀ (id : PollId) (guild : GuildId) (channel : ChannelId) (title description : String) (start : Instant)
        (names : List String) (settings : Settings), ∃ p : Poll,
      (p.id = id ∧ p.guild = guild ∧ p.channel = channel ∧ p.title = title ∧ p.description = description ∧
        p.settings = settings ∧ p.IsNew start names) ∧
      make id guild channel title description start names settings = p.validate.map (fun _ => p) ∧
      (p.IsValid → p.start.IsAt (start.total / 1000000000 * 1000000000)) ∧
      (p.IsValid ↔ channel ≠ 0 ∧ Text.isBlank title = false ∧ Text.isBlank description = false ∧
        1 ≤ names.length ∧ names.length ≤ maxOptions ∧ start.nanos < 1000000000 ∧
        ∀ name ∈ names, Text.isBlank name = false)) ∧
    ∀ (p : Poll) (edit : Edit) (e : PollError), p.IsValid → p.apply edit = .error e →
      e = .blankTitle ∧ (∃ title, edit.title = some title ∧ Text.isBlank title = true) ∨
        e = .blankDescription ∧ ∃ text, edit.description = some text ∧ Text.isBlank text = true := by
  refine ⟨fun p => ⟨validate_eq_ok_iff, fun e => validate_eq_error_iff⟩,
    fun id guild channel title description start names settings => ?_, fun p edit e hp h => ?_⟩
  · let p : Poll :=
      ⟨id, guild, channel, title, description, start.floorSecond, numberedChoices names, settings⟩
    have hnew : p.IsNew start names := isNew_of_eq rfl rfl
    exact ⟨p, ⟨rfl, rfl, rfl, rfl, rfl, rfl, hnew⟩, rfl, hnew.isAt_start, hnew.isValid_iff⟩
  · rw [apply] at h
    cases hchecked : (p.edited edit).validate with
    | ok => cases hchecked ▸ h
    | error fault =>
      cases hchecked ▸ h
      obtain ⟨r, hr, -⟩ := firstBroken_of_validate hchecked
      exact hr.of_edited hp

/-- An edit with a title and a blank description. -/
theorem first_broken_rule_reported_of_blank :
    lunch.IsValid ∧ lunch.apply ⟨some "Dinner", some "\t", none⟩ = .error .blankDescription ∧
      Text.isBlank "\t" = true := by
  have hvalid : lunch.IsValid := validate_eq_ok_iff.mp rfl
  have hfails : lunch.apply ⟨some "Dinner", some "\t", none⟩ = .error .blankDescription := rfl
  refine ⟨hvalid, hfails, ?_⟩
  rcases first_broken_rule_reported.2.2 _ _ _ hvalid hfails with ⟨hother, -⟩ | ⟨-, text, htext, hblank⟩
  · cases hother
  · rwa [Option.some.inj htext]

/-- The second option repeats an id before the third one has no name. -/
example : ({ lunch with
    choices := [⟨1, "Here", .empty⟩, ⟨1, "There", .empty⟩, ⟨2, " ", .empty⟩] } : Poll).validate =
      .error (.duplicateOptionId 1) := rfl

end Poll
end PollKeeper
