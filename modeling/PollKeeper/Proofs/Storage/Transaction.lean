import PollKeeper.Proofs.Storage.Faults
import PollKeeper.Proofs.Storage.Guild
import PollKeeper.Storage.Database

/-!
# Statements and transactions

A change of a poll is carried out by statements, one after the other. Within a transaction they all take
effect or none does, wherever the change fails; therefore it does to the database what it does to the
tables as a whole.
-/

namespace PollKeeper

variable {α β : Type}

inductive Statement where
  | addPoll (r : PollRow)
  | changePoll (key : PollKey) (f : PollRow → PollRow)
  | addChoice (c : ChoiceRow)
  | addAnswer (a : AnswerRow)
  | keepAnswer (a : AnswerRow)
  | withdraw (key : PollKey) (user : UserId)

/-- What a statement makes of the tables, and how many rows it changes. No row may repeat the key of
another one or refer to a row that is not there. -/
def Statement.run (t : Tables) : Statement → Except StorageError (Nat × Tables)
  | addPoll r =>
    if (t.row? r.key).isSome then .ok (0, t) else .ok (1, { t with polls := t.polls ++ [r] })
  | changePoll key f => .ok (t.polls.countP (·.key = key), t.modifyRow key f)
  | addChoice c =>
    if t.hasChoice c.poll c.id then .error (.engine .repeatedOption)
    else if (t.row? c.poll).isSome then .ok (1, { t with choices := t.choices ++ [c] })
    else .error (.engine .missingPoll)
  | addAnswer a =>
    if a ∈ t.answers then .error (.engine .repeatedAnswer)
    else if t.hasChoice a.poll a.choice then .ok (1, { t with answers := t.answers ++ [a] })
    else .error (.engine .missingOption)
  | keepAnswer a =>
    if a ∈ t.answers then .ok (0, t)
    else if t.hasChoice a.poll a.choice then .ok (1, { t with answers := t.answers ++ [a] })
    else .error (.engine .missingOption)
  | withdraw key user =>
    .ok (t.answers.countP (fun a => a.poll = key ∧ a.user = user), t.withdraw key user)

theorem Tables.countP_key_eq_zero_iff {t : Tables} {key : PollKey} :
    t.polls.countP (·.key = key) = 0 ↔ t.row? key = none := by
  simp [List.countP_eq_zero, row?_eq_none_iff]

/-- A statement that changes no row leaves the tables as they were. -/
theorem Statement.eq_of_run_zero {s : Statement} {t t' : Tables} (h : s.run t = .ok (0, t')) :
    t' = t := by
  cases s with
  | addPoll r =>
    simp only [run] at h
    split at h <;> cases h
    rfl
  | changePoll key f =>
    obtain ⟨hnone, rfl⟩ := Prod.mk.inj (Except.ok.inj h)
    have hothers := Tables.row?_eq_none_iff.mp (Tables.countP_key_eq_zero_iff.mp hnone)
    have hmap : t.polls.map (fun r => if r.key = key then f r else r) = t.polls :=
      (List.map_congr_left fun r hr => if_neg (hothers r hr)).trans (List.map_id _)
    simp only [Tables.modifyRow, hmap]
  | addChoice c | addAnswer a =>
    simp only [run] at h
    split at h
    · cases h
    · split at h <;> cases h
  | keepAnswer a =>
    simp only [run] at h
    split at h
    · cases h
      rfl
    · split at h <;> cases h
  | withdraw key user =>
    obtain ⟨hnone, rfl⟩ := Prod.mk.inj (Except.ok.inj h)
    have hothers := List.countP_eq_zero.mp hnone
    simp only [Tables.withdraw]
    congr 1
    exact List.filter_eq_self.mpr fun a ha => by simpa [imp_iff_not_or] using hothers a ha

/-- A connection: what is committed, and what an open transaction has made of it so far. -/
structure Connection where
  committed : Tables
  working : Option Tables

namespace Connection

def current (c : Connection) : Tables := c.working.getD c.committed

def put (c : Connection) (t : Tables) : Connection :=
  match c.working with
  | some _ => { c with working := some t }
  | none => { c with committed := t }

end Connection

abbrev Script (α : Type) := ExceptT StorageError (StateM Connection) α

namespace Script

def outcome (a : Script α) (c : Connection) : Except StorageError α × Connection :=
  (ExceptT.run a).run c

def begin : Script Unit := modify fun c => { c with working := some c.committed }

def commit : Script Unit := modify fun c => ⟨c.current, none⟩

def execute (s : Statement) : Script Nat := do
  let c ← get
  match s.run c.current with
  | .ok (n, t) =>
    set (c.put t)
    pure n
  | .error e => throw e

def execute_ (s : Statement) : Script Unit := do
  let _ ← execute s
  pure ()

def require (s : Statement) (otherwise : StorageError) : Script Unit := do
  let changed ← execute s
  if changed = 0 then throw otherwise else pure ()

def transaction (body : Script Unit) : Script Unit := do
  begin
  body
  commit

def insertPoll (p : Poll) (editedAt : Int) : Script Unit :=
  transaction do
    require (.addPoll (.ofPoll p editedAt)) .alreadyExists
    p.choices.zipIdx.forM fun (c, i) => do
      execute_ (.addChoice ⟨p.key, c.id, i, c.name⟩)
      c.voters.toList.forM fun user => execute_ (.addAnswer ⟨p.key, c.id, user⟩)

def updatePoll (key : PollKey) (title description : String) (s : Settings) (editedAt : Int) :
    Script Unit :=
  require (.changePoll key (·.withDetails title description s editedAt)) .notFound

def replaceAnswers (key : PollKey) (user : UserId) (chosen : List ChoiceId) (editedAt : Int) :
    Script Unit :=
  transaction do
    require (.changePoll key ({ · with editedAt })) .notFound
    execute_ (.withdraw key user)
    chosen.forM fun id => execute_ (.keepAnswer ⟨key, id, user⟩)

end Script

/-- The statements that carry out a change. -/
def PollChange.script (editedAt : Int) : PollChange → Script Unit
  | insert p => Script.insertPoll p editedAt
  | update key title description s => Script.updatePoll key title description s editedAt
  | answer key user chosen => Script.replaceAnswers key user chosen editedAt

/-- Runs statements on a connection of its own. What is not committed in the end is lost. -/
def Database.perform (d : Database) (a : Script α) : Except StorageError α × Database :=
  if d.closed then (.error (.engine .closed), d)
  else
    let (result, c) := a.outcome ⟨d.tables, none⟩
    (result, { d with tables := c.committed })

namespace Script

theorem outcome_bind (a : Script α) (b : α → Script β) (c : Connection) :
    outcome (a >>= b) c = match outcome a c with
      | (.ok x, c') => outcome (b x) c'
      | (.error e, c') => (.error e, c') := by
  simp only [outcome, ExceptT.run_bind, StateT.run_bind]
  rcases StateT.run (ExceptT.run a) c with ⟨_ | _, _⟩ <;> rfl

theorem outcome_bind_of_ok {a : Script α} {b : α → Script β} {c c' : Connection} {x : α}
    (h : outcome a c = (.ok x, c')) : outcome (a >>= b) c = outcome (b x) c' := by
  rw [outcome_bind, h]

theorem outcome_bind_of_error {a : Script α} {b : α → Script β} {c c' : Connection}
    {e : StorageError} (h : outcome a c = (.error e, c')) :
    outcome (a >>= b) c = (.error e, c') := by
  rw [outcome_bind, h]

theorem outcome_execute (s : Statement) (c : Connection) :
    outcome (execute s) c = match s.run c.current with
      | .ok (n, t) => (.ok n, c.put t)
      | .error e => (.error e, c) := by
  have hget : outcome (get : Script Connection) c = (.ok c, c) := rfl
  rw [execute, outcome_bind_of_ok hget]
  cases s.run c.current <;> rfl

/-- In an open transaction, statements do to the tables what a function says. Nothing is committed, not
even what they leave if they fail. -/
def Computes (a : Script α) (f : Tables → Except StorageError (α × Tables)) : Prop :=
  ∀ base t, match f t with
    | .ok (x, t') => a.outcome ⟨base, some t⟩ = (.ok x, ⟨base, some t'⟩)
    | .error e => ∃ t', a.outcome ⟨base, some t⟩ = (.error e, ⟨base, some t'⟩)

namespace Computes

theorem congr {a : Script α} {f g : Tables → Except StorageError (α × Tables)} (h : a.Computes f)
    (hfg : ∀ t, f t = g t) : a.Computes g := funext hfg ▸ h

theorem pure (x : α) : Computes (Pure.pure x : Script α) fun t => .ok (x, t) := fun _ _ => rfl

theorem throw (e : StorageError) : Computes (MonadExcept.throw e : Script α) fun _ => .error e :=
  fun _ t => ⟨t, rfl⟩

theorem execute (s : Statement) : Computes (Script.execute s) s.run := by
  intro base t
  have hrun := outcome_execute s ⟨base, some t⟩
  have hcurrent : (⟨base, some t⟩ : Connection).current = t := rfl
  rw [hcurrent] at hrun
  dsimp only
  cases hs : s.run t with
  | error e =>
    rw [hs] at hrun
    exact ⟨t, hrun⟩
  | ok r =>
    rw [hs] at hrun
    exact hrun

theorem bind {a : Script α} {b : α → Script β} {f : Tables → Except StorageError (α × Tables)}
    {g : α → Tables → Except StorageError (β × Tables)} (ha : a.Computes f)
    (hb : ∀ x, (b x).Computes (g x)) : (a >>= b).Computes fun t => f t >>= fun r => g r.1 r.2 := by
  intro base t
  have hfirst := ha base t
  dsimp only
  cases hf : f t with
  | error e =>
    rw [hf] at hfirst
    obtain ⟨t', ho⟩ := hfirst
    exact ⟨t', outcome_bind_of_error ho⟩
  | ok r =>
    rw [hf] at hfirst
    rw [outcome_bind_of_ok hfirst]
    exact hb r.1 base r.2

theorem execute_ {s : Statement} {f : Tables → Except StorageError Tables}
    (hs : ∀ t, (s.run t).map (·.2) = f t) :
    Computes (Script.execute_ s) fun t => (f t).map ((), ·) := by
  refine ((execute s).bind fun _ => .pure ()).congr fun t => ?_
  rw [← hs t]
  cases s.run t <;> rfl

theorem require {s : Statement} {otherwise : StorageError} {f : Tables → Except StorageError Tables}
    (hs : ∀ t, (s.run t >>= fun r => if r.1 = 0 then .error otherwise else .ok r.2) = f t) :
    Computes (Script.require s otherwise) fun t => (f t).map ((), ·) := by
  refine ((execute s).bind (g := fun changed t => if changed = 0 then .error otherwise else .ok ((), t))
    fun changed => ?_).congr fun t => ?_
  · split
    · exact .throw otherwise
    · exact .pure ()
  · rw [← hs t]
    cases s.run t with
    | error e => rfl
    | ok r => exact (apply_ite (Except.map ((), ·)) (r.1 = 0) (.error otherwise) (.ok r.2)).symm

theorem forM {a : α → Script Unit} {f : Tables → α → Except StorageError Tables}
    (ha : ∀ x, (a x).Computes fun t => (f t x).map ((), ·)) (xs : List α) :
    (xs.forM a).Computes fun t => (xs.foldlM f t).map ((), ·) := by
  induction xs with
  | nil => exact .pure ()
  | cons first rest ih =>
    refine ((ha first).bind fun _ => ih).congr fun t => ?_
    rw [List.foldlM_cons]
    cases f t first <;> rfl

end Computes
end Script

namespace Database

theorem write_eq_of_closed {d : Database} (hclosed : d.closed = true)
    (f : Tables → Except StorageError (α × Tables)) : d.write f = (.error (.engine .closed), d) := by
  simp only [write, read, hclosed, if_true]

theorem write_eq_of_open {d : Database} (hopen : d.closed = false)
    (f : Tables → Except StorageError (α × Tables)) :
    d.write f = match f d.tables with
      | .ok (x, tables) => (.ok x, { d with tables })
      | .error e => (.error e, d) := by
  cases hf : f d.tables with
  | error e => simp only [write, read, hopen, hf, Bool.false_eq_true, if_false]
  | ok r =>
    obtain ⟨x, tables⟩ := r
    simp only [write, read, hopen, hf, Bool.false_eq_true, if_false]

/-- A write that fails leaves the database as it was. -/
theorem write_of_error {d : Database} {f : Tables → Except StorageError (α × Tables)}
    {e : StorageError} (h : (d.write f).1 = .error e) : (d.write f).2 = d := by
  simp only [write] at h ⊢
  cases hread : d.read f with
  | error _ => rfl
  | ok r =>
    rw [hread] at h
    cases h

/-- A transaction does as a whole what its statements do. -/
theorem perform_transaction {body : Script Unit} {f : Tables → Except StorageError (Unit × Tables)}
    (hbody : body.Computes f) (d : Database) : d.perform (.transaction body) = d.write f := by
  obtain ⟨tables, closed⟩ := d
  cases closed with
  | true => exact (write_eq_of_closed rfl f).symm
  | false =>
    have hrun := hbody tables tables
    have hbegin : Script.begin.outcome ⟨tables, none⟩ = (.ok (), ⟨tables, some tables⟩) := rfl
    rw [write_eq_of_open rfl, perform, Script.transaction, Script.outcome_bind_of_ok hbegin]
    dsimp only
    cases hf : f tables with
    | error e =>
      rw [hf] at hrun
      obtain ⟨left, hrun⟩ := hrun
      rw [Script.outcome_bind_of_error hrun]
      rfl
    | ok r =>
      rw [hf] at hrun
      rw [Script.outcome_bind_of_ok hrun]
      rfl

/-- Outside of a transaction, a statement that should change a row and changes none has changed
nothing. -/
theorem perform_require {s : Statement} {otherwise : StorageError}
    {f : Tables → Except StorageError Tables}
    (hs : ∀ t, (s.run t >>= fun r => if r.1 = 0 then .error otherwise else .ok r.2) = f t)
    (d : Database) : d.perform (.require s otherwise) = d.write fun t => (f t).map ((), ·) := by
  obtain ⟨tables, closed⟩ := d
  cases closed with
  | true => exact (write_eq_of_closed rfl _).symm
  | false =>
    have hrun := Script.outcome_execute s ⟨tables, none⟩
    have hcurrent : (⟨tables, none⟩ : Connection).current = tables := rfl
    rw [hcurrent] at hrun
    rw [write_eq_of_open rfl, perform, Script.require]
    dsimp only
    rw [← hs tables]
    cases hr : s.run tables with
    | error e =>
      rw [hr] at hrun
      rw [Script.outcome_bind_of_error hrun]
      rfl
    | ok r =>
      obtain ⟨changed, t⟩ := r
      rw [hr] at hrun
      rw [Script.outcome_bind_of_ok hrun]
      by_cases hnone : changed = 0
      · subst hnone
        obtain rfl := Statement.eq_of_run_zero hr
        rfl
      · simp only [hnone, if_false]
        rw [show (Except.ok (changed, t) >>= fun r : Nat × Tables =>
          if r.1 = 0 then Except.error otherwise else .ok r.2) = .ok t from if_neg hnone]
        rfl

end Database

namespace Tables

variable {t : Tables} {key : PollKey}

/-- Each answer is for an option that is stored. -/
def Anchored (t : Tables) : Prop := ∀ a ∈ t.answers, t.hasChoice a.poll a.choice = true

private theorem changePoll_eq (t : Tables) (key : PollKey) (f : PollRow → PollRow) :
    ((Statement.changePoll key f).run t >>= fun r =>
      if r.1 = 0 then .error .notFound else .ok r.2) = t.modifyRow? key f := by
  show (if t.polls.countP (·.key = key) = 0 then Except.error StorageError.notFound
    else .ok (t.modifyRow key f)) = _
  simp only [countP_key_eq_zero_iff, modifyRow?, Option.isSome_iff_ne_none, ite_not]

/-- The first answers to a new option are all added. -/
theorem addAnswers_eq {id : ChoiceId} (hid : t.hasChoice key id = true) {users : List UserId}
    (hdistinct : users.Nodup) (hnew : ∀ user ∈ users, ⟨key, id, user⟩ ∉ t.answers) :
    users.foldlM (fun t user => ((Statement.addAnswer ⟨key, id, user⟩).run t).map (·.2)) t =
      .ok { t with answers := t.answers ++ users.map (⟨key, id, ·⟩) } := by
  induction users generalizing t with
  | nil => simp [pure, Except.pure]
  | cons first rest ih =>
    obtain ⟨hfirst, hrest⟩ := List.nodup_cons.mp hdistinct
    have hrun : (Statement.addAnswer ⟨key, id, first⟩).run t =
        .ok (1, { t with answers := t.answers ++ [⟨key, id, first⟩] }) := by
      rw [Statement.run, if_neg (hnew first List.mem_cons_self), if_pos hid]
    rw [List.foldlM_cons, hrun]
    refine (ih (t := { t with answers := t.answers ++ [⟨key, id, first⟩] }) hid hrest ?_).trans ?_
    · intro user huser hmem
      rcases List.mem_append.mp hmem with hold | hlast
      · exact hnew user (List.mem_cons_of_mem _ huser) hold
      · simp only [List.mem_singleton, AnswerRow.mk.injEq, true_and] at hlast
        exact hfirst (hlast ▸ huser)
    · simp

def addChoice (t : Tables) (key : PollKey) (placed : Choice × Nat) : Except StorageError Tables := do
  let t ← ((Statement.addChoice ⟨key, placed.1.id, placed.2, placed.1.name⟩).run t).map (·.2)
  placed.1.voters.toList.foldlM
    (fun t user => ((Statement.addAnswer ⟨key, placed.1.id, user⟩).run t).map (·.2)) t

private theorem addChoice_eq (ht : t.Anchored) (hrow : (t.row? key).isSome) (placed : Choice × Nat) :
    t.addChoice key placed = t.insertChoice key placed.2 placed.1 := by
  obtain ⟨c, i⟩ := placed
  simp only [addChoice, insertChoice, Statement.run]
  by_cases hold : t.hasChoice key c.id = true
  · rw [if_pos hold, if_pos hold]
    rfl
  · rw [if_neg hold, if_neg hold, if_pos hrow]
    refine addAnswers_eq (t := { t with choices := t.choices ++ [⟨key, c.id, i, c.name⟩] })
      (by simp [hasChoice]) (c.voters.sorted.imp ne_of_lt) fun user _ hmem => ?_
    exact hold (ht _ hmem)

private theorem Anchored.insertChoice (ht : t.Anchored) (hrow : (t.row? key).isSome) {i : Nat} {c : Choice}
    {t' : Tables} (h : t.insertChoice key i c = .ok t') : t'.Anchored ∧ (t'.row? key).isSome := by
  simp only [Tables.insertChoice] at h
  split at h
  · cases h
  · cases h
    refine ⟨fun a ha => ?_, hrow⟩
    rcases List.mem_append.mp ha with hold | hnew
    · have hchoice := ht a hold
      simp only [hasChoice, List.any_append, Bool.or_eq_true] at hchoice ⊢
      exact .inl hchoice
    · obtain ⟨user, -, rfl⟩ := List.mem_map.mp hnew
      simp [hasChoice]

private theorem addChoices_eq (ht : t.Anchored) (hrow : (t.row? key).isSome)
    (placed : List (Choice × Nat)) : placed.foldlM (fun t c => t.addChoice key c) t =
      placed.foldlM (fun t (c, i) => t.insertChoice key i c) t := by
  induction placed generalizing t with
  | nil => rfl
  | cons first rest ih =>
    obtain ⟨c, i⟩ := first
    rw [List.foldlM_cons, List.foldlM_cons, addChoice_eq ht hrow]
    dsimp only
    cases hfirst : t.insertChoice key i c with
    | error e => rfl
    | ok t' =>
      obtain ⟨ht', hrow'⟩ := ht.insertChoice hrow hfirst
      exact ih ht' hrow'

end Tables

namespace PollChange

open Script

/-- What the statements of a change do to the tables together. -/
def effect (editedAt : Int) (t : Tables) : PollChange → Except StorageError Tables
  | insert p => do
    let t ← if (t.row? p.key).isSome then .error .alreadyExists
      else .ok { t with polls := t.polls ++ [.ofPoll p editedAt] }
    p.choices.zipIdx.foldlM (fun t placed => t.addChoice p.key placed) t
  | update key title description s => t.updatePoll key title description s editedAt
  | answer key user chosen => t.replaceAnswers key user chosen editedAt

theorem perform_script (c : PollChange) (editedAt : Int) (d : Database) :
    d.perform (c.script editedAt) = d.write fun t => (c.effect editedAt t).map ((), ·) := by
  cases c with
  | insert p =>
    refine Database.perform_transaction (.congr (.bind (.require fun t => rfl) fun _ =>
      .forM (f := fun t placed => t.addChoice p.key placed) (fun placed => ?_) p.choices.zipIdx)
      fun t => ?_) d
    · refine (Computes.bind (.execute_ fun _ => rfl) fun _ =>
        .forM (fun user => .execute_ fun _ => rfl) placed.1.voters.toList).congr fun t => ?_
      simp only [Tables.addChoice]
      cases (Statement.addChoice ⟨p.key, placed.1.id, placed.2, placed.1.name⟩).run t <;> rfl
    · have hkey : (PollRow.ofPoll p editedAt).key = p.key := rfl
      simp only [effect, Statement.run, hkey]
      split <;> rfl
  | update key title description s =>
    exact Database.perform_require (fun t => Tables.changePoll_eq t key _) d
  | answer key user chosen =>
    refine Database.perform_transaction (.congr (.bind
      (.require fun t => Tables.changePoll_eq t key _) fun _ => .bind
      (.execute_ (f := fun t => .ok (t.withdraw key user)) fun _ => rfl) fun _ =>
      .forM (f := fun t id => t.insertAnswer ⟨key, id, user⟩) (fun id => .execute_ fun t => ?_) chosen)
      fun t => ?_) d
    · simp only [Statement.run, Tables.insertAnswer]
      split
      · rfl
      · split <;> rfl
    · simp only [effect, Tables.replaceAnswers]
      cases t.modifyRow? key ({ · with editedAt }) <;> rfl

/-- As long as each answer is for a stored option, an answer to a new option repeats no other one. -/
theorem effect_eq_apply (c : PollChange) (editedAt : Int) {t : Tables} (ht : t.Anchored) :
    c.effect editedAt t = c.apply editedAt t := by
  cases c with
  | insert p =>
    simp only [effect, apply, Tables.insertPoll]
    split
    · rfl
    · next hnew =>
      have hrow : (Tables.row? { t with polls := t.polls ++ [.ofPoll p editedAt] } p.key).isSome := by
        simp [Tables.row?, PollRow.ofPoll]
      exact Tables.addChoices_eq (t := { t with polls := t.polls ++ [.ofPoll p editedAt] }) ht hrow _
  | update key title description s => rfl
  | answer key user chosen => rfl

/-- A change that fails leaves the database as it was, in every state and wherever it fails. -/
theorem perform_of_error {c : PollChange} {editedAt : Int} {d : Database} {e : StorageError}
    (h : (d.perform (c.script editedAt)).1 = .error e) : (d.perform (c.script editedAt)).2 = d := by
  rw [perform_script] at h ⊢
  exact Database.write_of_error h

/-- The first option is there when the second one fails, but it is not committed. -/
example :
    let twice := { Poll.lunch with choices := [⟨1, "Here", .empty⟩, ⟨1, "There", .empty⟩] }
    let r := (Script.insertPoll twice 0).outcome ⟨.empty, none⟩
    r.1 = .error (.engine .repeatedOption) ∧ r.2.current.choices = [⟨⟨1, 7⟩, 1, 0, "Here"⟩] ∧
      r.2.committed.choices = [] := by
  decide +kernel

end PollChange

namespace Database

theorem perform_eq_write {d : Database} (hd : d.tables.Anchored) (c : PollChange) (editedAt : Int) :
    d.perform (c.script editedAt) = d.write fun t => (c.apply editedAt t).map ((), ·) := by
  rw [PollChange.perform_script]
  simp only [write, read, PollChange.effect_eq_apply c editedAt hd]

/-- A change of an open database fails just if there is a fault in its way, and with this fault. -/
theorem perform_eq_error_iff {d : Database} (hopen : d.closed = false) (hd : d.tables.Anchored)
    {c : PollChange} {editedAt : Int} {e : StorageError} :
    (d.perform (c.script editedAt)).1 = .error e ↔ c.fault? d.tables = some e := by
  rw [perform_eq_write hd, write_eq_of_open hopen]
  cases hfault : c.fault? d.tables with
  | some fault =>
    rw [PollChange.apply_of_fault? hfault]
    simp [Except.map]
  | none =>
    obtain ⟨t', ht'⟩ := PollChange.apply_of_no_fault hfault editedAt
    rw [ht']
    simp [Except.map]

end Database

end PollKeeper
