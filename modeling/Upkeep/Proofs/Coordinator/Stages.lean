import Upkeep.Proofs.Coordinator.Reports

/-!
# The stages of an operation

The reports on one operation come from many: from every worker that has it in hand for a while, and
from the caller that cancels it. Here is what they have to add up to, whoever makes them.

**Stages.** Of an operation it matters how far it is (`Stage`). In a `Passage` it goes from one
stage to the next, or is over, and something may be reported or counted. A `Life` is what is
reported of it: that it has to wait, any number of times, and then that it starts and ends, is
dropped, or is cancelled. Passages keep to that order (`Passage.life`).

**Rolls.** A `Roll` has the operations that are not over, each at one stage, with the reports and
the counter. In a step one of them at most goes through a passage, or one more is taken in.

**What is kept.** The reports on each operation that was taken in are those of a life, up to the
stage that it has come to. A rejection is reported first and counted afterwards, a conflict the
other way round, and a rejection may be missed in the count; so the warnings are what is counted
apart from the operations at the stages in between and from what is missed (`Roll.Kept`).
-/

namespace Upkeep

variable {ω : Type}

/-- The operation without the times at which it was started and completed. -/
def Operation.bare (op : Operation ω) : Operation ω :=
  { op with started := none, completed := none }

def Report.isWarning : Report → Bool
  | warning .. => true
  | _ => false

/-- The report that an operation is cancelled. -/
def cancelReport : Report := .step "cancelled" .completed "Operation cancelled"

theorem Submission.Describes.bare {sub : Submission ω} {op : Submitted ω} (h : sub.Describes op) :
    op.bare = op := by
  obtain ⟨id, kind, priority, requirement, paths, created, started, completed, work⟩ := op
  obtain rfl : started = none := h.started
  obtain rfl : completed = none := h.completed
  rfl

/-! ## Lives -/

/-- The operation may not start now. -/
inductive Delay (op : Submitted ω) : Report → Prop
  | rejection (why : Rejection) (available : UInt64) : Delay op (why.report available)
  | conflict : Delay op (conflictReport op)

/-- What is reported of an operation in the end. -/
inductive Ending (op : Submitted ω) : List Report → Prop
  | execution (op' : Submitted ω) (outcome : Outcome) (h : op'.bare = op) :
      Ending op [startReport op, endReport op' outcome]
  | drop (why : Queue.Refusal) : Ending op [dropReport op why]
  | cancel : Ending op [cancelReport]

/-- These are the reports of a life, which may not be over. -/
def Life (op : Submitted ω) (rs : List Report) : Prop :=
  ∃ delays ending, (∀ r ∈ delays, Delay op r) ∧ Ending op ending ∧ rs <+: delays ++ ending

/-- How far an operation is that is not over. -/
inductive Stage where
  /-- It has not started. -/
  | waiting
  /-- It is reported, and not counted, that the operation is rejected. -/
  | rejected
  /-- It is counted, and not reported, that its locks could not be taken. -/
  | conflicted
  /-- The start is reported. -/
  | underway
  deriving DecidableEq

/-- These are the reports on an operation that has come to a stage. -/
def Stage.Told (op : Submitted ω) : Stage → List Report → Prop
  | waiting, rs | rejected, rs | conflicted, rs => ∀ r ∈ rs, Delay op r
  | underway, rs => ∃ delays, (∀ r ∈ delays, Delay op r) ∧ rs = delays ++ [startReport op]

/-- An operation goes from one stage to the next, if any. Something may be reported, or be counted,
and a rejection that is reported may be missed in the count. -/
inductive Passage (op : Submitted ω) : Stage → List Report → Nat → Bool → Option Stage → Prop
  | reject (why : Rejection) (available : UInt64) :
      Passage op .waiting [why.report available] 0 false (some .rejected)
  | abandon (why : Rejection) (available : UInt64) :
      Passage op .waiting [why.report available] 0 true none
  | countRejection : Passage op .rejected [] 1 false (some .waiting)
  | countConflict : Passage op .waiting [] 1 false (some .conflicted)
  | conflict (next : Option Stage) (h : ∀ st ∈ next, st = .waiting) :
      Passage op .conflicted [conflictReport op] 0 false next
  | drop (why : Queue.Refusal) : Passage op .waiting [dropReport op why] 0 false none
  | start (next : Option Stage) (h : ∀ st ∈ next, st = .underway) :
      Passage op .waiting [startReport op] 0 false next
  | finish (op' : Submitted ω) (outcome : Outcome) (h : op'.bare = op) :
      Passage op .underway [endReport op' outcome] 0 false none
  | cancel : Passage op .waiting [cancelReport] 0 false none

section

variable {op : Submitted ω} {st : Stage} {rs told : List Report} {counted : Nat} {missed : Bool}
  {next : Option Stage}

theorem Life.of_delays (h : ∀ r ∈ rs, Delay op r) : Life op rs :=
  ⟨rs, [cancelReport], h, .cancel, List.prefix_append rs _⟩

theorem Life.of_ending {ending : List Report} (h : ∀ r ∈ rs, Delay op r)
    (hending : Ending op ending) : Life op (rs ++ ending) :=
  ⟨rs, ending, h, hending, List.prefix_rfl⟩

theorem Life.of_start (hop : op.bare = op) (h : ∀ r ∈ rs, Delay op r) :
    Life op (rs ++ [startReport op]) :=
  ⟨rs, _, h, .execution op .success hop, (List.prefix_append_right_inj rs).2 ⟨_, rfl⟩⟩

theorem Delay.snoc {r : Report} (h : ∀ r ∈ rs, Delay op r) (hr : Delay op r) :
    ∀ r' ∈ rs ++ [r], Delay op r' := by
  intro r' hr'
  rcases List.mem_append.1 hr' with hr' | hr'
  · exact h r' hr'
  · rwa [List.mem_singleton.1 hr']

/-- The reports on an operation that goes through its passages are those of a life. -/
theorem Passage.life (h : Passage op st told counted missed next) (hop : op.bare = op)
    (hrs : st.Told op rs) : Life op (rs ++ told) ∧ ∀ st' ∈ next, st'.Told op (rs ++ told) := by
  cases h with
  | reject why available =>
    have hdelays := Delay.snoc hrs (.rejection why available)
    exact ⟨.of_delays hdelays, fun st' hst => Option.some.inj hst ▸ hdelays⟩
  | abandon why available =>
    exact ⟨.of_delays (Delay.snoc hrs (.rejection why available)), nofun⟩
  | countRejection | countConflict =>
    rw [List.append_nil]
    exact ⟨.of_delays hrs, fun st' hst => Option.some.inj hst ▸ hrs⟩
  | conflict next h =>
    have hdelays := Delay.snoc hrs .conflict
    exact ⟨.of_delays hdelays, fun st' hst => h st' hst ▸ hdelays⟩
  | drop why => exact ⟨.of_ending hrs (.drop why), nofun⟩
  | start next h => exact ⟨.of_start hop hrs, fun st' hst => h st' hst ▸ ⟨rs, hrs, rfl⟩⟩
  | finish op' outcome h =>
    obtain ⟨delays, hdelays, rfl⟩ := hrs
    rw [List.append_assoc]
    exact ⟨.of_ending hdelays (.execution op' outcome h), nofun⟩
  | cancel => exact ⟨.of_ending hrs .cancel, nofun⟩

theorem Passage.isQueued (h : Passage op st told counted missed next) :
    ∀ r ∈ told, r.isQueued = false := by
  cases h with
  | reject why available | abandon why available =>
    intro r hr
    rw [List.mem_singleton.1 hr]
    exact why.isQueued_report available
  | finish op' outcome h =>
    intro r hr
    rw [List.mem_singleton.1 hr]
    unfold endReport
    split <;> rfl
  | countRejection | countConflict => exact nofun
  | conflict | drop | start | cancel => exact List.forall_mem_singleton.2 rfl

theorem Rejection.isWarning_report (why : Rejection) (available : UInt64) :
    (why.report available).isWarning = true := by
  cases why <;> rfl

theorem Report.isWarning_of_isQueued {r : Report} (h : r.isQueued = true) :
    r.isWarning = false := by
  cases r with
  | step => rfl
  | _ => cases h

/-- In a passage there is one warning for what is counted, apart from what is reported and not yet
counted, what is counted and not yet reported, and what is missed. -/
theorem Passage.count (h : Passage op st told counted missed next) :
    told.countP Report.isWarning + next.toList.count .conflicted + [st].count .rejected =
      counted + missed.toNat + next.toList.count .rejected + [st].count .conflicted := by
  cases h with
  | reject why available | abandon why available =>
    rw [List.countP_singleton, why.isWarning_report]
    rfl
  | finish op' outcome h =>
    have hnone : (endReport op' outcome).isWarning = false := by
      unfold endReport
      split <;> rfl
    rw [List.countP_singleton, hnone]
    rfl
  | conflict next h | start next h =>
    cases next with
    | none => rfl
    | some st' =>
      rw [h st' rfl]
      rfl
  | _ => rfl

end

/-! ## Rolls -/

/-- The reports on the operation of a number. -/
def reportsOn (es : List (AuditEntry ω)) (t : Nat) : List Report :=
  (es.filter (·.work.ticket = t)).map (·.report)

/-- The reports on the operation of a number, other than that it is queued. -/
def courseOf (es : List (AuditEntry ω)) (t : Nat) : List Report :=
  (reportsOn es t).filter (!·.isQueued)

/-- How many warnings there are on the operations of these numbers. -/
def warningsOn (es : List (AuditEntry ω)) (ts : List Nat) : Nat :=
  es.countP fun e => e.report.isWarning && decide (e.work.ticket ∈ ts)

section

variable {es es' : List (AuditEntry ω)} {t : Nat} {ts : List Nat} {told : List Report}
  {op : Submitted ω}

theorem courseOf_append (es es' : List (AuditEntry ω)) (t : Nat) :
    courseOf (es ++ es') t = courseOf es t ++ courseOf es' t := by
  simp only [courseOf, reportsOn, List.filter_append, List.map_append]

theorem courseOf_map_self (h : ∀ r ∈ told, r.isQueued = false) (text : String) :
    courseOf (told.map (AuditEntry.mk op.work text)) op.ticket = told := by
  have hall : (told.map (AuditEntry.mk op.work text)).filter (·.work.ticket = op.ticket) =
      told.map (AuditEntry.mk op.work text) := by
    refine List.filter_eq_self.2 fun e he => ?_
    obtain ⟨r, -, rfl⟩ := List.mem_map.1 he
    exact decide_eq_true rfl
  rw [courseOf, reportsOn, hall, List.map_map]
  simpa [Function.comp_def] using h

/-- Reports on other operations, and that this one is queued, make no difference. -/
theorem courseOf_append_of_other (h : ∀ e ∈ es', e.work.ticket = t → e.report.isQueued) :
    courseOf (es ++ es') t = courseOf es t := by
  have hnone : courseOf es' t = [] := by
    refine List.filter_eq_nil_iff.2 fun r hr => ?_
    obtain ⟨e, he, rfl⟩ := List.mem_map.1 hr
    obtain ⟨he, heq⟩ := List.mem_filter.1 he
    simp [h e he (of_decide_eq_true heq)]
  rw [courseOf_append, hnone, List.append_nil]

theorem countP_reportsOn (es : List (AuditEntry ω)) (t : Nat) (p : Report → Bool) :
    (reportsOn es t).countP p = ((es.filter (p ·.report)).map (·.work.ticket)).count t := by
  rw [reportsOn, List.countP_map, List.countP_filter, List.count, List.countP_map,
    List.countP_filter]
  exact List.countP_congr fun e _ => by simp [and_comm]

theorem warningsOn_append (es es' : List (AuditEntry ω)) (ts : List Nat) :
    warningsOn (es ++ es') ts = warningsOn es ts + warningsOn es' ts :=
  List.countP_append

theorem warningsOn_snoc {e : AuditEntry ω} (h : e.work.ticket ∈ ts → e.report.isQueued) :
    warningsOn (es ++ [e]) ts = warningsOn es ts := by
  rw [warningsOn_append, Nat.add_eq_left, warningsOn, List.countP_singleton, if_neg]
  intro he
  obtain ⟨hwarning, hin⟩ := Bool.and_eq_true_iff.1 he
  rw [Report.isWarning_of_isQueued (h (of_decide_eq_true hin))] at hwarning
  cases hwarning

theorem warningsOn_map (h : op.ticket ∈ ts) (text : String) :
    warningsOn (told.map (AuditEntry.mk op.work text)) ts = told.countP Report.isWarning := by
  rw [warningsOn, List.countP_map]
  refine List.countP_congr fun r _ => ?_
  simp [Operation.ticket] at h ⊢
  exact fun _ => h

end

/-- An operation as it was submitted, and how far it is. -/
abbrev Post (ω : Type) := Submitted ω × Stage

/-- The operations that are not over, with what is reported and counted. -/
structure Roll (ω : Type) where
  posts : List (Post ω)
  /-- What is taken in and has still to be reported as queued. -/
  owed : List Nat
  /-- What was not taken in, and has still to be reported as refused. -/
  refused : List Nat
  /-- How often it was counted that an operation may not start. -/
  delays : Nat
  submissions : Nat
  audit : List (AuditEntry ω)

namespace Roll

/-- One operation at most goes through a passage. -/
inductive Shift (r : Roll ω) : Bool → Roll ω → Prop
  | rest {posts : List (Post ω)} (h : posts.Perm r.posts) : Shift r false { r with posts }
  | pass {op : Submitted ω} {st : Stage} {told : List Report} {counted : Nat} {missed : Bool}
      {next : Option Stage} {others posts : List (Post ω)}
      (h : Passage op st told counted missed next) (hold : r.posts.Perm ((op, st) :: others))
      (hnew : posts.Perm (next.toList.map (op, ·) ++ others)) :
      Shift r missed { r with
        posts
        delays := r.delays + counted
        audit := r.audit ++ told.map (AuditEntry.mk op.work op.id.text) }

/-- What a move makes of a roll: an operation may be taken in, and a rejection may be missed. -/
inductive Step (r : Roll ω) : Option (Submission ω) → Bool → Roll ω → Prop
  | shift {missed : Bool} {r' : Roll ω} (h : r.Shift missed r') : Step r none missed r'
  | accept {sub : Submission ω} {op : Submitted ω} {posts : List (Post ω)}
      (hticket : sub.ticket = r.submissions) (hop : sub.Describes op)
      (h : posts.Perm ((op, .waiting) :: r.posts)) :
      Step r (some sub) false { r with
        posts, owed := r.owed ++ [sub.ticket], submissions := r.submissions + 1 }
  | refuse : Step r none false { r with
      refused := r.refused ++ [r.submissions], submissions := r.submissions + 1 }
  | invalid {e : AuditEntry ω} (hticket : e.work.ticket = r.submissions)
      (he : e.report.isQueued = false) :
      Step r none false { r with audit := r.audit ++ [e], submissions := r.submissions + 1 }
  | tellQueued {e : AuditEntry ω} {owed : List Nat} (h : r.owed.Perm (e.work.ticket :: owed))
      (he : e.report.isQueued = true) : Step r none false { r with owed, audit := r.audit ++ [e] }
  | tellRefused {e : AuditEntry ω} {refused : List Nat}
      (h : r.refused.Perm (e.work.ticket :: refused)) (he : e.report.isQueued = false) :
      Step r none false { r with refused, audit := r.audit ++ [e] }

/-- The reports on each operation that was taken in are those of a life, up to the stage of its
post, and the warnings are what the counter says. -/
structure Kept (r : Roll ω) (subs : List (Submission ω)) (missed : Nat) : Prop where
  lt : ∀ sub ∈ subs, sub.ticket < r.submissions
  numbered : (subs.map (·.ticket)).Nodup
  heard : ∀ e ∈ r.audit, e.work.ticket < r.submissions
  refused : ∀ t ∈ r.refused, t < r.submissions ∧ t ∉ subs.map (·.ticket)
  apart : (r.posts.map (·.1.ticket)).Nodup
  posted : ∀ p ∈ r.posts, p.1.ticket ∈ subs.map (·.ticket)
  queued : ((r.audit.filter (·.report.isQueued)).map (·.work.ticket) ++ r.owed).Perm
    (subs.map (·.ticket))
  life : ∀ sub ∈ subs, ∃ op, sub.Describes op ∧ Life op (courseOf r.audit sub.ticket) ∧
    ∀ p ∈ r.posts, p.1.ticket = sub.ticket →
      p.1 = op ∧ p.2.Told op (courseOf r.audit sub.ticket)
  warnings : warningsOn r.audit (subs.map (·.ticket)) + (r.posts.map Prod.snd).count .conflicted =
    r.delays + (r.posts.map Prod.snd).count .rejected + missed

namespace Kept

variable {r r' : Roll ω} {subs : List (Submission ω)} {missed : Nat}

theorem not_submitted (h : r.Kept subs missed) : r.submissions ∉ subs.map (·.ticket) := by
  intro hin
  obtain ⟨sub, hsub, heq⟩ := List.mem_map.1 hin
  exact Nat.lt_irrefl _ (heq ▸ h.lt sub hsub)

theorem rest (h : r.Kept subs missed) {posts : List (Post ω)} (hposts : posts.Perm r.posts) :
    Kept { r with posts } subs missed := by
  constructor
  case lt => exact h.lt
  case numbered => exact h.numbered
  case heard => exact h.heard
  case refused => exact h.refused
  case apart => exact (hposts.map _).nodup_iff.2 h.apart
  case posted => exact fun p hp => h.posted p (hposts.mem_iff.1 hp)
  case queued => exact h.queued
  case life =>
    intro sub hsub
    obtain ⟨op, hop, hlife, hpost⟩ := h.life sub hsub
    exact ⟨op, hop, hlife, fun p hp => hpost p (hposts.mem_iff.1 hp)⟩
  case warnings =>
    have hstages (st : Stage) := (hposts.map Prod.snd).count_eq st
    rw [hstages, hstages]
    exact h.warnings

theorem pass (h : r.Kept subs missed) {op : Submitted ω} {st : Stage} {told : List Report}
    {counted : Nat} {fails : Bool} {next : Option Stage} {others posts : List (Post ω)}
    (hpass : Passage op st told counted fails next) (hold : r.posts.Perm ((op, st) :: others))
    (hnew : posts.Perm (next.toList.map (op, ·) ++ others)) :
    Kept { r with
      posts
      delays := r.delays + counted
      audit := r.audit ++ told.map (AuditEntry.mk op.work op.id.text) } subs
        (missed + fails.toNat) := by
  have hin : (op, st) ∈ r.posts := hold.mem_iff.2 List.mem_cons_self
  have hticket : op.ticket ∈ subs.map (·.ticket) := h.posted _ hin
  have hnodup := (hold.map (·.1.ticket)).nodup_iff.1 h.apart
  have hmem {p : Post ω} (hp : p ∈ posts) : (∃ st' ∈ next, p = (op, st')) ∨ p ∈ others := by
    rcases List.mem_append.1 (hnew.mem_iff.1 hp) with hp | hp
    · obtain ⟨st', hst, rfl⟩ := List.mem_map.1 hp
      exact .inl ⟨st', Option.mem_toList.1 hst, rfl⟩
    · exact .inr hp
  have hother {p : Post ω} (hp : p ∈ others) : p ∈ r.posts ∧ p.1.ticket ≠ op.ticket := by
    refine ⟨hold.mem_iff.2 (List.mem_cons_of_mem _ hp), fun heq => ?_⟩
    exact (List.nodup_cons.1 hnodup).1 (List.mem_map.2 ⟨p, hp, heq⟩)
  constructor
  case lt => exact h.lt
  case numbered => exact h.numbered
  case heard =>
    intro e he
    rcases List.mem_append.1 he with he | he
    · exact h.heard e he
    · obtain ⟨r, -, rfl⟩ := List.mem_map.1 he
      obtain ⟨sub, hsub, heq⟩ := List.mem_map.1 hticket
      have hlt := h.lt sub hsub
      rwa [heq] at hlt
  case refused => exact h.refused
  case apart =>
    refine ((hnew.map (·.1.ticket)).nodup_iff).2 ?_
    cases next with
    | none => exact (List.nodup_cons.1 hnodup).2
    | some st' => exact hnodup
  case posted =>
    intro p hp
    rcases hmem hp with ⟨st', -, rfl⟩ | hp
    · exact hticket
    · exact h.posted p (hother hp).1
  case queued =>
    have hnone : (told.map (AuditEntry.mk op.work op.id.text)).filter (·.report.isQueued) = [] := by
      refine List.filter_eq_nil_iff.2 fun e he => ?_
      obtain ⟨r, hr, rfl⟩ := List.mem_map.1 he
      simp [hpass.isQueued r hr]
    rw [List.filter_append, hnone, List.append_nil]
    exact h.queued
  case life =>
    intro sub hsub
    obtain ⟨op', hop, hlife, hpost⟩ := h.life sub hsub
    refine ⟨op', hop, ?_⟩
    -- No other post has this number, so what is told at the others stays the same.
    by_cases heq : op.ticket = sub.ticket
    · obtain ⟨rfl, htold⟩ := hpost _ hin heq
      rw [courseOf_append, ← heq, courseOf_map_self hpass.isQueued]
      rw [← heq] at htold
      obtain ⟨hlife, hnext⟩ := hpass.life hop.bare htold
      refine ⟨hlife, fun p hp hp' => ?_⟩
      rcases hmem hp with ⟨st', hst, rfl⟩ | hp
      · exact ⟨rfl, hnext st' hst⟩
      · exact absurd hp' (hother hp).2
    · have hsame : courseOf (r.audit ++ told.map (AuditEntry.mk op.work op.id.text)) sub.ticket =
          courseOf r.audit sub.ticket := by
        refine courseOf_append_of_other fun e he heq' => ?_
        obtain ⟨r, -, rfl⟩ := List.mem_map.1 he
        exact absurd heq' heq
      rw [hsame]
      refine ⟨hlife, fun p hp hp' => ?_⟩
      rcases hmem hp with ⟨st', -, rfl⟩ | hp
      · exact absurd hp' heq
      · exact hpost p (hother hp).1 hp'
  case warnings =>
    have hstages (st' : Stage) : (r.posts.map Prod.snd).count st' =
        [st].count st' + (others.map Prod.snd).count st' := by
      rw [(hold.map Prod.snd).count_eq st', List.map_cons, ← List.singleton_append,
        List.count_append]
    have hstages' (st' : Stage) : (posts.map Prod.snd).count st' =
        next.toList.count st' + (others.map Prod.snd).count st' := by
      rw [(hnew.map Prod.snd).count_eq st', List.map_append, List.count_append, List.map_map]
      simp [Function.comp_def]
    have hbefore := h.warnings
    have hcount := hpass.count
    rw [hstages, hstages] at hbefore
    rw [warningsOn_append, warningsOn_map hticket, hstages', hstages']
    dsimp only
    omega

/-- It is reported that an operation is queued, or something on what was not taken in. -/
theorem remark (h : r.Kept subs missed) {e : AuditEntry ω} {owed refused : List Nat} {n : Nat}
    (hlt : e.work.ticket < r.submissions + n)
    (hother : e.work.ticket ∈ subs.map (·.ticket) → e.report.isQueued)
    (howed : (([e].filter (·.report.isQueued)).map (·.work.ticket) ++ owed).Perm r.owed)
    (hrefused : ∀ t ∈ refused, t ∈ r.refused) :
    Kept { r with owed, refused, audit := r.audit ++ [e], submissions := r.submissions + n } subs
      missed := by
  constructor
  case lt => exact fun sub hsub => Nat.lt_add_right n (h.lt sub hsub)
  case numbered => exact h.numbered
  case heard =>
    intro e' he'
    rcases List.mem_append.1 he' with he' | he'
    · exact Nat.lt_add_right n (h.heard e' he')
    · rwa [List.mem_singleton.1 he']
  case refused =>
    intro t ht
    obtain ⟨hold, hnot⟩ := h.refused t (hrefused t ht)
    exact ⟨Nat.lt_add_right n hold, hnot⟩
  case apart => exact h.apart
  case posted => exact h.posted
  case queued =>
    rw [List.filter_append, List.map_append, List.append_assoc]
    exact (howed.append_left _).trans h.queued
  case life =>
    intro sub hsub
    rw [courseOf_append_of_other fun e' he' heq => ?_]
    · exact h.life sub hsub
    · rw [List.mem_singleton.1 he'] at heq ⊢
      exact hother (heq ▸ List.mem_map_of_mem hsub)
  case warnings =>
    rw [warningsOn_snoc hother]
    exact h.warnings

/-- An operation is taken in. -/
theorem accept (h : r.Kept subs missed) {sub : Submission ω} {op : Submitted ω}
    {posts : List (Post ω)} (hticket : sub.ticket = r.submissions) (hop : sub.Describes op)
    (hposts : posts.Perm ((op, .waiting) :: r.posts)) :
    Kept { r with posts, owed := r.owed ++ [sub.ticket], submissions := r.submissions + 1 }
      (subs ++ [sub]) missed := by
  have hsame : op.ticket = sub.ticket := by rw [Operation.ticket, hop.work]
  have hnew {t : Nat} (ht : t < r.submissions) : t ≠ sub.ticket :=
    hticket ▸ Nat.ne_of_lt ht
  have hfresh : sub.ticket ∉ subs.map (·.ticket) := hticket ▸ h.not_submitted
  have htickets : (subs ++ [sub]).map (·.ticket) = subs.map (·.ticket) ++ [sub.ticket] :=
    List.map_append
  have hsilent : courseOf r.audit sub.ticket = [] := by
    rw [← List.nil_append r.audit]
    exact courseOf_append_of_other fun e he heq => absurd heq (hnew (h.heard e he))
  constructor
  case lt =>
    intro sub' hsub'
    rcases List.mem_append.1 hsub' with hsub' | hsub'
    · exact Nat.lt_succ_of_lt (h.lt sub' hsub')
    · rw [List.mem_singleton.1 hsub', hticket]
      exact Nat.lt_succ_self _
  case numbered =>
    rw [htickets]
    exact List.nodup_append.2 ⟨h.numbered, List.nodup_singleton _, fun t ht t' ht' heq =>
      hfresh (List.mem_singleton.1 ht' ▸ heq ▸ ht)⟩
  case heard => exact fun e he => Nat.lt_succ_of_lt (h.heard e he)
  case refused =>
    intro t ht
    obtain ⟨hlt, hnot⟩ := h.refused t ht
    refine ⟨Nat.lt_succ_of_lt hlt, fun hin => ?_⟩
    rw [htickets] at hin
    rcases List.mem_append.1 hin with hin | hin
    · exact hnot hin
    · exact hnew hlt (List.mem_singleton.1 hin)
  case apart =>
    refine ((hposts.map (·.1.ticket)).nodup_iff).2 (List.nodup_cons.2 ⟨fun hin => ?_, h.apart⟩)
    obtain ⟨p, hp, heq⟩ := List.mem_map.1 hin
    have hposted := h.posted p hp
    rw [show p.1.ticket = sub.ticket from heq.trans hsame] at hposted
    exact hfresh hposted
  case posted =>
    intro p hp
    rw [htickets]
    rcases List.mem_cons.1 (hposts.mem_iff.1 hp) with rfl | hp
    · exact List.mem_append_right _ (List.mem_singleton.2 hsame)
    · exact List.mem_append_left _ (h.posted p hp)
  case queued =>
    rw [htickets, ← List.append_assoc]
    exact h.queued.append_right _
  case life =>
    intro sub' hsub'
    rcases List.mem_append.1 hsub' with hsub' | hsub'
    · obtain ⟨op', hop', hlife, hpost⟩ := h.life sub' hsub'
      refine ⟨op', hop', hlife, fun p hp heq => ?_⟩
      rcases List.mem_cons.1 (hposts.mem_iff.1 hp) with rfl | hp
      · exact absurd (heq.symm.trans hsame) (hnew (h.lt sub' hsub'))
      · exact hpost p hp heq
    · obtain rfl := List.mem_singleton.1 hsub'
      refine ⟨op, hop, ?_⟩
      rw [hsilent]
      refine ⟨.of_delays (List.forall_mem_nil _), fun p hp heq => ?_⟩
      rcases List.mem_cons.1 (hposts.mem_iff.1 hp) with rfl | hp
      · exact ⟨rfl, List.forall_mem_nil _⟩
      · exact absurd (heq ▸ h.posted p hp) hfresh
  case warnings =>
    have hstages (st : Stage) (hst : st ≠ .waiting) :
        (posts.map Prod.snd).count st = (r.posts.map Prod.snd).count st := by
      rw [(hposts.map Prod.snd).count_eq st, List.map_cons, List.count_cons_of_ne hst.symm]
    have hwarnings : warningsOn r.audit ((subs ++ [sub]).map (·.ticket)) =
        warningsOn r.audit (subs.map (·.ticket)) := by
      refine List.countP_congr fun e he => ?_
      simp [htickets, hnew (h.heard e he)]
    rw [hwarnings, hstages .conflicted (by decide), hstages .rejected (by decide)]
    exact h.warnings

/-- Another request is refused. -/
theorem refuse (h : r.Kept subs missed) : Kept { r with
    refused := r.refused ++ [r.submissions], submissions := r.submissions + 1 } subs missed := by
  constructor
  case lt => exact fun sub hsub => Nat.lt_succ_of_lt (h.lt sub hsub)
  case numbered => exact h.numbered
  case heard => exact fun e he => Nat.lt_succ_of_lt (h.heard e he)
  case refused =>
    intro t ht
    rcases List.mem_append.1 ht with ht | ht
    · obtain ⟨hlt, hnot⟩ := h.refused t ht
      exact ⟨Nat.lt_succ_of_lt hlt, hnot⟩
    · rw [List.mem_singleton.1 ht]
      exact ⟨Nat.lt_succ_self _, h.not_submitted⟩
  case apart => exact h.apart
  case posted => exact h.posted
  case queued => exact h.queued
  case life => exact h.life
  case warnings => exact h.warnings

theorem step (h : r.Kept subs missed) {sub? : Option (Submission ω)} {fails : Bool}
    (hstep : r.Step sub? fails r') : r'.Kept (subs ++ sub?.toList) (missed + fails.toNat) := by
  have hin {e : AuditEntry ω} {owed : List Nat} (howed : r.owed.Perm (e.work.ticket :: owed)) :
      e.work.ticket ∈ subs.map (·.ticket) :=
    h.queued.mem_iff.1 (List.mem_append_right _ (howed.mem_iff.2 List.mem_cons_self))
  cases hstep with
  | shift hshift =>
    rw [Option.toList_none, List.append_nil]
    cases hshift with
    | rest hposts => exact h.rest hposts
    | pass hpass hold hnew => exact h.pass hpass hold hnew
  | accept hticket hop hposts => exact h.accept hticket hop hposts
  | refuse =>
    rw [Option.toList_none, List.append_nil]
    exact h.refuse
  | @invalid e hticket he =>
    rw [Option.toList_none, List.append_nil]
    refine h.remark (n := 1) (hticket ▸ Nat.lt_succ_self _) (fun hin => ?_) ?_ fun _ => id
    · exact absurd (hticket ▸ hin) h.not_submitted
    · rw [List.filter_singleton, he]
      exact .refl _
  | @tellQueued e owed howed he =>
    rw [Option.toList_none, List.append_nil]
    obtain ⟨sub, hsub, heq⟩ := List.mem_map.1 (hin howed)
    refine h.remark (n := 0) (heq ▸ h.lt sub hsub) (fun _ => he) ?_ fun _ => id
    rw [List.filter_singleton, he]
    exact howed.symm
  | @tellRefused e refused hrefused he =>
    rw [Option.toList_none, List.append_nil]
    obtain ⟨hlt, hnot⟩ := h.refused _ (hrefused.mem_iff.2 List.mem_cons_self)
    refine h.remark (n := 0) hlt (fun hin => absurd hin hnot) ?_ fun t ht => ?_
    · rw [List.filter_singleton, he]
      exact .refl _
    · exact hrefused.mem_iff.2 (List.mem_cons_of_mem _ ht)

end Kept

/-- What one operation goes through is the same beside other posts. -/
theorem Shift.beside {r r' : Roll ω} {missed : Bool} (h : r.Shift missed r')
    {posts posts' others : List (Post ω)} (hold : posts.Perm (r.posts ++ others))
    (hnew : posts'.Perm (r'.posts ++ others)) :
    Shift { r with posts } missed { r' with posts := posts' } := by
  cases h with
  | rest hsame => exact .rest (hnew.trans ((hsame.append_right others).trans hold.symm))
  | pass hpass hfrom hto =>
    exact .pass hpass (hold.trans (hfrom.append_right others))
      (hnew.trans ((hto.append_right others).trans (.of_eq (List.append_assoc ..))))

end Roll

end Upkeep
