import Upkeep.Proofs.Transaction.Histories

/-!
# What may be undone, and what a rollback reaches

**Owing.** An undoing of a step is owed by a history if the action of the step has succeeded, and
since then no call to execute has begun and the inverse action has not succeeded (`Owed`). One more
incident changes that in one place only (`owed_concat`).

**The invariant.** The flags of the steps summarise the history: what is owed is what the steps say
is to be undone, and whatever was undone was owed (`Summarised`). A stroke keeps that
(`Summarised.stroke`), and so every call and every session does.

**What follows.** In every session an inverse action is invoked only where it is owed, a failed one
is owed still and the next sweep comes back to it, and one that succeeded is not invoked again
before the step has run again (`lawful_run`). A rollback that nothing spoiled reaches every step
whose latest run succeeded, but for those that a later call to execute has forgotten
(`undone_iff_of_rollback`).
-/

namespace Upkeep

open TransactionStep

namespace Transaction

variable {σ : Type}

/-! ## Histories -/

/-- A list with a last entry, split at some entry: it is the last, or it comes before. -/
theorem concat_eq_append_cons_iff {α : Type} {l p q : List α} {e a : α} :
    l ++ [e] = p ++ a :: q ↔
      (l = p ∧ e = a ∧ q = []) ∨ ∃ q', q = q' ++ [e] ∧ l = p ++ a :: q' := by
  constructor
  · intro h
    rcases List.eq_nil_or_concat q with rfl | ⟨q', x, rfl⟩
    · obtain ⟨rfl, hlast⟩ := List.append_inj' h rfl
      exact .inl ⟨rfl, List.cons.inj hlast |>.1, rfl⟩
    · rw [List.concat_eq_append, ← List.cons_append, ← List.append_assoc] at h
      obtain ⟨rfl, hlast⟩ := List.append_inj' h rfl
      exact .inr ⟨q', by rw [List.concat_eq_append, (List.cons.inj hlast).1], rfl⟩
  · rintro (⟨rfl, rfl, rfl⟩ | ⟨q', rfl, rfl⟩)
    · rfl
    · rw [List.append_assoc, List.cons_append]

/-- The action of the step has succeeded; since then no call to execute has begun, and the inverse
action has not succeeded. -/
def Owed (h : List Incident) (i : Nat) : Prop :=
  ∃ p q, h = p ++ .ran i .success :: q ∧ .begun ∉ q ∧ .undone i .success ∉ q

theorem not_owed_nil (i : Nat) : ¬Owed [] i := fun ⟨_, _, h, _⟩ => by simp at h

theorem owed_concat {h : List Incident} {e : Incident} {i : Nat} :
    Owed (h ++ [e]) i ↔
      e = .ran i .success ∨ Owed h i ∧ e ≠ .begun ∧ e ≠ .undone i .success := by
  constructor
  · rintro ⟨p, q, hsplit, hbegun, hundone⟩
    rcases concat_eq_append_cons_iff.1 hsplit with ⟨-, rfl, -⟩ | ⟨q', rfl, rfl⟩
    · exact .inl rfl
    · simp only [List.mem_append, List.mem_singleton, not_or] at hbegun hundone
      exact .inr ⟨⟨p, q', rfl, hbegun.1, hundone.1⟩, Ne.symm hbegun.2, Ne.symm hundone.2⟩
  · rintro (rfl | ⟨⟨p, q, rfl, hbegun, hundone⟩, hne, hne'⟩)
    · exact ⟨h, [], rfl, List.not_mem_nil, List.not_mem_nil⟩
    · refine ⟨p, q ++ [e], by rw [List.append_assoc, List.cons_append], ?_, ?_⟩
      · simp only [List.mem_append, List.mem_singleton, not_or]
        exact ⟨hbegun, Ne.symm hne⟩
      · simp only [List.mem_append, List.mem_singleton, not_or]
        exact ⟨hundone, Ne.symm hne'⟩

theorem Owed.append {h q : List Incident} {i : Nat} (howed : Owed h i) (hbegun : .begun ∉ q)
    (hundone : .undone i .success ∉ q) : Owed (h ++ q) i := by
  obtain ⟨p, r, rfl, hb, hu⟩ := howed
  refine ⟨p, r ++ q, by rw [List.append_assoc, List.cons_append], ?_, ?_⟩
  · exact fun hmem => (List.mem_append.1 hmem).elim hb hbegun
  · exact fun hmem => (List.mem_append.1 hmem).elim hu hundone

/-- What is owed behind the beginning of a call or a successful undoing is owed to a later run. -/
theorem Owed.ran_mem {h r : List Incident} {e : Incident} {i : Nat} (howed : Owed (h ++ e :: r) i)
    (he : e = .begun ∨ e = .undone i .success) : .ran i .success ∈ r := by
  obtain ⟨p, q, hsplit, hbegun, hundone⟩ := howed
  rcases List.append_eq_append_iff.1 hsplit with ⟨m, rfl, hm⟩ | ⟨m, rfl, hm⟩
  · cases m with
    | nil => rcases he with rfl | rfl <;> simp at hm
    | cons x m =>
      obtain ⟨-, rfl⟩ := List.cons.inj hm
      exact List.mem_append_right _ List.mem_cons_self
  · have hmem : e ∈ .ran i .success :: q := hm ▸ List.mem_append_right _ List.mem_cons_self
    rcases he with rfl | rfl
    · exact absurd ((List.mem_cons.1 hmem).resolve_left Incident.noConfusion) hbegun
    · exact absurd ((List.mem_cons.1 hmem).resolve_left Incident.noConfusion) hundone

/-! ## The flags of the steps -/

/-- The step at a position has something to undo. -/
def Applied (ss : List (TransactionStep σ)) (i : Nat) : Prop := ∃ s, ss[i]? = some s ∧ s.isEligible

theorem applied_iff {ss : List (TransactionStep σ)} {i : Nat} {s : TransactionStep σ}
    (hi : ss[i]? = some s) : Applied ss i ↔ s.isEligible :=
  ⟨fun ⟨_, hi', hs⟩ => Option.some.inj (hi.symm.trans hi') ▸ hs, fun hs => ⟨s, hi, hs⟩⟩

theorem not_applied_reset (ss : List (TransactionStep σ)) (i : Nat) :
    ¬Applied (ss.map (·.reset)) i := by
  rintro ⟨s, hi, hs⟩
  obtain ⟨s, -, rfl⟩ := List.mem_map.1 (List.mem_of_getElem? hi)
  exact Bool.false_ne_true hs

theorem applied_set_self {ss : List (TransactionStep σ)} {i : Nat} {s : TransactionStep σ}
    (hi : ss[i]? = some s) (s' : TransactionStep σ) : Applied (ss.set i s') i ↔ s'.isEligible :=
  applied_iff (List.getElem?_set_self (List.getElem?_eq_some_iff.1 hi).1)

theorem applied_set_of_ne (ss : List (TransactionStep σ)) {i j : Nat} (hne : i ≠ j)
    (s' : TransactionStep σ) : Applied (ss.set i s') j ↔ Applied ss j := by
  rw [Applied, List.getElem?_set_ne hne, Applied]

theorem applied_concat (ss : List (TransactionStep σ)) {s : TransactionStep σ}
    (hs : s.isEligible = false) (i : Nat) : Applied (ss ++ [s]) i ↔ Applied ss i := by
  constructor
  · rintro ⟨s', hi, hs'⟩
    rw [List.getElem?_append] at hi
    split at hi
    · exact ⟨s', hi, hs'⟩
    · have hmem := List.mem_of_getElem? hi
      rw [List.mem_singleton.1 hmem] at hs'
      exact absurd hs' (Bool.eq_false_iff.1 hs)
  · rintro ⟨s', hi, hs'⟩
    have hlt := (List.getElem?_eq_some_iff.1 hi).1
    exact ⟨s', (List.getElem?_append_left hlt).trans hi, hs'⟩

/-- The flags of the steps say what is owed, and whatever was undone was owed. -/
structure Summarised (ss : List (TransactionStep σ)) (h : List Incident) : Prop where
  owed_iff : ∀ i, Owed h i ↔ Applied ss i
  justified : ∀ p i o q, h = p ++ .undone i o :: q → Owed p i

theorem Summarised.stroke [Clock σ] {ss ss' : List (TransactionStep σ)} {h : List Incident}
    {e : Incident} (hsum : Summarised ss h) (hstroke : Stroke ss e ss') :
    Summarised ss' (h ++ [e]) := by
  constructor
  case owed_iff =>
    intro j
    rw [owed_concat, hsum.owed_iff]
    cases hstroke with
    | begin => simp [not_applied_reset]
    | @run i s hi hs w =>
      by_cases hne : i = j
      · subst hne
        rw [applied_set_self hi, isEligible_run, applied_iff hi]
        simp [hs]
      · rw [applied_set_of_ne ss hne]
        simp [hne]
    | @undo i s hi hs w =>
      by_cases hne : i = j
      · subst hne
        rw [applied_set_self hi, isEligible_undo hs, applied_iff hi]
        simp [hs]
      · rw [applied_set_of_ne ss hne]
        simp [hne]
  case justified =>
    intro p i o q hsplit
    rcases concat_eq_append_cons_iff.1 hsplit with ⟨rfl, rfl, -⟩ | ⟨q', -, rfl⟩
    · cases hstroke with
      | undo hi hs w => exact (hsum.owed_iff i).2 ⟨_, hi, hs⟩
    · exact hsum.justified p i o q' rfl

theorem Summarised.strokes [Clock σ] {ss ss' : List (TransactionStep σ)} {h es : List Incident}
    (hsum : Summarised ss h) (hstrokes : Strokes ss es ss') : Summarised ss' (h ++ es) := by
  induction hstrokes generalizing h with
  | nil ss => rwa [List.append_nil]
  | cons first rest ih =>
    rw [List.append_cons]
    exact ih (hsum.stroke first)

/-- A new step has nothing to undo, and nothing of it is in the history. -/
theorem Summarised.concat {ss : List (TransactionStep σ)} {h : List Incident}
    (hsum : Summarised ss h) {s : TransactionStep σ} (hs : s.isEligible = false) :
    Summarised (ss ++ [s]) h :=
  ⟨fun i => (hsum.owed_iff i).trans (applied_concat ss hs i).symm, hsum.justified⟩

namespace Session

variable [Clock σ] {s : Session σ}

theorem summarised_call (h : Summarised s.transaction.steps s.history) (c : Call σ) :
    Summarised (s.call c).transaction.steps (s.call c).history := by
  rcases s.transaction.after_cases s.world c with ⟨hnone, st, hst, hsteps⟩ | hstrokes
  · rw [call, hnone, hsteps, List.append_nil]
    exact h.concat hst
  · exact h.strokes hstrokes

theorem summarised_run (h : Summarised s.transaction.steps s.history) (cs : List (Call σ)) :
    Summarised (s.run cs).transaction.steps (s.run cs).history := by
  induction cs generalizing s with
  | nil => exact h
  | cons c cs ih => exact ih (summarised_call h c)

theorem summarised_new (operation : OperationId) (timeout : Duration) (w : σ) :
    Summarised (new operation timeout w).transaction.steps (new operation timeout w).history where
  owed_iff := fun i => iff_of_false (not_owed_nil i) fun ⟨_, hi, _⟩ => by simp [new, create] at hi
  justified := fun p i o q h => by simp [new] at h

/-! ## What is undone -/

/-- The undoings of a session keep to the rules. -/
structure Lawful (s : Session σ) : Prop where
  /-- An inverse action is invoked only if the action has succeeded in the latest call to execute
  and the inverse action has not succeeded since. -/
  owed : ∀ p i o q, s.history = p ++ .undone i o :: q → Owed p i
  /-- An inverse action that failed is invoked again in every later sweep over its step, until it
  succeeds or a call to execute begins. -/
  retried : ∀ p i o q, s.history = p ++ .undone i o :: q → o ≠ .success → .begun ∉ q →
    .undone i .success ∉ q → ∀ c, s.transaction.Sweeps i c →
      ∃ o', .undone i o' ∈ s.transaction.incidents s.world c
  /-- An inverse action that succeeded is invoked again only after the action has succeeded anew. -/
  untouched : ∀ p i q o r, s.history = p ++ .undone i .success :: (q ++ .undone i o :: r) →
    .ran i .success ∈ q

theorem lawful_of_summarised (h : Summarised s.transaction.steps s.history) : s.Lawful := by
  constructor
  case owed => exact h.justified
  case retried =>
    intro p i o q hsplit hfailed hbegun hundone c hc
    have howed : Owed s.history i := by
      rw [hsplit]
      refine (h.justified p i o q hsplit).append ?_ ?_
      · simpa using hbegun
      · simpa [Ne.symm hfailed] using hundone
    obtain ⟨st, hi, hst⟩ := (h.owed_iff i).1 howed
    exact hc.exists_undone hi hst s.world
  case untouched =>
    intro p i q o r hsplit
    have hsplit' : s.history = (p ++ .undone i .success :: q) ++ .undone i o :: r := by
      rw [hsplit, List.append_assoc, List.cons_append]
    exact (h.justified _ i o r hsplit').ran_mem (.inr rfl)

/-- Whatever is done with a transaction, nothing is undone that is not to be undone. -/
theorem lawful_run (operation : OperationId) (timeout : Duration) (w : σ) (cs : List (Call σ)) :
    ((new operation timeout w).run cs).Lawful :=
  lawful_of_summarised (summarised_run (summarised_new operation timeout w) cs)

end Session

/-! ## A script -/

/-- A world that says how the actions to come end. -/
structure Script where
  outcomes : List Outcome

instance : Clock Script := ⟨fun _ => 0⟩

/-- Ends as the script says. -/
def Script.follow : Action Script := fun w => (w.outcomes.headD .success, ⟨w.outcomes.tail⟩)

/-- Two steps are added that follow a script, and then calls are made. -/
def Script.session (outcomes : List Outcome) (cs : List (Call Script)) : Session Script :=
  (Session.new ⟨"tx", by decide, by decide⟩ defaultTimeout ⟨outcomes⟩).run
    (.addStep none "first" follow follow :: .addStep none "second" follow follow :: cs)

/-- An undoing that fails is tried again until it succeeds. -/
example :
    (Script.session [.success, .success, .failure ["busy"]]
      [.execute false, .rollback "stop", .rollback "again", .rollback "again"]).history =
      [.begun, .ran 0 .success, .ran 1 .success, .undone 1 (.failure ["busy"]), .undone 0 .success,
        .undone 1 .success] := by decide

/-! ## What a rollback reaches -/

/-- After a rollback that nothing spoiled, a step whose latest run succeeded has been undone since,
unless a call to execute began before it was: exactly such a step is forgotten. -/
theorem Session.undone_iff_of_rollback [Clock σ] (operation : OperationId) (timeout : Duration)
    (w : σ) (cs : List (Call σ)) (reason : String) {p q : List Incident} {i : Nat}
    (hclean :
      let s := (new operation timeout w).run cs
      (s.transaction.rollback reason s.world).value = true)
    (hrun :
      (((new operation timeout w).run cs).call (.rollback reason)).history =
        p ++ .ran i .success :: q)
    (hlatest : ∀ o, .ran i o ∉ q) :
    .undone i .success ∈ q ↔ ∀ q₁ q₂, q = q₁ ++ .begun :: q₂ → .undone i .success ∈ q₁ := by
  have hsum := summarised_call (summarised_run (summarised_new operation timeout w) cs)
    (.rollback reason)
  constructor
  · rintro hundone q₁ q₂ rfl
    rcases List.mem_append.1 hundone with hbefore | hafter
    · exact hbefore
    · obtain ⟨r, t, rfl⟩ :=
        List.append_of_mem ((List.mem_cons.1 hafter).resolve_left Incident.noConfusion)
      have hsplit : p ++ .ran i .success :: (q₁ ++ .begun :: (r ++ .undone i .success :: t)) =
          ((p ++ .ran i .success :: q₁) ++ .begun :: r) ++ .undone i .success :: t := by simp
      have hran := (hsum.justified _ i _ t (hrun.trans hsplit)).ran_mem (.inl rfl)
      exact absurd (List.mem_append_right _ (List.mem_cons_of_mem _ (List.mem_append_left _ hran)))
        (hlatest .success)
  · intro hbegun
    refine Decidable.byContradiction fun hundone => ?_
    have howed : Owed _ i := ⟨p, q, hrun, fun hmem => ?_, hundone⟩
    · obtain ⟨st, hi, hst⟩ := (hsum.owed_iff i).1 howed
      have hleft := not_isEligible_of_isClean hclean st (List.mem_of_getElem? hi)
      exact Bool.false_ne_true (hleft.symm.trans hst)
    · obtain ⟨q₁, q₂, rfl⟩ := List.append_of_mem hmem
      exact hundone (List.mem_append_left _ (hbegun q₁ q₂ rfl))

/-- Two steps have run; a rollback undoes both. -/
theorem undone_iff_of_rollback_both :
    let s := Script.session [] [.execute false]
    let q : List Incident := [.ran 1 .success, .undone 1 .success, .undone 0 .success]
    (s.transaction.rollback "stop" s.world).value = true ∧
      (s.call (.rollback "stop")).history = [.begun] ++ .ran 0 .success :: q ∧
      (∀ o, .ran 0 o ∉ q) ∧
      (.undone 0 .success ∈ q ↔ ∀ q₁ q₂, q = q₁ ++ .begun :: q₂ → .undone 0 .success ∈ q₁) := by
  intro s q
  have hclean : (s.transaction.rollback "stop" s.world).value = true := by decide
  have hrun : (s.call (.rollback "stop")).history = [.begun] ++ .ran 0 .success :: q := by decide
  have hlatest : ∀ o, .ran 0 o ∉ q := by simp [q]
  exact ⟨hclean, hrun, hlatest, Session.undone_iff_of_rollback _ _ _ _ "stop" hclean hrun hlatest⟩

/-- Every step whose latest run succeeded has been undone since. -/
def Settled (h : List Incident) : Prop :=
  ∀ p i q, h = p ++ .ran i .success :: q → (∀ o, .ran i o ∉ q) → .undone i .success ∈ q

/-- Two steps have run, a second call to execute stops at the first, and a rollback finds nothing to
undo: the run of the second step stays. -/
theorem not_settled_of_rollback :
    let s := Script.session [.success, .success, .failure ["second run fails"]]
      [.execute false, .execute false]
    (s.transaction.rollback "rerun failed" s.world).value = true ∧
      ¬Settled (s.call (.rollback "rerun failed")).history := by
  refine ⟨by decide, fun hsettled => ?_⟩
  have hundone := hsettled [.begun, .ran 0 .success] 1
    [.begun, .ran 0 (.failure ["second run fails"])] (by decide) (by simp)
  exact absurd hundone (by decide)

end Transaction

end Upkeep
