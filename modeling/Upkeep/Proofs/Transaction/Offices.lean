import Mathlib.Data.List.Induction
import Mathlib.Logic.Function.Basic
import Upkeep.Proofs.Transaction.Registrations
import Upkeep.Proofs.Transaction.Steps

/-!
# A registry in use

Threads share a registry. They register transactions and complete them, look them up and sweep them
out, and each transaction has a lock, under which a thread may change its state.

**Sweeps.** A sweep holds the registry, so that nobody else changes it, but it looks at one
transaction after the other, and other threads act between its looks. Which transaction is looked at
when is left open (`Office.look`), and `Office.sweep` is the sweep of the registry for what is seen
in this way. With no acts in between it is the sweep of the registry as it stands (`sweep_nil`).

**The map.** `Turn` says what each move answers and how it changes the map from operations to
handles, and every move is such a turn (`turn_move`). So the handle of an operation is always the
one that its latest creation has given out (`isLatest_run`).

**Use.** While a thread has the lock of a registered transaction, no sweep takes it out, whoever
started the sweep (`InUse.move`). So a transaction that is executed or rolled back under its lock is
still registered afterwards, though its own steps may have swept (`usedBy_calls`, `book_calling`).
-/

namespace Upkeep

/-- A registry, with its transactions as they are by their handles, and the clock. -/
structure Office where
  now : Nat := 0
  registry : Registry := {}
  /-- The number of transactions made so far. It is the next handle. -/
  made : Nat := 0
  state : Nat → TransactionState := fun _ => .pending
  startedAt : Nat → Nat := fun _ => 0
  /-- The thread that has the lock of a transaction. -/
  holder : Nat → Option Nat := fun _ => none

instance : Clock Office := ⟨Office.now⟩

namespace Office

/-- What happens apart from the registry. -/
inductive Act where
  | wait (nanos : Nat)
  | lock (thread handle : Nat)
  | unlock (thread handle : Nat)
  | become (thread handle : Nat) (state : TransactionState)
  deriving DecidableEq

/-- A call of the registry, or something else. -/
inductive Move where
  | act (a : Act)
  /-- A transaction is registered that was made some time ago. -/
  | create (i : OperationId) (age : Nat)
  | get (operation : String)
  | complete (operation : String)
  /-- A sweep during which something else happens. A transaction is looked at after as many of the
  acts as `visit` says of its handle. -/
  | sweep (maxAge : Duration) (acts : List Act) (visit : Nat → Nat)

/-- What a move answers. -/
inductive Reply where
  | nothing
  | handle (h : Nat)
  | found (h? : Option Nat)
  | existed (b : Bool)
  | removed (n : Nat)
  deriving DecidableEq

/-- An act. The lock is had by one thread at a time, and only who has it may change the state. -/
def act (o : Office) : Act → Office
  | .wait nanos => { o with now := o.now + nanos }
  | .lock k h =>
    if o.holder h = none then { o with holder := Function.update o.holder h (some k) } else o
  | .unlock k h =>
    if o.holder h = some k then { o with holder := Function.update o.holder h none } else o
  | .become k h s =>
    if o.holder h = some k then { o with state := Function.update o.state h s } else o

def acts (o : Office) (as : List Act) : Office := as.foldl act o

/-- What is seen of a transaction. -/
def standing (o : Office) (h : Nat) : Standing where
  state := o.state h
  startedAt := o.startedAt h
  isLocked := (o.holder h).isSome

/-- The office at the moment when a sweep looks at a transaction. -/
def look (o : Office) (as : List Act) (visit : Nat → Nat) (h : Nat) : Office :=
  o.acts (as.take (visit h))

/-- What a sweep has seen of a transaction, dated so that its age is what it was at that moment. -/
def seen (o : Office) (as : List Act) (visit : Nat → Nat) (h : Nat) : Standing :=
  let l := o.look as visit h
  { l.standing h with startedAt := (o.acts as).now - (l.now - l.startedAt h) }

def sweep (o : Office) (maxAge : Duration) (as : List Act) (visit : Nat → Nat) : Nat × Office :=
  let (n, registry) := o.registry.sweep (o.acts as).now (o.seen as visit) maxAge
  (n, { o.acts as with registry })

/-- A move. Nobody has the lock of a new transaction. -/
def move (o : Office) : Move → Reply × Office
  | .act a => (.nothing, o.act a)
  | .create i age =>
    let (t, _) := Transaction.create i o.registry.defaultTimeout { o with now := o.now - age }
    (.handle o.made,
      { o with
        registry := o.registry.insert i o.made
        made := o.made + 1
        state := Function.update o.state o.made t.state
        startedAt := Function.update o.startedAt o.made t.startedAt
        holder := Function.update o.holder o.made none })
  | .get operation => (.found (o.registry.get? operation), o)
  | .complete operation =>
    let (b, registry) := o.registry.complete operation
    (.existed b, { o with registry })
  | .sweep maxAge as visit =>
    let (n, o) := o.sweep maxAge as visit
    (.removed n, o)

def run (o : Office) (ms : List Move) : Office := ms.foldl (fun o m => (o.move m).2) o

/-- The map from operations to handles. -/
def book (o : Office) (i : OperationId) : Option Nat := o.registry.get? i.text

/-- The transaction is free, older than an age, and no call is working on it. -/
structure IsStalled (o : Office) (maxAge : Duration) (h : Nat) : Prop where
  free : o.holder h = none
  old : maxAge.nanos < o.now - o.startedAt h
  not_executing : o.state h ≠ .executing
  not_rollingBack : o.state h ≠ .rollingBack

variable {o o' : Office} {a : Act} {as : List Act} {m : Move} {ms : List Move} {h k : Nat}
  {i : OperationId} {maxAge : Duration} {visit : Nat → Nat}

/-! ## Acts -/

section Acts

/-- The registry and the beginnings of the transactions are as they were, and time has only gone
on. -/
structure Undisturbed (o o' : Office) : Prop where
  registry : o'.registry = o.registry
  made : o'.made = o.made
  startedAt : o'.startedAt = o.startedAt
  now_le : o.now ≤ o'.now

theorem undisturbed_act (o : Office) (a : Act) : Undisturbed o (o.act a) := by
  cases a with
  | wait nanos => exact ⟨rfl, rfl, rfl, Nat.le_add_right _ _⟩
  | lock k h | unlock k h | become k h s =>
    rw [act]
    split <;> exact ⟨rfl, rfl, rfl, Nat.le_refl _⟩

theorem holder_act (hk : o.holder h = some k) (ha : a ≠ .unlock k h) :
    (o.act a).holder h = some k := by
  cases a with
  | wait nanos => exact hk
  | lock k' h' =>
    rw [act]
    split
    · rename_i hfree
      have hne : h ≠ h' := fun heq => by rw [← heq, hk] at hfree; cases hfree
      exact (Function.update_of_ne hne _ _).trans hk
    · exact hk
  | unlock k' h' =>
    rw [act]
    split
    · rename_i hheld
      have hne : h ≠ h' := by
        rintro rfl
        rw [hk] at hheld
        exact ha (Option.some.inj hheld ▸ rfl)
      exact (Function.update_of_ne hne _ _).trans hk
    · exact hk
  | become k' h' s =>
    rw [act]
    split <;> exact hk

theorem acts_append (o : Office) (as bs : List Act) : o.acts (as ++ bs) = (o.acts as).acts bs :=
  List.foldl_append

theorem undisturbed_acts (o : Office) (as : List Act) : Undisturbed o (o.acts as) := by
  induction as generalizing o with
  | nil => exact ⟨rfl, rfl, rfl, Nat.le_refl _⟩
  | cons a as ih =>
    have hfirst := undisturbed_act o a
    have hrest := ih (o.act a)
    exact ⟨hrest.registry.trans hfirst.registry, hrest.made.trans hfirst.made,
      hrest.startedAt.trans hfirst.startedAt, hfirst.now_le.trans hrest.now_le⟩

theorem holder_acts (hk : o.holder h = some k) (has : .unlock k h ∉ as) :
    (o.acts as).holder h = some k := by
  induction as generalizing o with
  | nil => exact hk
  | cons a as ih =>
    rw [List.mem_cons, not_or] at has
    exact ih (holder_act hk (Ne.symm has.1)) has.2

end Acts

/-! ## Sweeps -/

theorem now_look_le (o : Office) (as : List Act) (visit : Nat → Nat) (h : Nat) :
    (o.look as visit h).now ≤ (o.acts as).now := by
  have hrest : o.acts as = (o.look as visit h).acts (as.drop (visit h)) := by
    rw [look, ← acts_append, List.take_append_drop]
  rw [hrest]
  exact (undisturbed_acts _ _).now_le

theorem look_nil (o : Office) (visit : Nat → Nat) (h : Nat) : o.look [] visit h = o := by
  rw [look, List.take_nil]
  rfl

/-- A transaction is swept out if it is stalled when it is looked at. -/
theorem isStalled_seen : Registry.isStalled (o.acts as).now maxAge (o.seen as visit h) = true ↔
    (o.look as visit h).IsStalled maxAge h := by
  have hage : (o.acts as).now - (o.seen as visit h).startedAt =
      (o.look as visit h).now - (o.look as visit h).startedAt h :=
    Nat.sub_sub_self ((Nat.sub_le _ _).trans (now_look_le o as visit h))
  have hactive (s : TransactionState) :
      s.isActive = false ↔ s ≠ .executing ∧ s ≠ .rollingBack := by
    cases s <;> simp [TransactionState.isActive]
  have hlocked : (o.seen as visit h).isLocked = false ↔ (o.look as visit h).holder h = none :=
    Option.isSome_eq_false_iff.trans Option.isNone_iff_eq_none
  rw [Registry.isStalled, hage, Bool.and_eq_true, Bool.and_eq_true, Bool.not_eq_true',
    Bool.not_eq_true', decide_eq_true_eq, hactive, hlocked]
  exact ⟨fun ⟨⟨hfree, hold⟩, hidle⟩ => ⟨hfree, hold, hidle.1, hidle.2⟩,
    fun ⟨hfree, hold, hexecuting, hrolling⟩ => ⟨⟨hfree, hold⟩, hexecuting, hrolling⟩⟩

/-- With nothing between its looks, a sweep is a sweep of the registry as it stands. -/
theorem sweep_nil (o : Office) (maxAge : Duration) (visit : Nat → Nat) :
    o.sweep maxAge [] visit =
      ((o.registry.sweep o.now o.standing maxAge).1,
        { o with registry := (o.registry.sweep o.now o.standing maxAge).2 }) := by
  have hseen : o.registry.sweep (o.acts []).now (o.seen [] visit) maxAge =
      o.registry.sweep o.now o.standing maxAge := by
    refine Registry.sweep_congr fun e _ => ?_
    have hage : o.now - (o.now - (o.now - o.startedAt e.2)) = o.now - o.startedAt e.2 :=
      Nat.sub_sub_self (Nat.sub_le _ _)
    rw [seen, look_nil]
    exact congrArg (fun age => !(o.holder e.2).isSome && decide (maxAge.nanos < age) &&
      !(o.state e.2).isActive) hage
  rw [sweep, hseen]
  rfl

/-! ## What moves keep -/

/-- Operations have one entry at most, and the handles that will be given out are not in use. -/
structure IsWell (o : Office) : Prop where
  distinct : o.registry.HasDistinctIds
  lt_made : ∀ e ∈ o.registry.entries, e.2 < o.made

theorem IsWell.of_filter (ho : o.IsWell) (keep : OperationId × Nat → Bool)
    (hentries : o'.registry.entries = o.registry.entries.filter keep) (hmade : o'.made = o.made) :
    o'.IsWell where
  distinct := by
    rw [Registry.HasDistinctIds, hentries]
    exact Registry.hasDistinctIds_filter ho.distinct keep
  lt_made e he := by
    rw [hentries] at he
    rw [hmade]
    exact ho.lt_made e (List.mem_of_mem_filter he)

theorem IsWell.move (ho : o.IsWell) (m : Move) : (o.move m).2.IsWell := by
  cases m with
  | act a =>
    obtain ⟨hregistry, hmade, -, -⟩ := undisturbed_act o a
    exact ⟨hregistry ▸ ho.distinct, hmade ▸ hregistry ▸ ho.lt_made⟩
  | create i age =>
    refine ⟨Registry.hasDistinctIds_insert ho.distinct i o.made, ?_⟩
    refine List.forall_mem_cons.2 ⟨Nat.lt_succ_self _, fun e he => ?_⟩
    exact Nat.lt_succ_of_lt (ho.lt_made e (List.mem_of_mem_filter he))
  | get operation => exact ho
  | complete operation => exact ho.of_filter _ rfl rfl
  | sweep maxAge as visit => exact ho.of_filter _ rfl (undisturbed_acts o as).made

theorem IsWell.run (ho : o.IsWell) (ms : List Move) : (o.run ms).IsWell := by
  induction ms generalizing o with
  | nil => exact ho
  | cons m ms ih => exact ih (ho.move m)

/-! ## The map -/

/-- What a move answers, and the map from operations to handles that it leaves. -/
def Turn (o : Office) (m : Move) (reply : Reply) (next : OperationId → Option Nat) : Prop :=
  match m with
  | .act _ => reply = .nothing ∧ next = o.book
  | .create i _ => reply = .handle o.made ∧ next = Function.update o.book i (some o.made)
  | .get operation =>
    (∃ h?, reply = .found h? ∧
      ∀ h, h? = some h ↔ ∃ i : OperationId, i.text = operation ∧ o.book i = some h) ∧
    next = o.book
  | .complete operation =>
    (∃ b, reply = .existed b ∧
      (b = true ↔ ∃ i : OperationId, i.text = operation ∧ (o.book i).isSome)) ∧
    next = fun i => if i.text = operation then none else o.book i
  | .sweep maxAge as visit =>
    (∀ i h, next i = some h ↔ o.book i = some h ∧ ¬ (o.look as visit h).IsStalled maxAge h) ∧
    reply = .removed (o.registry.ids.countP fun i => (next i).isNone)

theorem turn_move (ho : o.IsWell) (m : Move) : Turn o m (o.move m).1 (o.move m).2.book := by
  cases m with
  | act a => exact ⟨rfl, funext fun i => congrArg (·.get? i.text) (undisturbed_act o a).registry⟩
  | create i age =>
    refine ⟨rfl, funext fun j => ?_⟩
    rw [Function.update_apply]
    exact Registry.get?_insert o.registry i j o.made
  | get operation =>
    exact ⟨⟨_, rfl, fun h => Registry.get?_eq_some_iff_exists⟩, rfl⟩
  | complete operation =>
    refine ⟨⟨_, rfl, ?_⟩, funext fun i => Registry.get?_complete o.registry operation i⟩
    have hfound (h : Nat) : o.registry.get? operation = some h ↔
        ∃ i : OperationId, i.text = operation ∧ o.book i = some h :=
      Registry.get?_eq_some_iff_exists
    simp only [Option.isSome_iff_exists, hfound]
    exact ⟨fun ⟨h, i, hi, hget⟩ => ⟨i, hi, h, hget⟩, fun ⟨i, hi, h, hget⟩ => ⟨h, i, hi, hget⟩⟩
  | sweep maxAge as visit =>
    refine ⟨fun i h => ?_, ?_⟩
    · have hseen : Registry.isStalled (o.acts as).now maxAge (o.seen as visit h) = true ↔
          (o.look as visit h).IsStalled maxAge h := isStalled_seen
      rw [← hseen, Bool.not_eq_true]
      exact Registry.get?_sweep ho.distinct
    · exact congrArg Reply.removed (Registry.fst_sweep ho.distinct)

theorem Turn.cases {reply : Reply} {next : OperationId → Option Nat} (hturn : Turn o m reply next)
    (hnext : next i = some h) :
    (∃ age, m = .create i age ∧ h = o.made) ∨ o.book i = some h ∧ ∀ age, m ≠ .create i age := by
  cases m with
  | act a => exact .inr ⟨hturn.2 ▸ hnext, nofun⟩
  | create j age =>
    rw [hturn.2, Function.update_apply] at hnext
    split at hnext
    · rename_i hij
      exact .inl ⟨age, hij ▸ rfl, (Option.some.inj hnext).symm⟩
    · rename_i hij
      exact .inr ⟨hnext, fun age' heq => hij (Move.create.inj heq).1.symm⟩
  | get operation => exact .inr ⟨hturn.2 ▸ hnext, nofun⟩
  | complete operation =>
    rw [hturn.2] at hnext
    exact .inr ⟨(Option.ite_none_left_eq_some.1 hnext).2, nofun⟩
  | sweep maxAge as visit => exact .inr ⟨((hturn.1 i h).1 hnext).1, nofun⟩

/-- The handle is the one that the latest creation for the operation has given out. -/
def IsLatest (o : Office) (ms : List Move) (i : OperationId) (h : Nat) : Prop :=
  ∃ before age after, ms = before ++ .create i age :: after ∧ (∀ age, .create i age ∉ after) ∧
    h = (o.run before).made

theorem IsLatest.concat (hlatest : IsLatest o ms i h) (hm : ∀ age, m ≠ .create i age) :
    IsLatest o (ms ++ [m]) i h := by
  obtain ⟨before, age, after, rfl, hafter, hmade⟩ := hlatest
  refine ⟨before, age, after ++ [m], by simp, fun age' hmem => ?_, hmade⟩
  rcases List.mem_append.1 hmem with hmem | hmem
  · exact hafter age' hmem
  · exact hm age' (List.mem_singleton.1 hmem).symm

/-- After some moves on an empty registry, every operation has its latest handle or none. -/
theorem isLatest_run (hempty : o.registry.entries = []) (ho : o.IsWell) (ms : List Move)
    (hbook : (o.run ms).book i = some h) : IsLatest o ms i h := by
  induction ms using List.reverseRecOn generalizing h with
  | nil =>
    rw [book, Registry.get?, show (o.run []).registry.entries = [] from hempty] at hbook
    cases hbook
  | append_singleton ms m ih =>
    rw [run, List.foldl_concat] at hbook
    rcases (turn_move (ho.run ms) m).cases hbook with ⟨age, rfl, rfl⟩ | ⟨hbefore, hm⟩
    · exact ⟨ms, age, [], rfl, fun _ => List.not_mem_nil, rfl⟩
    · exact (ih hbefore).concat hm

/-! ## A second sweep -/

/-- A sweep sees the same of a transaction at two moments. -/
structure LooksSame (o o' : Office) (h : Nat) : Prop where
  now : o'.now = o.now
  locked : o'.holder h = none → o.holder h = none
  state : o.holder h = none → o'.state h = o.state h

theorem startedAt_look (o : Office) (as : List Act) (visit : Nat → Nat) (h : Nat) :
    (o.look as visit h).startedAt = o.startedAt := (undisturbed_acts o _).startedAt

/-- A sweep leaves nothing for another that sees the same. -/
theorem sweep_again (ho : o.IsWell) {as' : List Act} {visit' : Nat → Nat}
    (ho' : o' = (o.move (.sweep maxAge as visit)).2)
    (hsame : ∀ i h, o'.book i = some h → LooksSame (o.look as visit h) (o'.look as' visit' h) h) :
    (o'.move (.sweep maxAge as' visit')).1 = .removed 0 ∧
      (o'.move (.sweep maxAge as' visit')).2.registry = o'.registry := by
  have hwell : o'.IsWell := ho' ▸ ho.move _
  have hidle : ∀ e ∈ o'.registry.entries,
      Registry.isStalled (o'.acts as').now maxAge (o'.seen as' visit' e.2) = false := by
    intro e he
    have hbook : o'.book e.1 = some e.2 := (Registry.get?_eq_some_iff hwell.distinct).2 he
    have hlook := hsame e.1 e.2 hbook
    rw [ho'] at hbook
    have hkept := (((turn_move ho (.sweep maxAge as visit)).1 e.1 e.2).1 hbook).2
    have hstarted : o'.startedAt = o.startedAt := by
      rw [ho']
      exact (undisturbed_acts o as).startedAt
    rw [← Bool.not_eq_true, isStalled_seen]
    intro hstalled
    have hfree := hlook.locked hstalled.free
    have hstate := hlook.state hfree
    refine hkept ⟨hfree, ?_, hstate ▸ hstalled.not_executing, hstate ▸ hstalled.not_rollingBack⟩
    have hold := hstalled.old
    rwa [hlook.now, startedAt_look, hstarted, ← startedAt_look o as visit e.2] at hold
  have hsweep := Registry.sweep_eq_self hidle
  exact ⟨congrArg (fun p => Reply.removed (Prod.fst p)) hsweep, congrArg Prod.snd hsweep⟩

/-! ## Use -/

/-- A thread has the lock of a registered transaction. -/
structure InUse (o : Office) (k h : Nat) (i : OperationId) : Prop where
  held : o.holder h = some k
  registered : o.book i = some h

/-- The move neither gives back the lock nor completes or replaces the transaction. -/
def Move.Spares (k h : Nat) (i : OperationId) : Move → Prop
  | .act a => a ≠ .unlock k h
  | .create j _ => j ≠ i
  | .get _ => True
  | .complete operation => operation ≠ i.text
  | .sweep _ as _ => .unlock k h ∉ as

theorem InUse.move (ho : o.IsWell) (huse : o.InUse k h i) (hm : m.Spares k h i) :
    (o.move m).2.InUse k h i := by
  have hturn := turn_move ho m
  cases m with
  | act a => exact ⟨holder_act huse.held hm, hturn.2 ▸ huse.registered⟩
  | create j age =>
    have hlt : h < o.made :=
      ho.lt_made _ ((Registry.get?_eq_some_iff ho.distinct).1 huse.registered)
    refine ⟨(Function.update_of_ne (Nat.ne_of_lt hlt) _ _).trans huse.held, ?_⟩
    rw [hturn.2]
    exact (Function.update_of_ne (Ne.symm hm) _ _).trans huse.registered
  | get operation => exact huse
  | complete operation =>
    refine ⟨huse.held, ?_⟩
    rw [hturn.2]
    exact (if_neg (Ne.symm hm)).trans huse.registered
  | sweep maxAge as visit =>
    refine ⟨holder_acts huse.held hm, (hturn.1 i h).2 ⟨huse.registered, fun hstalled => ?_⟩⟩
    have hlook : (o.look as visit h).holder h = some k :=
      holder_acts huse.held fun hmem => hm (List.mem_of_mem_take hmem)
    rw [hstalled.free] at hlook
    cases hlook

/-- The office is well, and a thread uses a transaction of it. -/
def UsedBy (k h : Nat) (i : OperationId) (o : Office) : Prop := o.IsWell ∧ o.InUse k h i

theorem UsedBy.run (huse : UsedBy k h i o) (hms : ∀ m ∈ ms, m.Spares k h i) :
    UsedBy k h i (o.run ms) := by
  induction ms generalizing o with
  | nil => exact huse
  | cons m ms ih =>
    obtain ⟨hm, hrest⟩ := List.forall_mem_cons.1 hms
    exact ih ⟨huse.1.move m, huse.2.move huse.1 hm⟩ hrest

end Office

/-! ## Worlds that no step leads out of -/

section Keeping

variable {σ : Type} {P : σ → Prop} {ss : List (TransactionStep σ)} {t : Transaction σ} {w : σ}

/-- Neither the action of the step nor its inverse leads out of some worlds. -/
def TransactionStep.Keeps (P : σ → Prop) (s : TransactionStep σ) : Prop :=
  ∀ w, P w → P (s.action w).2 ∧ P (s.inverse w).2

namespace Transaction

theorem world_executeSteps [Clock σ] {timeout : Duration} {startedAt n : Nat} {c : Bool}
    (hss : ∀ s ∈ ss, s.Keeps P) (hw : P w) :
    P (executeSteps timeout startedAt c n ss w).world := by
  induction ss generalizing n w with
  | nil => exact hw
  | cons s ss ih =>
    obtain ⟨hs, hrest⟩ := List.forall_mem_cons.1 hss
    have hafter : P (s.run w).2.2 := by
      rw [TransactionStep.run_eq]
      exact (hs w hw).1
    rw [executeSteps]
    dsimp only
    split
    · exact hw
    · split
      · exact hafter
      · exact ih hrest hafter

theorem world_undoSteps {tell : TransactionStep σ → Option String → List Report}
    (hss : ∀ s ∈ ss, s.Keeps P) (hw : P w) : P (undoSteps tell ss w).world := by
  induction ss with
  | nil => exact hw
  | cons s ss ih =>
    obtain ⟨hs, hrest⟩ := List.forall_mem_cons.1 hss
    rw [undoSteps]
    dsimp only
    split
    · rw [TransactionStep.undo_eq]
      exact (hs _ (ih hrest)).2
    · exact ih hrest

theorem world_calls [Clock σ] (ht : ∀ s ∈ t.steps, s.Keeps P) (hw : P w) :
    (∀ c, P (t.execute c w).world) ∧ (∀ reason, P (t.rollback reason w).world) ∧
      ∀ name reason?, P (t.rollbackTo name reason? w).world := by
  refine ⟨fun c => ?_, fun reason => world_undoSteps ht hw, fun name reason? => ?_⟩
  · have hreset : ∀ s ∈ t.steps.map (·.reset), s.Keeps P := List.forall_mem_map.2 ht
    exact world_executeSteps hreset hw
  · rw [rollbackTo]
    split
    · exact hw
    · exact world_undoSteps (fun s hs => ht s (List.mem_of_mem_drop hs)) hw

end Transaction

end Keeping

namespace Office

variable {o : Office} {k h : Nat} {i : OperationId} {t : Transaction Office}

/-- What an action does to the office is some moves that spare the transaction. -/
def SparedBy (k h : Nat) (i : OperationId) (f : Action Office) : Prop :=
  ∀ o, ∃ ms : List Move, (∀ m ∈ ms, m.Spares k h i) ∧ (f o).2 = o.run ms

/-- A call through the lock, which the thread has for as long as it lasts. -/
def calling (o : Office) (k h : Nat) (during : TransactionState)
    (call : Office → Called Office Bool) : Called Office Bool :=
  let c := call ((o.act (.lock k h)).act (.become k h during))
  { c with world := (c.world.act (.become k h c.transaction.state)).act (.unlock k h) }

theorem usedBy_lock (ho : o.IsWell) (hfree : o.holder h = none) (hi : o.book i = some h) (k : Nat) :
    UsedBy k h i (o.act (.lock k h)) := by
  refine ⟨ho.move (.act (.lock k h)), ?_, ?_⟩
  · rw [act, if_pos hfree]
    exact Function.update_self h (some k) o.holder
  · rw [book, (undisturbed_act o _).registry]
    exact hi

/-- What the thread does under the lock leaves the transaction registered if it leaves it so while
the thread has the lock. -/
theorem book_calling (ho : o.IsWell) (hfree : o.holder h = none) (hi : o.book i = some h)
    (during : TransactionState) {call : Office → Called Office Bool}
    (hcall : ∀ o, UsedBy k h i o → UsedBy k h i (call o).world) :
    (o.calling k h during call).world.book i = some h := by
  have hspared : ∀ m ∈ [Move.act (.become k h during)], m.Spares k h i :=
    List.forall_mem_singleton.2 nofun
  have hbegin : UsedBy k h i ((o.act (.lock k h)).act (.become k h during)) :=
    (usedBy_lock ho hfree hi k).run hspared
  rw [calling, book, (undisturbed_act _ _).registry, (undisturbed_act _ _).registry]
  exact (hcall _ hbegin).2.registered

/-- Calls whose steps spare the transaction leave it registered. -/
theorem usedBy_calls (ht : ∀ s ∈ t.steps, SparedBy k h i s.action ∧ SparedBy k h i s.inverse)
    (ho : UsedBy k h i o) :
    (∀ c, UsedBy k h i (t.execute c o).world) ∧
      (∀ reason, UsedBy k h i (t.rollback reason o).world) ∧
      ∀ name reason?, UsedBy k h i (t.rollbackTo name reason? o).world := by
  refine Transaction.world_calls (fun s hs w hw => ?_) ho
  obtain ⟨haction, hinverse⟩ := ht s hs
  obtain ⟨ms, hms, hafter⟩ := haction w
  obtain ⟨ns, hns, hundone⟩ := hinverse w
  exact ⟨hafter ▸ hw.run hms, hundone ▸ hw.run hns⟩

/-! ## The registry over a run -/

/-- **The registry is a finite map that only what is stalled is swept out of.** After any moves of
any threads on an empty registry:

* the next move is a turn of the map, in which every operation has its latest handle or none;
* the identifiers are the sorted keys, and the count is their number;
* a sweep leaves nothing for another that sees the same, however it is begun;
* a transaction that a thread has the lock of stays registered through all moves that spare it,
  which sweeps do, and so it does through a call under the lock whose steps make such moves. -/
theorem registry_run {o₀ : Office} (hempty : o₀.registry.entries = []) (ms : List Move) :
    let o := o₀.run ms
    (∀ m, Turn o m (o.move m).1 (o.move m).2.book) ∧
    (∀ i h, o.book i = some h → IsLatest o₀ ms i h) ∧
    (o.registry.ids.Pairwise (·.text < ·.text) ∧ (∀ i, i ∈ o.registry.ids ↔ (o.book i).isSome) ∧
      o.registry.count = o.registry.ids.length) ∧
    (∀ maxAge as visit as' visit', let o' := (o.move (.sweep maxAge as visit)).2
      (∀ i h, o'.book i = some h → LooksSame (o.look as visit h) (o'.look as' visit' h) h) →
        (o'.move (.sweep maxAge as' visit')).1 = .removed 0 ∧
          (o'.move (.sweep maxAge as' visit')).2.book = o'.book) ∧
    ∀ k h i, o.book i = some h →
      (o.holder h = some k → ∀ ns, (∀ m ∈ ns, m.Spares k h i) → (o.run ns).InUse k h i) ∧
      (o.holder h = none → ∀ t : Transaction Office,
        (∀ s ∈ t.steps, SparedBy k h i s.action ∧ SparedBy k h i s.inverse) → ∀ during,
          (∀ c, (o.calling k h during (t.execute c)).world.book i = some h) ∧
          (∀ reason, (o.calling k h during (t.rollback reason)).world.book i = some h) ∧
          ∀ name reason?,
            (o.calling k h during (t.rollbackTo name reason?)).world.book i = some h) := by
  intro o
  have hwell₀ : o₀.IsWell := by
    refine ⟨?_, ?_⟩
    · rw [Registry.HasDistinctIds, hempty]
      exact List.nodup_nil
    · rw [hempty]
      exact List.forall_mem_nil _
  have hwell : o.IsWell := hwell₀.run ms
  refine ⟨turn_move hwell, fun i h => isLatest_run hempty hwell₀ ms, ⟨?_, ?_, ?_⟩, ?_, ?_⟩
  · exact Registry.pairwise_ids hwell.distinct
  · exact fun i => Registry.mem_ids_iff hwell.distinct
  · exact Registry.count_eq o.registry
  · intro maxAge as visit as' visit' o' hsame
    obtain ⟨hreply, hregistry⟩ := sweep_again hwell rfl hsame
    exact ⟨hreply, funext fun i => congrArg (·.get? i.text) hregistry⟩
  · intro k h i hi
    refine ⟨fun hheld ns hns => (UsedBy.run ⟨hwell, hheld, hi⟩ hns).2, ?_⟩
    intro hfree t ht during
    exact ⟨fun c => book_calling hwell hfree hi during fun _ ho => (usedBy_calls ht ho).1 c,
      fun reason => book_calling hwell hfree hi during fun _ ho => (usedBy_calls ht ho).2.1 reason,
      fun name reason? =>
        book_calling hwell hfree hi during fun _ ho => (usedBy_calls ht ho).2.2 name reason?⟩

/-- A thread executes a transaction whose step sweeps. Another that is idle is swept out, and the
transaction itself stays. A second sweep from outside finds nothing that the first has left. -/
theorem registry_run_two :
    let long : OperationId := ⟨"long", by decide, by decide⟩
    let idle : OperationId := ⟨"idle", by decide, by decide⟩
    let o := run {} [.create long 0, .create idle 0, .act (.wait 10)]
    let sweep : Move := .sweep .zero [] fun _ => 0
    let sweeping : Action Office := fun o =>
      (if (o.move sweep).1 = .removed 1 then .success else .failure [], (o.move sweep).2)
    let t : Transaction Office :=
      { operation := long
        timeout := .ofSecs 60
        startedAt := 0
        steps := [
          { name := "step_1"
            description := "sweep while running"
            action := sweeping
            inverse := TransactionStep.noAction }] }
    let c := o.calling 7 0 .executing (t.execute false)
    (c.value = true ∧ c.world.book long = some 0 ∧ c.world.book idle = none) ∧
      (o.move sweep).1 = .removed 2 ∧ ((o.move sweep).2.move sweep).1 = .removed 0 := by
  intro long idle o sweep sweeping t c
  have hempty : ({} : Office).registry.entries = [] := rfl
  obtain ⟨-, -, -, hagain, huse⟩ :=
    registry_run hempty [.create long 0, .create idle 0, .act (.wait 10)]
  have hspared : ∀ s ∈ t.steps, SparedBy 7 0 long s.action ∧ SparedBy 7 0 long s.inverse :=
    List.forall_mem_singleton.2
      ⟨fun o => ⟨[sweep], List.forall_mem_singleton.2 List.not_mem_nil, rfl⟩,
        fun o => ⟨[], List.forall_mem_nil _, rfl⟩⟩
  have hstays := ((huse 7 0 long rfl).2 rfl t hspared .executing).1 false
  refine ⟨⟨by decide +kernel, hstays, by decide +kernel⟩, by decide +kernel, ?_⟩
  refine (hagain .zero [] (fun _ => 0) [] (fun _ => 0) fun i h _ => ?_).1
  exact ⟨rfl, id, fun _ => rfl⟩

end Office

end Upkeep
