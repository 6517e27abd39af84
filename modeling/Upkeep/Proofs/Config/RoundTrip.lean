import Upkeep.Config.Store
import Upkeep.Proofs.Toml.Documents

/-!
# Configurations as texts

A configuration is read as it is written (`ofToml?_toToml?`), with every setting, and it can be
written just if the format can hold each of its numbers (`isSome_toToml?`).

A section is written by name. Where all its settings are given in the order of their declaration,
this comes to the same as giving them as a list (`applyFields_zip`), and each value then sets its
own setting.
-/

namespace Upkeep

open Toml

namespace ConfigTree

variable {σ : Type} {spec todo : List (Setting σ)} {seen : List String} {s : σ}

theorem find?_of_mem (hnames : (spec.map (·.name)).Nodup) {setting : Setting σ}
    (hmem : setting ∈ spec) : spec.find? (·.name = setting.name) = some setting := by
  induction spec with
  | nil => cases hmem
  | cons first spec ih =>
    rw [List.map_cons, List.nodup_cons] at hnames
    rcases List.mem_cons.1 hmem with rfl | hrest
    · simp
    · have hne : first.name ≠ setting.name := fun h =>
        hnames.1 (h ▸ List.mem_map_of_mem hrest)
      rw [List.find?_cons_of_neg (by simpa using hne)]
      exact ih hnames.2 hrest

/-- Settings that are given by name and in order are applied as those of a list. -/
theorem applyFields_zip (hspec : (spec.map (·.name)).Nodup) (htodo : (todo.map (·.name)).Nodup)
    (hmem : ∀ setting ∈ todo, setting ∈ spec ∧ setting.name ∉ seen) (ts : List ConfigTree)
    (hlength : ts.length = todo.length) (surplus : Bool) :
    applyFields spec s seen ((todo.map (·.name)).zip ts) = applyItems surplus todo s ts := by
  induction todo generalizing ts s seen with
  | nil =>
    rw [List.length_eq_zero_iff.1 hlength]
    rfl
  | cons setting todo ih =>
    obtain ⟨t, ts, rfl⟩ := List.exists_cons_of_length_eq_add_one hlength
    obtain ⟨⟨hfirst, hnew⟩, hrest⟩ := List.forall_mem_cons.1 hmem
    rw [List.map_cons, List.nodup_cons] at htodo
    have hunseen : ∀ other ∈ todo, other ∈ spec ∧ other.name ∉ setting.name :: seen := by
      intro other hother
      obtain ⟨hmem, hnot⟩ := hrest other hother
      have hne : other.name ≠ setting.name := fun h =>
        htodo.1 (h ▸ List.mem_map_of_mem hother)
      exact ⟨hmem, by simp [hne, hnot]⟩
    have hstep (s' : σ) : applyFields spec s' (setting.name :: seen)
        ((todo.map (·.name)).zip ts) = applyItems surplus todo s' ts :=
      ih htodo.2 hunseen ts (Nat.succ.inj hlength)
    rw [List.map_cons, List.zip_cons_cons, applyFields, applyItems, find?_of_mem hspec hfirst]
    simp [hnew, hstep]

theorem word?_toNat (n : UInt64) : word? (.int n.toNat) = some n := by
  rw [word?, if_pos ⟨Int.natCast_nonneg _, by exact_mod_cast n.toNat_lt⟩, Int.toNat_natCast,
    UInt64.ofNat_toNat]

theorem applyItems_cons {τ : Type} (surplus : Bool) (name : String) (set : σ → τ → σ)
    {read : ConfigTree → Option τ} {t : ConfigTree} {v : τ} (h : read t = some v)
    (ts : List ConfigTree) :
    applyItems surplus (⟨name, fun s t => set s <$> read t⟩ :: spec) s (t :: ts) =
      applyItems surplus spec (set s v) ts := by
  have hset : (set s <$> read t) = some (set s v) := by
    rw [h]
    rfl
  exact congrArg (fun r => r.bind fun s => applyItems surplus spec s ts) hset

theorem applyItems_word (surplus : Bool) (name : String) (set : σ → UInt64 → σ) (n : UInt64)
    (ts : List ConfigTree) :
    applyItems surplus (wordSetting name set :: spec) s (.int n.toNat :: ts) =
      applyItems surplus spec (set s n) ts :=
  applyItems_cons surplus name set (word?_toNat n) ts

theorem applyItems_text (surplus : Bool) (name : String) (set : σ → String → σ) (v : String)
    (ts : List ConfigTree) :
    applyItems surplus (textSetting name set :: spec) s (.text v :: ts) =
      applyItems surplus spec (set s v) ts :=
  applyItems_cons surplus name set (show ConfigTree.text? (.text v) = some v from rfl) ts

/-- The section that some entries make, as a configuration text. -/
theorem ofTomlFields_ofEntries (es : List (String × (UInt64 ⊕ String))) :
    ofTomlFields (Fields.ofEntries es) =
      (es.map Prod.fst).zip (es.map fun e => ofToml (.ofEntry e.2)) := by
  induction es with
  | nil => rfl
  | cons e es ih =>
    rw [Fields.ofEntries, List.map_cons, ofTomlFields]
    exact congrArg _ ih

end ConfigTree

open ConfigTree

theorem CoordinatorConfig.apply_entries (c : CoordinatorConfig) :
    apply true settings {} (.table (ofTomlFields (Fields.ofEntries c.entries))) = some c := by
  have hnames : (settings.map (·.name)).Nodup := by decide
  rw [ofTomlFields_ofEntries, apply]
  refine (applyFields_zip hnames hnames (fun _ h => ⟨h, List.not_mem_nil⟩) _ rfl true).trans ?_
  simp only [settings, entries, List.map_cons, List.map_nil, Value.ofEntry, ofToml,
    applyItems_word, applyItems_text]
  rfl

theorem TransactionConfig.apply_entries (c : TransactionConfig) :
    apply true settings {} (.table (ofTomlFields (Fields.ofEntries c.entries))) = some c := by
  have hnames : (settings.map (·.name)).Nodup := by decide
  rw [ofTomlFields_ofEntries, apply]
  refine (applyFields_zip hnames hnames (fun _ h => ⟨h, List.not_mem_nil⟩) _ rfl true).trans ?_
  simp only [settings, entries, List.map_cons, List.map_nil, Value.ofEntry, ofToml, applyItems_word]
  rfl

namespace Config

/-- The numbers among the settings. -/
def numbers (c : Config) : List UInt64 :=
  c.entries.flatMap fun (_, es) => es.filterMap fun (_, v) => v.getLeft?

theorem hasBareKeys_entries (c : Config) :
    HasBareKeys c.entries ∧ ∀ s ∈ c.entries, HasBareKeys s.2 := by
  have hnames : HasBareKeys c.entries :=
    hasBareKeys_of_map ((sections true).map (·.name)) rfl (by decide)
  have hcoordinator : HasBareKeys c.coordinator.entries :=
    hasBareKeys_of_map (CoordinatorConfig.settings.map (·.name)) rfl (by decide)
  have htransactions : HasBareKeys c.transactions.entries :=
    hasBareKeys_of_map (TransactionConfig.settings.map (·.name)) rfl (by decide)
  exact ⟨hnames, by simpa [entries] using ⟨hcoordinator, htransactions⟩⟩

/-- A configuration is read as it is written. -/
theorem ofToml?_toToml? {c : Config} {text : String} (h : c.toToml? = some text) :
    ofToml? text = some c := by
  have hparse : parse? text = some (Fields.ofSections c.entries) :=
    parse?_print? c.hasBareKeys_entries.1 c.hasBareKeys_entries.2 h
  have hnames : ((sections true).map (·.name)).Nodup := by decide
  have hfields : ofTomlFields (Fields.ofSections c.entries) = ((sections true).map (·.name)).zip
      [.table (ofTomlFields (Fields.ofEntries c.coordinator.entries)),
        .table (ofTomlFields (Fields.ofEntries c.transactions.entries))] := rfl
  have htree : ofTree? true (.table (ofTomlFields (Fields.ofSections c.entries))) = some c := by
    rw [ofTree?, apply, hfields,
      applyFields_zip hnames hnames (fun _ h => ⟨h, List.not_mem_nil⟩) _ rfl true]
    exact (applyItems_cons true _ _ c.coordinator.apply_entries _).trans
      (applyItems_cons true _ _ c.transactions.apply_entries _)
  exact Option.bind_eq_some_iff.2 ⟨_, hparse, htree⟩

/-- A configuration can be written just if the format can hold its numbers. -/
theorem isSome_toToml? {c : Config} :
    c.toToml?.isSome ↔ ∀ n ∈ c.numbers, n.toNat < Toml.integerBound := by
  have hstorable (v : UInt64 ⊕ String) :
      isStorable v ↔ ∀ n, v.getLeft? = some n → n.toNat < integerBound := by
    cases v with
    | inl n => simp [isStorable]
    | inr s => simp [isStorable]
  have hall : (c.entries.all fun (_, es) => es.all fun (_, v) => isStorable v) ↔
      ∀ n ∈ c.numbers, n.toNat < Toml.integerBound := by
    simp only [List.all_eq_true, hstorable, numbers, List.forall_mem_flatMap,
      List.mem_filterMap, forall_exists_index, and_imp]
    exact forall₂_congr fun s _ => ⟨fun h n e he hn => h e he n hn, fun h e he n hn => h n e he hn⟩
  rw [← hall, toToml?, print?]
  split_ifs with h
  · simp [h]
  · simp [h]

end Config

end Upkeep
