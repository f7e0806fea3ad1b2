import Mathlib.Data.List.Nodup
import ProbeWeaver.CommandLine.Session
import ProbeWeaver.Proofs.FileTree.Replacement
import ProbeWeaver.Proofs.Outcome

/-!
# Proofs/Config/Overrides — what overrides can repair

A configuration has no issues exactly if it is valid.  The overrides of a command are put in force
on a configuration that was loaded, and what is loaded has to be valid by itself; the result has to
be valid too.  So overrides can spoil a file, and never repair one.

* `RunSettings.issues_eq_nil_iff` — issues and validity.
* `CommandLine.Session.settingsFor_repairs_nothing` — the configuration of a command, and when it
  goes by the overridden one alone.
-/

namespace ProbeWeaver

/-! ## Validity -/

namespace RunSettings

/-- **A valid configuration**: it selects some passes, none of them twice, the chance is a
percentage, the mutate pass has targets, and a mode is for the instrument pass. -/
structure IsValid (config : RunSettings) : Prop where
  passes_ne_nil : config.passes ≠ []
  nodup_passes : config.passes.Nodup
  probability_le : config.relocation.probability ≤ 100
  targets_ne_nil : .mutate ∈ config.passes → config.targets ≠ []
  instrument_mem : config.mode ≠ none → .instrument ∈ config.passes

/-- Nothing is listed again exactly if all passes are different and none is among those before. -/
theorem repeatedFrom_eq_nil_iff : ∀ {seen passes : List PassKind},
    repeatedFrom seen passes = [] ↔ passes.Nodup ∧ ∀ p ∈ passes, p ∉ seen
  | seen, [] => iff_of_true rfl ⟨.nil, fun _ h => absurd h List.not_mem_nil⟩
  | seen, p :: ps => by
      rw [repeatedFrom, List.nodup_cons, List.forall_mem_cons]
      by_cases hp : p ∈ seen
      · rw [if_pos (List.contains_iff_mem.mpr hp)]
        exact iff_of_false (List.cons_ne_nil _ _) fun h => h.2.1 hp
      · rw [if_neg fun h => hp (List.contains_iff_mem.mp h), repeatedFrom_eq_nil_iff]
        constructor
        · rintro ⟨hnodup, hrest⟩
          refine ⟨⟨fun hmem => hrest p hmem List.mem_cons_self, hnodup⟩, hp, fun q hq hseen => ?_⟩
          exact hrest q hq (List.mem_cons_of_mem p hseen)
        · rintro ⟨⟨hmem, hnodup⟩, -, hrest⟩
          refine ⟨hnodup, fun q hq hseen => ?_⟩
          rcases List.mem_cons.mp hseen with rfl | hseen
          · exact hmem hq
          · exact hrest q hq hseen

/-- An issue that is listed under a condition. -/
theorem ite_singleton_eq_nil_iff {α : Type} {a : α} {c : Prop} [Decidable c] :
    (if c then [a] else []) = [] ↔ ¬ c := by
  split
  · next h => exact iff_of_false (List.cons_ne_nil _ _) (not_not_intro h)
  · next h => exact iff_of_true rfl h

/-- **Nothing is wrong** with the valid configurations only. -/
theorem issues_eq_nil_iff {config : RunSettings} : config.issues = [] ↔ config.IsValid := by
  simp only [issues, List.append_eq_nil_iff, ite_singleton_eq_nil_iff, List.map_eq_nil_iff,
    repeatedFrom_eq_nil_iff, List.isEmpty_iff, Nat.not_lt, Bool.and_eq_true, Bool.not_eq_true',
    Option.isSome_iff_ne_none, selects, ← Bool.not_eq_true, List.contains_iff_mem, not_and,
    not_not]
  constructor
  · rintro ⟨⟨⟨⟨hne, hnodup, -⟩, hprobability⟩, htargets⟩, hmode⟩
    exact ⟨hne, hnodup, hprobability, htargets, hmode⟩
  · rintro ⟨hne, hnodup, hprobability, htargets, hmode⟩
    exact ⟨⟨⟨⟨hne, hnodup, fun _ _ => List.not_mem_nil⟩, hprobability⟩, htargets⟩, hmode⟩

theorem isValid_default : ({} : RunSettings).IsValid := issues_eq_nil_iff.mp (by decide)

variable {path : Option String} {text : String} {base config : RunSettings}

/-- **What is loaded** from a text is what it spells, if that is valid. -/
theorem load_eq_ok_iff :
    load path text = .ok config ↔ ofText? text = some config ∧ config.IsValid := by
  rw [load]
  cases htext : ofText? text with
  | none => exact ⟨nofun, fun h => nomatch h.1⟩
  | some base =>
    rw [← issues_eq_nil_iff]
    dsimp only
    constructor
    · intro h
      split at h
      · next hissues =>
        obtain rfl := Except.ok.inj h
        exact ⟨rfl, hissues⟩
      · exact nomatch h
    · rintro ⟨hbase, hissues⟩
      obtain rfl := Option.some.inj hbase
      rw [hissues]

/-- A text that spells an invalid configuration is refused with the issues of that one. -/
theorem load_of_not_isValid (htext : ofText? text = some base) (hbase : ¬ base.IsValid) :
    load path text = .error (.invalid path base.issues) := by
  rw [load, htext]
  dsimp only
  split
  · next hissues => exact absurd (issues_eq_nil_iff.mp hissues) hbase
  · rfl

end RunSettings

/-! ## The configuration of a command -/

namespace CommandLine.Session

variable {s : Session} {path : Option String} {base config : RunSettings} {o : Overrides}

/-- **The configuration before overrides**: the default one, or the one that the text of the file
spells, valid or not. -/
inductive Supplies (s : Session) : Option String → RunSettings → Prop where
  | default : Supplies s none {}
  | file {path text : String} {base : RunSettings} (read : s.tree.readText s.here path = .ok text)
      (spelled : RunSettings.ofText? text = some base) : Supplies s (some path) base

/-- One configuration is there before overrides. -/
theorem Supplies.unique {base' : RunSettings} (h : s.Supplies path base)
    (h' : s.Supplies path base') : base = base' := by
  cases h with
  | default =>
    cases h'
    rfl
  | file read spelled =>
    cases h' with
    | file read' spelled' =>
      obtain rfl := Except.ok.inj (read.symm.trans read')
      exact Option.some.inj (spelled.symm.trans spelled')

/-- **Before overrides** a configuration has to be valid, too. -/
theorem baseConfig_eq_ok_iff :
    s.baseConfig path = .ok config ↔ s.Supplies path config ∧ config.IsValid := by
  cases path with
  | none =>
    constructor
    · intro h
      obtain rfl := Except.ok.inj h
      exact ⟨.default, RunSettings.isValid_default⟩
    · rintro ⟨hbase, -⟩
      rw [← Supplies.unique .default hbase]
      rfl
  | some path =>
    rw [baseConfig, RunSettings.loadFile]
    constructor
    · intro h
      split at h
      · next hload =>
        obtain rfl := Except.ok.inj h
        split at hload
        · exact nomatch hload
        · next hread =>
          obtain ⟨hspelled, hvalid⟩ := RunSettings.load_eq_ok_iff.mp hload
          exact ⟨.file hread hspelled, hvalid⟩
      · exact nomatch h
    · rintro ⟨hbase, hvalid⟩
      cases hbase with
      | file hread hspelled =>
        rw [hread]
        dsimp only
        rw [RunSettings.load_eq_ok_iff.mpr ⟨hspelled, hvalid⟩]

/-- An invalid configuration is refused before overrides. -/
theorem baseConfig_of_not_isValid (h : s.Supplies path base) (hbase : ¬ base.IsValid) :
    s.baseConfig path = .error (.config (.invalid path base.issues)) := by
  cases h with
  | default => exact absurd RunSettings.isValid_default hbase
  | file hread hspelled =>
    rw [baseConfig, RunSettings.loadFile, hread]
    dsimp only
    rw [RunSettings.load_of_not_isValid hspelled hbase]

/-- Overrides on a configuration that is loaded. -/
theorem settingsFor_of_baseConfig (h : s.baseConfig path = .ok base) :
    s.settingsFor path o = if (o.apply base).issues = [] then .ok (o.apply base)
      else .error (.invalid (o.apply base).issues) := by
  rw [settingsFor, h]
  dsimp only [bind, Except.bind]
  split
  · next hissues =>
    rw [if_pos hissues]
    rfl
  · next hissues =>
    rw [if_neg hissues]
    rfl

/-- **The configuration of a command** is the one before overrides with the overrides in force, if
both are valid. -/
theorem settingsFor_eq_ok_iff : s.settingsFor path o = .ok config ↔
    ∃ base, s.Supplies path base ∧ base.IsValid ∧ (o.apply base).IsValid ∧
      config = o.apply base := by
  constructor
  · intro h
    obtain ⟨base, hload, -⟩ := bind_eq_ok_iff.mp h
    obtain ⟨hbase, hvalid⟩ := baseConfig_eq_ok_iff.mp hload
    rw [settingsFor_of_baseConfig hload] at h
    split at h
    · next hissues =>
      exact ⟨base, hbase, hvalid, RunSettings.issues_eq_nil_iff.mp hissues,
        (Except.ok.inj h).symm⟩
    · exact nomatch h
  · rintro ⟨base, hbase, hvalid, hover, rfl⟩
    rw [settingsFor_of_baseConfig (baseConfig_eq_ok_iff.mpr ⟨hbase, hvalid⟩),
      if_pos (RunSettings.issues_eq_nil_iff.mpr hover)]

/-- **Overrides repair nothing.**  Whatever the text of the file and whatever the overrides, a
command gets the configuration of the file with the overrides in force, if the file spells one, and
if it is valid both before and after.  One that is invalid before is refused with the issues of the
file, and one that is invalid after with those of the result.  So the outcome goes by the overridden
configuration alone exactly if the overrides do not make a valid configuration of an invalid one. -/
theorem settingsFor_repairs_nothing (s : Session) (path : Option String) (o : Overrides) :
    (∀ config, s.settingsFor path o = .ok config ↔ ∃ base, s.Supplies path base ∧ base.IsValid ∧
      (o.apply base).IsValid ∧ config = o.apply base) ∧
    (∀ base, s.Supplies path base → ¬ base.IsValid →
      s.settingsFor path o = .error (.config (.invalid path base.issues))) ∧
    (∀ base, s.Supplies path base → base.IsValid → ¬ (o.apply base).IsValid →
      s.settingsFor path o = .error (.invalid (o.apply base).issues)) ∧
    ((∀ config, s.settingsFor path o = .ok config ↔
        ∃ base, s.Supplies path base ∧ (o.apply base).IsValid ∧ config = o.apply base) ↔
      ∀ base, s.Supplies path base → (o.apply base).IsValid → base.IsValid) := by
  refine ⟨fun config => settingsFor_eq_ok_iff, fun base hbase hinvalid => ?_,
    fun base hbase hvalid hover => ?_, fun h base hbase hover => ?_, fun h config => ?_⟩
  · rw [settingsFor, baseConfig_of_not_isValid hbase hinvalid]
    rfl
  · rw [settingsFor_of_baseConfig (baseConfig_eq_ok_iff.mpr ⟨hbase, hvalid⟩),
      if_neg fun hissues => hover (RunSettings.issues_eq_nil_iff.mp hissues)]
  · -- the overridden configuration is accepted, so the file was
    obtain ⟨base', hbase', hvalid, -⟩ :=
      settingsFor_eq_ok_iff.mp ((h (o.apply base)).mpr ⟨base, hbase, hover, rfl⟩)
    exact hbase.unique hbase' ▸ hvalid
  · rw [settingsFor_eq_ok_iff]
    refine exists_congr fun base => and_congr_right fun hbase => ?_
    exact and_iff_right_of_imp fun hover => h base hbase hover.1

/-! ## A file that overrides would repair -/

/-- A configuration that lists a pass twice. -/
def doubledText : String := "[run]\npasses = [\"braces\", \"braces\"]\n"

/-- A directory with that configuration. -/
def doubledSession : Session where
  tree := .directory [("run.toml", .file doubledText.toUTF8)]
  here := []
  parserOf := fun _ _ => .node .sourceUnit none ⟨0, 0⟩ false []

/-- **A file that the overrides would repair** is refused for what they replace. -/
theorem settingsFor_doubled :
    doubledSession.Supplies (some "run.toml") { passes := [.braces, .braces] } ∧
      (({ passes := some [.braces] } : Overrides).apply { passes := [.braces, .braces] }).IsValid ∧
        doubledSession.settingsFor (some "run.toml") { passes := some [.braces] } =
          .error (.config (.invalid (some "run.toml") [.duplicatePass .braces])) := by
  have hleads : doubledSession.tree.Leads 0 [] ["run.toml"] ["run.toml"] :=
    .enter ⟨rfl, by decide⟩ rfl id (.here _)
  have hresolve : doubledSession.tree.resolve [] "run.toml" = .ok ["run.toml"] :=
    FileTree.resolve_eq_ok_iff.mpr ⟨⟨rfl, rfl⟩, 0, by decide, hleads⟩
  have hread : doubledSession.tree.readText [] "run.toml" = .ok doubledText :=
    FileTree.readText_eq_ok_iff.mpr ⟨doubledText.toUTF8,
      FileTree.read_eq_ok_iff.mpr ⟨rfl, _, hresolve, rfl⟩, Text.Utf8.decode_toUTF8 doubledText⟩
  have hspelled : RunSettings.ofText? doubledText = some { passes := [.braces, .braces] } := by
    decide +kernel
  have hbase : doubledSession.Supplies (some "run.toml") { passes := [.braces, .braces] } :=
    .file hread hspelled
  refine ⟨hbase, RunSettings.issues_eq_nil_iff.mp (by decide), ?_⟩
  rw [settingsFor, baseConfig_of_not_isValid hbase fun hvalid => absurd hvalid.nodup_passes (by decide)]
  rfl

end CommandLine.Session

end ProbeWeaver
