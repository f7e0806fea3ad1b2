import ProbeWeaver.Proofs.Passes.Shadows
import ProbeWeaver.Proofs.Run.Relocations

/-!
# Proofs/Run/Frees — what the names of freed arrays denote

A call before a return names the array that it frees.  Where no name of a freed array is bound again
at the return, the names differ and each denotes its array (`Pipeline.exists_denoted_of_perform`);
an array declared inside the block of another one of its name has both freed under one name.
-/

namespace ProbeWeaver

namespace Pipeline

open Relocation

/-- **Freed names denote their arrays**, if they are not bound again, and only then.  Whatever the
configuration, as long as it lists the stack-to-heap pass once, and whatever the files, as long as the
parser's spans fit the texts: the run succeeds, and in each laid out file the names freed before a
return differ and denote the arrays that they are freed for exactly when none of the names is bound
again around the return.  What a name denotes is what looking it up from the return finds. -/
theorem exists_denoted_of_perform (config : RunSettings)
    (honce : config.passes.count .stackToHeap = 1) (validateOutput dryRun : Bool)
    (files : List SourceFile) (hfiles : ∀ file ∈ files, file.SpansFit) :
    ∃ summary, ((build config.selectedPasses validateOutput dryRun).perform files).1 =
        .ok summary ∧
      ∀ (place : Nat) (u : SourceUnit), (files.map (·.unit?))[place]? = some (some u) →
        u.root.tree.isLaidOut = true →
          ∃ (file : FileSummary) (works : List Work) (pre post : List Edit),
            summary.files[place]? = some file ∧
              u.ComesOut (pre ++ (works.flatMap (Work.edits u) ++ post)) file ∧
                (∀ e ∈ pre ++ post, IsForeign u e) ∧
                  ∀ ret calls, Work.free ret calls ∈ works →
                    (((calls.map fun call => u.text call.2.name).Nodup ∧
                        ∀ call ∈ calls, Denotes u ret call.2) ↔
                      ∀ call ∈ calls, ¬ Rebound u ret call.2) ∧
                    ∀ call ∈ calls, Denotes u ret call.2 →
                      u.names.lookup u.source (u.text call.2.name) ret =
                        some ⟨.blockVariable, call.2.type⟩ := by
  obtain ⟨summary, hrun, hout⟩ := exists_works config honce validateOutput dryRun files hfiles
  refine ⟨summary, hrun, fun place u hunit hlaid => ?_⟩
  obtain ⟨file, works, pre, post, hfile, hcomes, haccount, hforeign⟩ := hout place u hunit
  obtain ⟨t, hu, ht⟩ := exists_root_of_isLaidOut hunit hlaid
  refine ⟨file, works, pre, post, hfile, hcomes, hforeign, fun ret calls hfree => ?_⟩
  exact ⟨haccount.nodup_and_denotes_iff hu ht hfree, fun call _ hdenotes => hdenotes.lookup_eq⟩

/-- The nested arrays: what is freed before the return denotes its array unless it is bound again. -/
theorem exists_denoted_of_nested :
    ∃ summary, ((build (RunSettings.selectedPasses { passes := [.stackToHeap] }) false
        true).perform [nestedFile]).1 = .ok summary ∧
      ∃ (file : FileSummary) (works : List Work) (pre post : List Edit),
        summary.files[0]? = some file ∧
          nestedUnit.ComesOut (pre ++ (works.flatMap (Work.edits nestedUnit) ++ post)) file ∧
            (∀ e ∈ pre ++ post, IsForeign nestedUnit e) ∧
              ∀ ret calls, Work.free ret calls ∈ works →
                (((calls.map fun call => nestedUnit.text call.2.name).Nodup ∧
                    ∀ call ∈ calls, Denotes nestedUnit ret call.2) ↔
                  ∀ call ∈ calls, ¬ Rebound nestedUnit ret call.2) ∧
                ∀ call ∈ calls, Denotes nestedUnit ret call.2 →
                  nestedUnit.names.lookup nestedUnit.source (nestedUnit.text call.2.name) ret =
                    some ⟨.blockVariable, call.2.type⟩ := by
  obtain ⟨summary, hrun, hout⟩ := exists_denoted_of_perform { passes := [.stackToHeap] } rfl false
    true [nestedFile] spansFit_nested
  exact ⟨summary, hrun, hout 0 nestedUnit rfl (by decide)⟩

/-- The return behind both arrays. -/
def nestedReturn : Node :=
  .child (.child (.child (.child (.root nestedTree) 0 (nestedTree.children[0])) 2
    (nestedTree.children[0].children[2])) 2 (nestedTree.children[0].children[2].children[2])) 2
      (nestedTree.children[0].children[2].children[2].children[2])

theorem leaves_nestedReturn : Leaves nestedUnit nestedReturn :=
  ⟨Node.PlaceOf.mem_walk (t := nestedTree) ⟨⟨⟨⟨rfl, rfl⟩, rfl⟩, rfl⟩, rfl⟩, rfl, by decide,
    by decide +kernel⟩

/-- **One name freed twice.**  With every array relocated, the arrays in both blocks are freed before
the return, where their one name denotes the inner array. -/
theorem exists_freed_twice :
    ∃ summary, ((build (RunSettings.selectedPasses { passes := [.stackToHeap] }) false
        true).perform [nestedFile]).1 = .ok summary ∧
      ∃ (file : FileSummary) (works : List Work) (pre post : List Edit),
        summary.files[0]? = some file ∧
          nestedUnit.ComesOut (pre ++ (works.flatMap (Work.edits nestedUnit) ++ post)) file ∧
            ∃ calls, Work.free nestedReturn calls ∈ works ∧
              (calls.map fun call => nestedUnit.text call.2.name) = ["a", "a"] ∧
                (calls.map Prod.snd).Pairwise fun d e => d.node ≠ e.node := by
  obtain ⟨summary, hrun, hout⟩ := exists_works { passes := [.stackToHeap] } rfl false true
    [nestedFile] spansFit_nested
  obtain ⟨file, works, pre, post, hfile, hcomes, haccount, -⟩ := hout 0 nestedUnit rfl
  obtain ⟨calls, hfree⟩ := haccount.frees rfl nestedReturn leaves_nestedReturn
  obtain ⟨-, hcalls⟩ := haccount.calls_eq hfree
  have hfound : (((nestedReturn.ancestors.filter (·.kind == .compoundStatement)).flatMap fun block =>
      (declarationsBefore block nestedReturn.start).flatMap (relocatedIn nestedUnit (.of {}))).filter
        fun d => !(returnedNames nestedUnit nestedReturn).contains (nestedUnit.text d.name)).map
          (fun d => nestedUnit.text d.name) = List.replicate 2 "a" := by
    decide +kernel
  have hmap : (calls.map fun call => nestedUnit.text call.2.name) =
      (calls.map Prod.snd).map fun d => nestedUnit.text d.name := by
    rw [List.map_map]
    rfl
  have hnames : (calls.map fun call => nestedUnit.text call.2.name).Perm (List.replicate 2 "a") := by
    rw [← hfound, hmap, hcalls]
    exact ((List.mergeSort_perm _ _).filter _).map _
  refine ⟨summary, hrun, file, works, pre, post, hfile, hcomes, calls, hfree,
    List.perm_replicate.mp hnames, ?_⟩
  rw [hcalls]
  exact ((pairwise_arraysInScope nestedUnit (.of {}) nestedReturn).filter _).imp And.right

end Pipeline

end ProbeWeaver
